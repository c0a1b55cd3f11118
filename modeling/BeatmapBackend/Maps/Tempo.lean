import BeatmapBackend.Maps.Extraction
import BeatmapBackend.Maps.Handlers

/-! The tempo of a mix, from the worker that measures it to the worker that divides by it: the
notes of a stem are built unless the tempo rounds to zero. -/
namespace Maps
open Effects Numerics Program Queues Wire

variable {K : Type} [Field K] [LinearOrder K] [FloorRing K]

/-- Audio is loaded at the rate that is asked for, and an estimated tempo is that of a lag within
eight seconds, in frames of the default hop length. -/
structure Librosa.DocumentedTempo (lib : Librosa K) : Prop where
  load_rate : ∀ audio sr, (lib.load audio (some sr)).2 = sr
  beatTrack_lag : ∀ signal tempo, lib.beatTrack signal 22050 = .array tempo →
    ∃ lag : ℕ, 1 ≤ lag ∧ 512 * lag < 8 * 22050 ∧ tempo = [(60 * 22050 / (512 * lag) : K)]

section Detection

variable {lib : Librosa K} {mix : Bytes} {bpm : ℤ}

omit [Field K] [LinearOrder K] [FloorRing K] in
theorem Tempo.item_eq_ok {t : Tempo K} {tempo : K} :
    t.item = .ok tempo ↔ t = .array [tempo] := by
  rcases t with x | ⟨_ | ⟨x, _ | ⟨y, xs⟩⟩⟩ <;> simp [Tempo.item]

theorem detectBpm_eq_ok : detectBpm lib mix = .ok bpm ↔
    ∃ tempo, lib.beatTrack (lib.load mix (some 22050)).1 (lib.load mix (some 22050)).2 =
      .array [tempo] ∧ roundHalfEven tempo = bpm := by
  rw [detectBpm, except_bind_eq_ok]
  simp only [Tempo.item_eq_ok]
  exact exists_congr fun tempo => and_congr_right fun _ =>
    ⟨Except.ok.inj, congrArg Except.ok⟩

/-- The longest lag is one of 344 frames, so a tempo that is returned is above seven. -/
theorem eight_le_detectBpm [IsStrictOrderedRing K] (hdoc : lib.DocumentedTempo)
    (h : detectBpm lib mix = .ok bpm) : 8 ≤ bpm := by
  obtain ⟨tempo, htempo, rfl⟩ := detectBpm_eq_ok.mp h
  rw [hdoc.load_rate] at htempo
  obtain ⟨lag, hlag, hwindow, heq⟩ := hdoc.beatTrack_lag _ _ htempo
  have hpos : (0 : K) < lag := by exact_mod_cast hlag
  have hle : (lag : K) ≤ 344 := by exact_mod_cast (by omega : lag ≤ 344)
  have habove : 15 / 2 < tempo := by
    rw [List.singleton_injective heq, lt_div_iff₀ (by positivity)]
    linarith
  have hround : ((7 : ℤ) : K) < roundHalfEven tempo := by
    have hbounds := roundHalfEven_bounds tempo
    push_cast
    linarith
  exact Int.add_one_le_iff.mpr (by exact_mod_cast hround)

end Detection

/-- Nothing is divided by zero, and every note counts for a beat at least. -/
structure TempoSafe (notes : Except Exc (List (Note K))) : Prop where
  divides : ∀ e, notes = .error e → e.kind ≠ .zeroDivisionError
  combo : ∀ ns, notes = .ok ns → ∀ n ∈ ns, 1 ≤ n.combo

omit [Field K] [LinearOrder K] [FloorRing K] in
theorem tempoSafe_ok {ns : List (Note K)} (hcombo : ∀ n ∈ ns, 1 ≤ n.combo) :
    TempoSafe (.ok ns) where
  divides e he := by cases he
  combo ns' hns := Except.ok.inj hns ▸ hcombo

omit [Field K] [LinearOrder K] [FloorRing K] in
theorem tempoSafe_error {e : Exc} (hkind : e.kind ≠ .zeroDivisionError) :
    TempoSafe (.error e : Except Exc (List (Note K))) where
  divides e' he := Except.error.inj he ▸ hkind
  combo ns hns := by cases hns

section Notes

variable {onset offset energy : K} {lane : ℕ} {bpm : ℤ}

theorem one_le_combo {n : Note K} (h : buildMelodyNote onset offset lane energy bpm = .ok n) :
    1 ≤ n.combo := by
  obtain ⟨beats, rfl⟩ := buildMelodyNote_cases h
  exact le_max_left 1 beats

theorem buildMelodyNote_zero : buildMelodyNote onset offset lane energy 0 =
    .error ⟨.zeroDivisionError, "integer division or modulo by zero"⟩ := rfl

end Notes

section Stages

variable [IsStrictOrderedRing K] {lib : Librosa K} {y : List K} {sr : ℕ} {bpm laneCount : ℤ}

/-- Extraction divides by the tempo exactly when there is a note to build. -/
theorem tempoSafe_iff (hdoc : lib.Documented) (hlib : lib.DocumentedBands)
    (hlanes : 1 ≤ laneCount) :
    TempoSafe (buildMelodyNotes lib y sr bpm laneCount) ↔ bpm ≠ 0 ∨ NoOnsets lib y sr := by
  by_cases hnone : NoOnsets lib y sr
  · refine iff_of_true ?_ (Or.inr hnone)
    by_cases hy : y = []
    · rw [hy, buildMelodyNotes_nil]
      exact tempoSafe_error ExcKind.noConfusion
    · rw [buildMelodyNotes_of_noOnsets hy hnone]
      exact tempoSafe_ok fun n hn => by cases hn
  · obtain ⟨stages, hstages, heq⟩ := buildMelodyNotes_eq_mapM bpm hdoc hlib hlanes hnone
    rw [heq, or_iff_left hnone]
    constructor
    · rintro hsafe rfl
      exact hsafe.divides _ (except_mapM_error hstages fun _ _ => buildMelodyNote_zero) rfl
    · intro hbpm
      obtain ⟨notes, hnotes⟩ := except_mapM_isOk (l := stages) fun note _ =>
        buildMelodyNote_isOk note.1 note.2.1 note.2.2.1 note.2.2.2 hbpm
      rw [hnotes]
      apply tempoSafe_ok
      intro n hn
      obtain ⟨note, -, hbuild⟩ := except_mapM_source hnotes hn
      exact one_le_combo hbuild

end Stages

section Chain

variable {cfg : Config} {job : JobView K} {p : ExtractMelodyJobPayload} {jobId objectKey
  originalFilename : String} {laneCount duration bpm : ℤ} {y : List K} {sr : ℕ}

/-- The worker builds the notes of whatever it loads with the tempo and the lanes of its
payload. -/
theorem melody_builds (hdata : job.data = p.modelDump) {bpm' laneCount' : ℤ} :
    (MelodyHandler.call cfg job).Performs (.buildMelodyNotes y sr bpm' laneCount') ↔
      bpm' = p.bpm ∧ laneCount' = p.laneCount := by
  rw [MelodyHandler.call, performs_handled (by simp), hdata]
  simp [MelodyHandler.process, performs_perform_bind, eq_comm]

omit [Field K] [LinearOrder K] [FloorRing K] in
/-- The data of the melody job of a flow are the lanes and the tempo the flow was built with. -/
theorem data_of_melodyChild {child : JobSpec (Json K)}
    (hchild : child ∈ (buildGenerateBeatmapFlow cfg jobId objectKey originalFilename laneCount
      duration bpm).children) (hqueue : child.queueName = melodyExtractionQueueName) :
    child.data = ExtractMelodyJobPayload.modelDump ⟨jobId, laneCount, bpm⟩ := by
  simp only [buildGenerateBeatmapFlow, List.mem_cons, List.not_mem_nil, or_false] at hchild
  rcases hchild with rfl | rfl
  · have hne : kickOnsetQueueName ≠ melodyExtractionQueueName := by decide
    exact absurd hqueue hne
  · rfl

/-- The melody job of a song is given the tempo of the mix, and its notes are built with it without
a division by zero. -/
theorem melodyChild_tempoSafe [IsStrictOrderedRing K] {lib lib' : Librosa K}
    (htempo : lib.DocumentedTempo) (hdoc : lib'.Documented) (hlib : lib'.DocumentedBands)
    {mix : Bytes} (hbpm : detectBpm lib mix = .ok bpm) (hlanes : 1 ≤ laneCount)
    {child : JobSpec (Json K)}
    (hchild : child ∈ (buildGenerateBeatmapFlow cfg jobId objectKey originalFilename laneCount
      duration bpm).children)
    (hqueue : child.queueName = melodyExtractionQueueName) (hdata : job.data = child.data)
    (y : List K) (sr : ℕ) :
    8 ≤ bpm ∧
    (∀ bpm' laneCount', (MelodyHandler.call cfg job).Performs
      (.buildMelodyNotes y sr bpm' laneCount') ↔ bpm' = bpm ∧ laneCount' = laneCount) ∧
    TempoSafe (buildMelodyNotes lib' y sr bpm laneCount) := by
  have hpos : 8 ≤ bpm := eight_le_detectBpm htempo hbpm
  rw [data_of_melodyChild hchild hqueue] at hdata
  refine ⟨hpos, fun bpm' laneCount' => melody_builds hdata, ?_⟩
  exact (tempoSafe_iff hdoc hlib hlanes).mpr (Or.inl (by omega))

end Chain

namespace Sample

def timed : Librosa ℚ :=
  { hearing [] fun _ => 1 with
    load := fun audio sr => (audio.map fun byte => (byte.toNat : ℚ), sr.getD 22050)
    beatTrack := fun signal sr =>
      if signal.all (· = 0) then .float 0 else .array [60 * sr / (512 * 21)] }

theorem timed_documentedTempo : timed.DocumentedTempo where
  load_rate _ _ := rfl
  beatTrack_lag signal tempo h := by
    refine ⟨21, by decide, by decide, ?_⟩
    simp only [timed] at h
    split at h
    · cases h
    · exact (Tempo.array.inj h).symm

def melodyChild (bpm : ℤ) : JobSpec (Json ℚ) where
  name := extractMelodyJobName
  queueName := melodyExtractionQueueName
  data := ExtractMelodyJobPayload.modelDump ⟨"0123456789abcdef01234567", 2, bpm⟩
  opts := { ({} : Config).melodyExtraction.toBullmqOpts with failParentOnFailure := true }

def melodyJob (bpm : ℤ) : JobView ℚ where
  ref := ⟨1, some 1⟩
  queueName := melodyExtractionQueueName
  data := (melodyChild bpm).data
  attempts := some 3
  attemptsMade := 0

theorem melodyChild_mem (bpm : ℤ) :
    melodyChild bpm ∈ (buildGenerateBeatmapFlow {} "0123456789abcdef01234567"
      "originals/song.mp3" "song.mp3" 2 1000 bpm).children :=
  List.mem_cons_of_mem _ (List.mem_singleton_self _)

end Sample

open Sample in
theorem melodyChild_tempoSafe_sample : detectBpm timed [1] = .ok 123 ∧ 8 ≤ (123 : ℤ) ∧
    (∀ bpm' laneCount', (MelodyHandler.call {} (melodyJob 123)).Performs
      (.buildMelodyNotes [1] 22050 bpm' laneCount') ↔ bpm' = 123 ∧ laneCount' = 2) ∧
    TempoSafe (buildMelodyNotes (hearing [3, 6] fun _ => 1) [1] 22050 123 2) := by
  have hbpm : detectBpm timed [1] = .ok 123 :=
    detectBpm_eq_ok.mpr ⟨60 * 22050 / (512 * 21), rfl, by decide +kernel⟩
  exact ⟨hbpm, melodyChild_tempoSafe timed_documentedTempo
    (hearing_documented (by decide) _) (hearing_documentedBands _ _) hbpm (by decide)
    (melodyChild_mem 123) rfl rfl [1] 22050⟩

open Sample in
/-- No tempo is returned for a silent mix. With the tempo zero the two notes of the stem would
divide by it. -/
theorem not_tempoSafe_zero :
    detectBpm timed [0] =
      .error ⟨.other "AttributeError", "'float' object has no attribute 'item'"⟩ ∧
    roundHalfEven (0 : ℚ) = 0 ∧
    (MelodyHandler.call {} (melodyJob 0)).Performs (.buildMelodyNotes [1] 22050 0 2) ∧
    buildMelodyNotes (hearing [3, 6] fun _ => 1) [1] 22050 0 2 =
      .error ⟨.zeroDivisionError, "integer division or modulo by zero"⟩ ∧
    ¬ TempoSafe (buildMelodyNotes (hearing [3, 6] fun _ => 1) [1] 22050 0 2) := by
  have hfail : buildMelodyNotes (hearing [3, 6] fun _ => 1) [1] 22050 0 2 =
      .error ⟨.zeroDivisionError, "integer division or modulo by zero"⟩ := by decide +kernel
  exact ⟨rfl, roundHalfEven_zero, (melody_builds rfl).mpr ⟨rfl, rfl⟩, hfail,
    fun hsafe => hsafe.divides _ hfail rfl⟩

end Maps
