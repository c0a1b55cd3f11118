import BeatmapBackend.Collections.Spacing
import BeatmapBackend.Maps.Attacks
import BeatmapBackend.Maps.Runs

/-! How close the notes of a stored beatmap can be. In both groups two notes are thirty
milliseconds apart, and the drums are dealt out to the lanes in turn, so that a lane has rest. -/
namespace Maps
open Collections Numerics

variable {K : Type} [Field K] [LinearOrder K] [FloorRing K]

/-- The two groups of a beatmap that can be played with one finger for each lane. -/
structure WellSpaced (groups : NoteGroup K × NoteGroup K) : Prop where
  drums : groups.1.notes.Pairwise fun m n => m.time + 30 ≤ n.time
  /-- Drums of one lane are as many such gaps apart as there are lanes. -/
  drumLane : groups.1.notes.Pairwise fun m n =>
    m.lane = n.lane → m.time + 30 * groups.1.laneCount ≤ n.time
  /-- No drum lane has two drums more than another. -/
  drumShare : ∀ lane other : ℤ, 0 ≤ lane → lane < groups.1.laneCount →
    0 ≤ other → other < groups.1.laneCount →
    groups.1.notes.countP (fun n => n.lane = lane) ≤
      groups.1.notes.countP (fun n => n.lane = other) + 1
  melody : groups.2.notes.Pairwise fun m n => m.time + 30 ≤ n.time

section Drums

variable {lib : Librosa K} {drums : Bytes} {notes : List (Note K)} {laneCount : ℕ}

theorem buildDrumNotes_fields {onsetTimes : List K} {onseter : KickOnseter K}
    (h : buildDrumNotes onsetTimes onseter laneCount = .ok notes) :
    notes.map Note.time = onsetTimes.map (fun t => roundHalfEven (t * 1000)) ∧
    notes.map Note.lane =
      (List.range onsetTimes.length).map fun i => ((i % laneCount : ℕ) : ℤ) := by
  have htime := except_mapM_map h (g := Note.time) (k := fun a => roundHalfEven (a.1 * 1000))
    fun a _ n hn => by
      obtain ⟨lane, -, hn⟩ := except_bind_eq_ok.mp hn
      obtain rfl := Except.ok.inj hn
      rfl
  have hlane := except_mapM_map h (g := Note.lane) (k := fun a => ((a.2 % laneCount : ℕ) : ℤ))
    fun a _ n hn => by
      obtain ⟨lane, hlane, hn⟩ := except_bind_eq_ok.mp hn
      obtain rfl := Except.ok.inj hn
      unfold floorMod at hlane
      split_ifs at hlane
      obtain rfl := Except.ok.inj hlane
      rw [Int.fmod_eq_emod_of_nonneg _ (Int.natCast_nonneg laneCount), Int.natCast_emod]
  constructor
  · rw [htime, ← List.zipIdx_map_fst 0 onsetTimes, List.map_map]
    simp
  · rw [hlane]
    refine List.ext_getElem (by simp) fun i hi hi' => ?_
    simp

theorem detectKickOnsets_apart (hdoc : lib.Documented) (hspacing : lib.DocumentedSpacing)
    (drums : Bytes) : ∃ (frames : List ℕ) (sr hop : ℕ), 0 < sr ∧ 0 < hop ∧
      (detectKickOnsets lib drums).1 = frames.map (frameTime sr hop) ∧
        frames.Pairwise fun a b => a + ⌊(3 / 100 * sr / hop : K)⌋₊ < b := by
  let o : KickOnseter K := KickOnseter.new (lib.load drums none).2
  let args : OnsetDetectArgs K :=
    { envelope := lib.onsetStrength (o.isolateKickBand lib (lib.load drums none).1) o.sampleRate
        o.hopLength
      sr := o.sampleRate, hopLength := o.hopLength, backtrack := o.backtrack, normalize := true
      delta := none, wait := none }
  exact ⟨lib.onsetDetect args, o.sampleRate, o.hopLength, hspacing.rate_pos drums,
    show 0 < 512 by decide, List.map_congr_left fun frame _ => hdoc.framesToTime_eq frame _ _,
    hspacing.waits_default args rfl rfl⟩

theorem drumNotes_times [IsStrictOrderedRing K] (hdoc : lib.Documented)
    (hspacing : lib.DocumentedSpacing)
    (h : buildDrumNotes (detectKickOnsets lib drums).1 (detectKickOnsets lib drums).2 laneCount =
      .ok notes) : (notes.map Note.time).Pairwise fun s t => s + 30 ≤ t := by
  obtain ⟨frames, sr, hop, hsr, hhop, hframes, hapart⟩ :=
    detectKickOnsets_apart hdoc hspacing drums
  rw [(buildDrumNotes_fields h).1, hframes, List.map_map]
  exact List.Pairwise.map _ (fun a b hab => millis_apart_of_floor hsr hhop hab) hapart

omit [Field K] [LinearOrder K] [FloorRing K] in
theorem drumNotes_lane {count : ℕ} (htimes : (notes.map Note.time).Pairwise fun s t => s + 30 ≤ t)
    (hlanes : notes.map Note.lane = (List.range count).map fun i => ((i % laneCount : ℕ) : ℤ)) :
    notes.Pairwise fun m n => m.lane = n.lane → m.time + 30 * (laneCount : ℤ) ≤ n.time := by
  have hlane (i : ℕ) (hi : i < notes.length) : notes[i].lane = ((i % laneCount : ℕ) : ℤ) := by
    have hentry := List.getElem_of_eq hlanes (i := i) (by simpa using hi)
    simpa using hentry
  rw [List.pairwise_iff_getElem]
  intro i j hi hj hij hsame
  rw [hlane i hi, hlane j hj, Nat.cast_inj] at hsame
  have hturn : i + laneCount ≤ j := add_le_of_mod_eq hij hsame
  have hapart := add_mul_le_of_pairwise htimes hij (by simpa using hj)
  simp only [List.getElem_map] at hapart
  omega

omit [Field K] [LinearOrder K] [FloorRing K] in
theorem drumNotes_share {count : ℕ} (hpos : 0 < laneCount)
    (hlanes : notes.map Note.lane = (List.range count).map fun i => ((i % laneCount : ℕ) : ℤ))
    {lane other : ℕ} (hlane : lane < laneCount) (hother : other < laneCount) :
    notes.countP (fun n => n.lane = (lane : ℤ)) ≤
      notes.countP (fun n => n.lane = (other : ℤ)) + 1 := by
  have hcount (a : ℕ) : notes.countP (fun n => n.lane = (a : ℤ)) =
      (List.range count).countP fun i => i % laneCount = a := by
    have hmap := congrArg (List.countP fun l => l = (a : ℤ)) hlanes
    simpa only [List.countP_map, Function.comp_def, Nat.cast_inj] using hmap
  rw [hcount, hcount]
  exact count_mod_le hpos count hlane hother

end Drums

section Groups

variable [IsStrictOrderedRing K] {cfg : Config} {q : Request} {notes : List (Note K)}

def Librosa.Spaced (lib : Librosa K) : Prop := lib.Documented ∧ lib.DocumentedSpacing

theorem KickNotes.fields {laneCount : ℕ} (hlanes : q.lanes cfg = laneCount)
    (h : KickNotes cfg Librosa.Spaced q notes) : ∃ count,
      (notes.map Note.time).Pairwise (fun s t => s + 30 ≤ t) ∧
      notes.map Note.lane = (List.range count).map fun i => ((i % laneCount : ℕ) : ℤ) := by
  obtain ⟨drumStem, original, ⟨lib, drums, mix, -, -, -, hrun⟩, -⟩ := h
  rcases hrun with ⟨-, rfl⟩ | ⟨-, lib', ⟨hdoc, hspacing⟩, hbuild⟩
  · exact ⟨0, List.Pairwise.nil, rfl⟩
  · rw [hlanes] at hbuild
    exact ⟨_, drumNotes_times hdoc hspacing hbuild, (buildDrumNotes_fields hbuild).2⟩

theorem MelodyNotes.times {bpm : ℤ} (h : MelodyNotes cfg Librosa.Spaced q bpm notes) :
    notes.Pairwise fun m n => m.time + 30 ≤ n.time := by
  obtain ⟨melodyStem, lib, lib', hlib, hlib', hbuild, -⟩ := h
  exact melodyNotes_times hlib'.1 hlib'.2 (hlib.2.rate_pos melodyStem) hbuild

/-- In every reachable state the groups of a stored beatmap are well spaced. -/
theorem beatmaps_spaced {acts : List (Act K)} {w : World K}
    (hacts : ∀ a ∈ acts, a.Within Librosa.Spaced) (hrun : World.empty.run cfg acts = some w)
    {id : ObjectId} {d : BeatmapDoc K} (hd : w.shared.beatmaps.findOne id = some d) :
    ∃ (b : NewBeatmap K) (now : ℤ), d = b.document now ∧ WellSpaced b.notes := by
  have hs := (worldLegit_empty.run hacts hrun).1.shared
  obtain ⟨b, now, ⟨q, duration, bpm, kick, melody, hq, -, hkick, hmelody, hb⟩, rfl⟩ :=
    hs.beatmaps id d hd
  refine ⟨b, now, rfl, ?_⟩
  obtain ⟨hvalid, -⟩ := hs.created_doc _ q hq
  obtain ⟨hpos, -⟩ := lanes_of_validateRequest hvalid
  obtain ⟨laneCount, hlanes⟩ := Int.eq_ofNat_of_zero_le (zero_le_one.trans hpos)
  obtain ⟨count, htimes, hturns⟩ := hkick.fields hlanes
  have hgroups : b.notes = (⟨laneCount, kick⟩, ⟨laneCount, melody⟩) := by
    rw [hb, ← hlanes]
    rfl
  rw [hgroups]
  exact
    { drums := List.pairwise_map.mp htimes
      drumLane := drumNotes_lane htimes hturns
      drumShare := fun lane other hlane hlt hother hlt' => by
        obtain ⟨a, rfl⟩ := Int.eq_ofNat_of_zero_le hlane
        obtain ⟨c, rfl⟩ := Int.eq_ofNat_of_zero_le hother
        dsimp only at hlt hlt'
        exact drumNotes_share (by omega) hturns (by omega) (by omega)
      melody := hmelody.times }

end Groups

namespace Sample

def struckEnv (n : Fin 16) : Env ℚ := { env n with lib := struck, now := n.val }

/-- Thread `i` performs `n` operations that succeed, and stores `objectId id` at the time `id`. -/
def struckSteps (i n : ℕ) (id : Fin 16) : List (Act ℚ) :=
  List.replicate n (.step i (.done (struckEnv id)))

/-- A song with two drums and two notes of melody, from thread `i` and flow `f` on. -/
def struckSong (i f : ℕ) (job beatmap : Fin 16) : List (Act ℚ) :=
  .request file none :: struckSteps i 5 job ++
  .start ⟨f, none⟩ :: struckSteps (i + 1) 9 job ++
  [.finish (i + 1), .start ⟨f + 1, some 0⟩, .start ⟨f + 1, some 1⟩] ++
  struckSteps (i + 2) 5 job ++ struckSteps (i + 3) 4 job ++
  [.finish (i + 3), .finish (i + 2), .start ⟨f + 1, none⟩] ++
  struckSteps (i + 4) 3 beatmap ++ [.finish (i + 4)]

def struckActs : List (Act ℚ) := struckSong 0 0 1 2

def struckTwice : List (Act ℚ) := struckActs ++ struckSong 5 2 3 4

theorem struckSong_within {P : Librosa ℚ → Prop} (h : P struck) (i f : ℕ) (job beatmap : Fin 16) :
    ∀ a ∈ struckSong i f job beatmap, a.Within P := by
  have hsteps (i n : ℕ) (id : Fin 16) : ∀ a ∈ struckSteps i n id, a.Within P := by
    intro a ha
    obtain rfl := List.eq_of_mem_replicate ha
    rintro e he
    obtain rfl := Option.some.inj he
    exact h
  simp only [struckSong, List.forall_mem_append, List.forall_mem_cons]
  simpa [Act.within_of_ne_step] using
    (⟨⟨⟨⟨hsteps i 5 job, hsteps (i + 1) 9 job⟩, hsteps (i + 2) 5 job⟩, hsteps (i + 3) 4 job⟩,
      hsteps (i + 4) 3 beatmap⟩ : (((((∀ a ∈ struckSteps i 5 job, a.Within P) ∧ _) ∧ _) ∧ _) ∧ _))

theorem struckTwice_within {P : Librosa ℚ → Prop} (h : P struck) :
    ∀ a ∈ struckTwice, a.Within P :=
  List.forall_mem_append.mpr ⟨struckSong_within h 0 0 1 2, struckSong_within h 5 2 3 4⟩

theorem struck_spaced : struck.Spaced := ⟨struck_documented, struck_documentedSpacing⟩

end Sample

open Sample in
theorem beatmaps_spaced_sample : ∃ (w : World ℚ) (d : BeatmapDoc ℚ) (b : NewBeatmap ℚ) (now : ℤ),
    World.empty.run {} struckActs = some w ∧
      w.shared.beatmaps.findOne (objectId 2) = some d ∧ d = b.document now ∧
      WellSpaced b.notes := by
  have hrun : ((World.empty.run {} struckActs).bind fun w =>
      w.shared.beatmaps.findOne (objectId 2)).isSome = true := by decide +kernel
  obtain ⟨d, hd⟩ := Option.isSome_iff_exists.mp hrun
  obtain ⟨w, hw, hd⟩ := Option.bind_eq_some_iff.mp hd
  obtain ⟨b, now, hb, hspaced⟩ := beatmaps_spaced (struckSong_within struck_spaced 0 0 1 2) hw hd
  exact ⟨w, d, b, now, hw, hd, hb, hspaced⟩

end Maps
