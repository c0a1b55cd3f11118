import BeatmapBackend.Maps.Provenance
import Mathlib.Data.Rat.Floor

/-! Which audio the kick worker analyses. It downloads the drum stem under a fixed name and the
original under the client's name, one after the other, into one directory. -/
namespace Maps
open Effects Wire Queues Paths Program

section Files

variable {p : DetectKickOnsetsJobPayload} {drum original : Bytes}

def kickFiles (p : DetectKickOnsetsJobPayload) (drum original : Bytes) : Files :=
  (Files.empty.write kickDrumStemPath drum).write (kickOriginalPath p) original

theorem Files.read_write_of_ne {fs : Files} {path path' : PurePath} {body : Bytes}
    (h : path' ≠ path) : (fs.write path body).read path' = fs.read path' := by
  have hne : (path' == path) = false := beq_false_of_ne h
  simp only [Files.read, Files.write, List.lookup_cons, hne]

theorem kickOriginalPath_eq_iff (hplain : Plain p.originalFilename) :
    kickOriginalPath p = kickDrumStemPath ↔ p.originalFilename = "drums.wav" := by
  have hdrums : Plain "drums.wav" := by decide
  rw [kickOriginalPath, kickDrumStemPath, PurePath.join_plain _ hplain,
    PurePath.join_plain _ hdrums]
  simp

theorem kickFiles_read_original :
    (kickFiles p drum original).read (kickOriginalPath p) = .ok original :=
  Files.read_write_self _ _ _

/-- The second download replaces the first when the two names are equal. -/
theorem kickFiles_read_drums (drum original : Bytes) (hplain : Plain p.originalFilename) :
    (kickFiles p drum original).read kickDrumStemPath =
      .ok (if p.originalFilename = "drums.wav" then original else drum) := by
  by_cases hname : p.originalFilename = "drums.wav"
  · rw [if_pos hname, ← (kickOriginalPath_eq_iff hplain).mpr hname]
    exact kickFiles_read_original
  · have hne : kickDrumStemPath ≠ kickOriginalPath p :=
      fun h => hname ((kickOriginalPath_eq_iff hplain).mp h.symm)
    rw [if_neg hname, kickFiles, Files.read_write_of_ne hne]
    exact Files.read_write_self _ _ _

end Files

section Stored

variable {K : Type}

/-- A download answers with the contents that are stored. -/
def ServedBy (objects : String → Option Bytes) : (e : Eff K) → Except Exc (Ans e) → Prop
  | .download key _, .ok body => objects key = some body
  | _, _ => True

variable {objects : String → Option Bytes} {drum original : Bytes}

variable [Field K] [LinearOrder K] [FloorRing K] {cfg : Config} {job : JobView K}
  {p : DetectKickOnsetsJobPayload}

def kickAnalysis (laneCount : ℤ) (drums mix : Bytes) : Prog K (Json K) := do
  let significant ← perform (Eff.hasSignificantDrumEnergy drums mix)
  if significant then do
    let detected ← perform (Eff.detectKickOnsets drums)
    let notes ← lift (buildDrumNotes detected.1 detected.2 laneCount)
    return KickDetectionResult.modelDump ⟨notes⟩
  else return KickDetectionResult.modelDump ⟨[]⟩

/-- The analysis reads both files, of which the original is always found. -/
theorem kick_performsWhen_iff (hdata : job.data = p.modelDump)
    (hdrum : objects (cfg.storage.drumKey p.jobId) = some drum)
    (horiginal : objects (cfg.storage.originalKey p.jobId p.originalFilename) = some original)
    {e : Eff K} (hfail : ∀ j x, e ≠ .markJobFailed j x) (htemp : e ≠ .temporaryDirectory)
    (hdownload : ∀ key path, e ≠ .download key path) :
    (KickHandler.call cfg job).PerformsWhen (ServedBy objects) e ↔
      ∃ drums, (kickFiles p drum original).read kickDrumStemPath = .ok drums ∧
        (kickAnalysis p.laneCount drums original).PerformsWhen (ServedBy objects) e := by
  rw [KickHandler.call, performsWhen_handled hfail, hdata]
  simp only [KickHandler.process, DetectKickOnsetsJobPayload.modelValidate_modelDump,
    lift_ok_bind, performsWhen_perform_bind, ServedBy, hdrum, horiginal, Option.some.injEq,
    true_and, exists_const, exists_eq_left', htemp.symm, (hdownload _ _).symm, false_or]
  rw [← kickFiles, kickFiles_read_original, performsWhen_lift_bind]
  rfl

theorem kickAnalysis_compares {laneCount : ℤ} {drums mix a b : Bytes} :
    (kickAnalysis laneCount drums mix : Prog K (Json K)).PerformsWhen (ServedBy objects)
      (.hasSignificantDrumEnergy a b) ↔ drums = a ∧ mix = b := by
  simp [kickAnalysis, performsWhen_perform_bind, performsWhen_lift_bind, ServedBy,
    Bool.exists_bool]

theorem kickAnalysis_detects {laneCount : ℤ} {drums mix a : Bytes} :
    (kickAnalysis laneCount drums mix : Prog K (Json K)).PerformsWhen (ServedBy objects)
      (.detectKickOnsets a) ↔ drums = a := by
  simp [kickAnalysis, performsWhen_perform_bind, performsWhen_lift_bind, ServedBy,
    Bool.exists_bool]

def Request.kickPayload (cfg : Config) (q : Request) (j : String) : DetectKickOnsetsJobPayload :=
  ⟨j, q.lanes cfg, q.key cfg j, q.name⟩

omit [Field K] [LinearOrder K] [FloorRing K] in
theorem data_of_kickChild {q : Request} {j : String} {duration bpm : ℤ}
    {kick : JobSpec (Json K)} (hkick : kick ∈ (q.songFlow cfg j duration bpm).children)
    (hqueue : kick.queueName = kickOnsetQueueName) :
    kick.data = (q.kickPayload cfg j).modelDump := by
  simp only [Request.songFlow, buildGenerateBeatmapFlow, List.mem_cons, List.not_mem_nil,
    or_false] at hkick
  rcases hkick with rfl | rfl
  · rfl
  · have hne : melodyExtractionQueueName ≠ kickOnsetQueueName := by decide
    exact absurd hqueue hne

/-- After the two downloads each file holds the audio it is named for, and the analyses are made
of these: the energy of the drum stem is compared with that of the original, and kick onsets
are detected in the drum stem. -/
structure RightAudio (cfg : Config) (q : Request) (j : String) (objects : String → Option Bytes)
    (drum original : Bytes) (job : JobView K) : Prop where
  drums : (kickFiles (q.kickPayload cfg j) drum original).read kickDrumStemPath = .ok drum
  mix : (kickFiles (q.kickPayload cfg j) drum original).read
    (kickOriginalPath (q.kickPayload cfg j)) = .ok original
  compares : ∀ a b, (KickHandler.call cfg job).PerformsWhen (ServedBy objects)
    (.hasSignificantDrumEnergy a b) ↔ a = drum ∧ b = original
  detects : ∀ a, (KickHandler.call cfg job).PerformsWhen (ServedBy objects)
    (.detectKickOnsets a) ↔ a = drum

/-- The kick job of a song analyses the right audio exactly when the client has not named the
song like the file of the drum stem, or the two have the same contents. -/
theorem kick_rightAudio_iff {q : Request} (hplain : Plain q.name) {j : String} {duration bpm : ℤ}
    {kick : JobSpec (Json K)} (hkick : kick ∈ (q.songFlow cfg j duration bpm).children)
    (hqueue : kick.queueName = kickOnsetQueueName) (hdata : job.data = kick.data)
    (hdrum : objects (cfg.storage.drumKey j) = some drum)
    (horiginal : objects (cfg.storage.originalKey j q.name) = some original) :
    RightAudio cfg q j objects drum original job ↔ q.name ≠ "drums.wav" ∨ drum = original := by
  rw [data_of_kickChild hkick hqueue] at hdata
  have hread := kickFiles_read_drums (p := q.kickPayload cfg j) drum original hplain
  have hsame : (if q.name = "drums.wav" then original else drum) = drum ↔
      q.name ≠ "drums.wav" ∨ drum = original := by
    by_cases hname : q.name = "drums.wav" <;> simp [hname, eq_comm]
  constructor
  · intro h
    have hdrums := h.drums
    rw [hread] at hdrums
    exact hsame.mp (Except.ok.inj hdrums)
  · intro hright
    have hread : (kickFiles (q.kickPayload cfg j) drum original).read kickDrumStemPath =
        .ok drum := hread.trans (congrArg Except.ok (hsame.mpr hright))
    have hperforms (e : Eff K) := kick_performsWhen_iff (e := e) hdata hdrum horiginal
    constructor
    case drums => exact hread
    case mix => exact kickFiles_read_original
    case compares =>
      intro a b
      rw [hperforms _ (by simp) (by simp) (by simp), hread]
      simp [kickAnalysis_compares, eq_comm]
    case detects =>
      intro a
      rw [hperforms _ (by simp) (by simp) (by simp), hread]
      simp [kickAnalysis_detects, eq_comm]

end Stored

namespace Sample

def songWav : Request := ⟨⟨some "song.wav", some "audio/wav", none, [7]⟩, none⟩

/-- A song whose file is named like the file of a drum stem. -/
def drumsWav : Request := ⟨⟨some "drums.wav", some "audio/wav", none, [7]⟩, none⟩

def storedDrums (key : String) : Option Bytes :=
  if key = ({} : Config).storage.drumKey "0123456789abcdef01234567" then some [1] else some [7]

def kickJob (q : Request) : JobView ℚ where
  ref := ⟨1, some 0⟩
  queueName := kickOnsetQueueName
  data := (q.kickPayload {} "0123456789abcdef01234567").modelDump
  attempts := some 3
  attemptsMade := 0

end Sample

open Sample in
theorem kick_rightAudio_iff_song :
    RightAudio {} songWav "0123456789abcdef01234567" storedDrums [1] [7] (kickJob songWav) ↔
      songWav.name ≠ "drums.wav" ∨ ([1] : Bytes) = [7] := by
  have hkick : (songWav.songFlow (K := ℚ) {} "0123456789abcdef01234567" 1000 120).children.head? =
      some _ := rfl
  exact kick_rightAudio_iff (by decide) (List.mem_of_head? hkick) rfl rfl (by decide) (by decide)

open Sample in
/-- The upload is accepted, its name is plain, and the energy of the original is compared with
its own. -/
theorem not_rightAudio_drumsWav :
    validateRequest {} drumsWav.file drumsWav.laneCount = .ok () ∧ Plain drumsWav.name ∧
      (KickHandler.call {} (kickJob drumsWav)).PerformsWhen (ServedBy storedDrums)
        (.hasSignificantDrumEnergy [7] [7]) ∧
      ¬ RightAudio {} drumsWav "0123456789abcdef01234567" storedDrums [1] [7]
        (kickJob drumsWav) := by
  have hcompares : (KickHandler.call {} (kickJob drumsWav)).PerformsWhen (ServedBy storedDrums)
      (.hasSignificantDrumEnergy [7] [7]) := by
    have hdrum : storedDrums (({} : Config).storage.drumKey "0123456789abcdef01234567") =
        some [1] := by decide
    have horiginal : storedDrums (({} : Config).storage.originalKey "0123456789abcdef01234567"
        "drums.wav") = some [7] := by decide
    apply (kick_performsWhen_iff (p := drumsWav.kickPayload {} "0123456789abcdef01234567") rfl
      hdrum horiginal (by simp) (by simp) (by simp)).mpr
    exact ⟨[7], by decide, kickAnalysis_compares.mpr ⟨rfl, rfl⟩⟩
  refine ⟨by decide, by decide, hcompares, fun h => ?_⟩
  obtain ⟨hsame, -⟩ := (h.compares [7] [7]).mp hcompares
  revert hsame
  decide

end Maps
