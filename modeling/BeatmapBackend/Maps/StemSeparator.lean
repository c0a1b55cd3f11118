import BeatmapBackend.Maps.Service
import BeatmapBackend.Maps.Handlers
import BeatmapBackend.Paths.Suffixes

/-! The separated stems are looked for under the stem of the input's path, while demucs names
its directory after the part of the input's name in front of the last dot. -/
namespace Maps
open Paths

structure SeparatedStems where
  drumStemPath : PurePath
  melodyStemPath : PurePath

def demucsTwoStems (audioPath outputDir : PurePath) : PurePath :=
  (outputDir.join "htdemucs").join audioPath.stem

def separateStems (audioPath workDir : PurePath) : SeparatedStems :=
  let drumStemDir := demucsTwoStems audioPath workDir
  let noDrumsPath := drumStemDir.join "no_drums.wav"
  { drumStemPath := drumStemDir.join "drums.wav", melodyStemPath := noDrumsPath }

def demucsTrackDir (audioPath outputDir : PurePath) : PurePath :=
  (outputDir.join "htdemucs").join (rsplitDot audioPath.name)

/-- The files of `demucs --two-stems drums`. -/
def demucsStems (audioPath outputDir : PurePath) : SeparatedStems where
  drumStemPath := (demucsTrackDir audioPath outputDir).join "drums.wav"
  melodyStemPath := (demucsTrackDir audioPath outputDir).join "no_drums.wav"

/-- Everything demucs creates in its output directory. -/
def demucsCreates (audioPath outputDir : PurePath) : List PurePath :=
  [outputDir.join "htdemucs", demucsTrackDir audioPath outputDir,
    (demucsStems audioPath outputDir).drumStemPath,
    (demucsStems audioPath outputDir).melodyStemPath]

/-- Both stems of the input `f` are where demucs writes them, and nothing that demucs creates
is the input. -/
structure StemsFound (workDir : PurePath) (f : String) : Prop where
  drums : (separateStems (workDir.join f) workDir).drumStemPath.resolve =
    (demucsStems (workDir.join f) workDir).drumStemPath.resolve
  melody : (separateStems (workDir.join f) workDir).melodyStemPath.resolve =
    (demucsStems (workDir.join f) workDir).melodyStemPath.resolve
  apart : ∀ created ∈ demucsCreates (workDir.join f) workDir,
    created.resolve ≠ (workDir.join f).resolve

section Locations

variable (workDir : PurePath) {f : String} (hf : Plain f)

include hf

theorem name_join : (workDir.join f).name = f := by
  simp [PurePath.join_plain workDir hf, PurePath.name]

theorem resolve_demucsTrackDir : (demucsTrackDir (workDir.join f) workDir).resolve =
    enter (workDir.resolve ++ ["htdemucs"]) (rsplitDot f) := by
  rw [demucsTrackDir, name_join workDir hf, resolve_join _ (notMem_rsplitDot hf.2.2.2),
    resolve_join_plain workDir (by decide)]

theorem resolve_demucsTwoStems : (demucsTwoStems (workDir.join f) workDir).resolve =
    enter (workDir.resolve ++ ["htdemucs"]) (workDir.join f).stem := by
  have hslash : '/' ∉ (workDir.join f).stem.toList := by
    rcases PurePath.stem_cases (workDir.join f) with h | h <;> rw [h, name_join workDir hf]
    · exact notMem_rsplitDot hf.2.2.2
    · exact hf.2.2.2
  rw [demucsTwoStems, resolve_join _ hslash, resolve_join_plain workDir (by decide)]

/-- The two directories are one place only when the two suffixes are the same. -/
theorem trackDir_eq_iff : (demucsTwoStems (workDir.join f) workDir).resolve =
    (demucsTrackDir (workDir.join f) workDir).resolve ↔ (workDir.join f).stem = rsplitDot f := by
  rw [resolve_demucsTwoStems workDir hf, resolve_demucsTrackDir workDir hf]
  rcases PurePath.stem_cases (workDir.join f) with h | h <;> rw [h, name_join workDir hf]
  · exact iff_of_true rfl rfl
  · exact enter_eq_iff _ hf

/-- Only the directory of the model can be the input. -/
theorem created_ne_input (hne : f ≠ "htdemucs") :
    ∀ created ∈ demucsCreates (workDir.join f) workDir,
      created.resolve ≠ (workDir.join f).resolve := by
  have htrack : (demucsTrackDir (workDir.join f) workDir).resolve ≠ workDir.resolve ++ [f] := by
    rw [resolve_demucsTrackDir workDir hf]
    unfold enter PurePath.push
    intro h
    split_ifs at h
    · exact hne (by simpa using h.symm)
    · simp at h
    · have hlen := congrArg List.length h
      simp at hlen
  have hstem (wav : String) (hwav : Plain wav) (hname : Plain (rsplitDot wav)) :
      ((demucsTrackDir (workDir.join f) workDir).join wav).resolve ≠ workDir.resolve ++ [f] := by
    rw [resolve_join_plain _ hwav, resolve_demucsTrackDir workDir hf]
    intro h
    obtain ⟨hdir, hlast⟩ := List.append_inj' h rfl
    obtain rfl : wav = f := by simpa using hlast
    rw [enter_plain _ hname] at hdir
    simp at hdir
  rw [resolve_join_plain workDir hf]
  intro created hcreated
  simp only [demucsCreates, demucsStems, List.mem_cons, List.not_mem_nil, or_false] at hcreated
  rcases hcreated with h | h | h | h <;> rw [h]
  · rw [resolve_join_plain workDir (by decide)]
    simpa using hne.symm
  · exact htrack
  · exact hstem "drums.wav" (by decide) (by decide)
  · exact hstem "no_drums.wav" (by decide) (by decide)

/-- Found stems are found because the two suffixes are the same. -/
theorem StemsFound.stem_eq (h : StemsFound workDir f) : (workDir.join f).stem = rsplitDot f := by
  have hdrums := h.drums
  simp only [separateStems, demucsStems] at hdrums
  rw [resolve_join_plain _ (by decide), resolve_join_plain _ (by decide)] at hdrums
  exact (trackDir_eq_iff workDir hf).mp (List.append_cancel_right hdrums)

/-- The stems are found unless the name is that of demucs' own directory, ends with a dot, or has
its only dot in front. -/
theorem stemsFound_iff : StemsFound workDir f ↔ f ≠ "htdemucs" ∧
    f.toList.getLast? ≠ some '.' ∧ ¬ ∃ ext, f.toList = '.' :: ext ∧ '.' ∉ ext := by
  have hstem := PurePath.stem_eq_rsplitDot_iff (p := workDir.join f)
  rw [name_join workDir hf] at hstem
  rw [← hstem]
  constructor
  · intro hfound
    refine ⟨?_, hfound.stem_eq workDir hf⟩
    rintro rfl
    exact hfound.apart (workDir.join "htdemucs") List.mem_cons_self rfl
  · rintro ⟨hne, hsame⟩
    have hdir := (trackDir_eq_iff workDir hf).mpr hsame
    have hwav (wav : String) (hslash : '/' ∉ wav.toList) :
        ((demucsTwoStems (workDir.join f) workDir).join wav).resolve =
          ((demucsTrackDir (workDir.join f) workDir).join wav).resolve := by
      rw [resolve_join _ hslash, resolve_join _ hslash, hdir]
    constructor
    case drums => exact hwav "drums.wav" (by decide)
    case melody => exact hwav "no_drums.wav" (by decide)
    case apart => exact created_ne_input workDir hf hne

end Locations

namespace Sample

def workDir : PurePath := ⟨"/", ["tmp", "mxxsicbeat-stems-00000000"]⟩

def upload (filename : String) : UploadFile := ⟨some filename, some "audio/mpeg", none, [7]⟩

end Sample

open Sample in
theorem stemsFound_iff_sample : StemsFound workDir "song.mp3" :=
  (stemsFound_iff workDir (by decide)).mpr ⟨by decide, by decide, by simp⟩

open Sample in
/-- Demucs writes to `htdemucs/song` and the code looks in `htdemucs/song.`. -/
theorem not_stemsFound_of_last_dot : validateRequest {} (upload "song.") none = .ok () ∧
    (upload "song.").originalFilename = "song." ∧ Plain "song." ∧
    ¬ StemsFound workDir "song." := by
  refine ⟨by decide, by decide, by decide, ?_⟩
  intro h
  exact absurd (h.stem_eq workDir (by decide)) (by decide +kernel)

end Maps
