import BeatmapBackend.Maps.NotesBounds
import BeatmapBackend.Maps.Spacing

/-! Every stored beatmap can be played: whatever was uploaded and whatever went wrong on the
way, its notes lie in the lanes that were asked for. -/
namespace Maps
open Effects Numerics

variable {K : Type} [Field K] [LinearOrder K] [FloorRing K]

structure Playable (laneCount : ℤ) (groups : NoteGroup K × NoteGroup K) : Prop where
  drumLanes : groups.1.laneCount = laneCount
  melodyLanes : groups.2.laneCount = laneCount
  drums : GroupSound laneCount IsDrum groups.1.notes
  melody : GroupSound laneCount IsMelody groups.2.notes

variable [IsStrictOrderedRing K] {cfg : Config}

theorem KickNotes.groupSound {q : Request} {notes : List (Note K)} (hlanes : 1 ≤ q.lanes cfg)
    (h : KickNotes cfg Librosa.Documented q notes) : GroupSound (q.lanes cfg) IsDrum notes := by
  obtain ⟨drumStem, original, ⟨lib, drums, mix, -, -, -, hrun⟩, -⟩ := h
  rcases hrun with ⟨-, rfl⟩ | ⟨-, lib', hlib', hbuild⟩
  · exact groupSound_nil
  · exact buildDrumNotes_sound hlib' hlanes hbuild

theorem MelodyNotes.groupSound {q : Request} {bpm : ℤ} {notes : List (Note K)}
    (hlanes : 1 ≤ q.lanes cfg) (h : MelodyNotes cfg Librosa.Documented q bpm notes) :
    GroupSound (q.lanes cfg) IsMelody notes := by
  obtain ⟨melodyStem, lib, lib', -, hlib', hbuild, -⟩ := h
  exact buildMelodyNotes_sound hlib' hlanes hbuild

/-- A stored beatmap has the lanes of the accepted request that created its job, and all its
notes are in range. -/
theorem beatmaps_playable {acts : List (Act K)} {w : World K}
    (hacts : ∀ a ∈ acts, a.Within Librosa.Documented)
    (hrun : World.empty.run cfg acts = some w) {id : ObjectId} {d : BeatmapDoc K}
    (hd : w.shared.beatmaps.findOne id = some d) :
    ∃ (q : Request) (b : NewBeatmap K) (now : ℤ), Created w.shared d.jobId q ∧
      validateRequest cfg q.file q.laneCount = .ok () ∧ d = b.document now ∧
      1 ≤ q.lanes cfg ∧ q.lanes cfg ≤ cfg.uploads.maxLaneCount ∧
      Playable (q.lanes cfg) b.notes := by
  have hs := (worldLegit_empty.run hacts hrun).1.shared
  obtain ⟨b, now, ⟨q, duration, bpm, kick, melody, hq, -, hkick, hmelody, hb⟩, rfl⟩ :=
    hs.beatmaps id d hd
  obtain ⟨hvalid, -⟩ := hs.created_doc _ q hq
  obtain ⟨hlanes, hmax⟩ := lanes_of_validateRequest hvalid
  refine ⟨q, b, now, hq, hvalid, rfl, hlanes, hmax, ?_⟩
  rw [hb]
  exact ⟨rfl, rfl, hkick.groupSound hlanes, hmelody.groupSound hlanes⟩

namespace Sample

def hasTwoNotes (d : BeatmapDoc ℚ) : Bool :=
  (toBeatmap {} (objectId 0) d).toOption.any fun shown =>
    shown.notes.1.notes.length = 2 && shown.notes.2.notes.length = 2

theorem hasTwoNotes_document {b : NewBeatmap ℚ} {now : ℤ} :
    hasTwoNotes (b.document now) = true ↔
      b.notes.1.notes.length = 2 ∧ b.notes.2.notes.length = 2 := by
  simp [hasTwoNotes, toBeatmap_document, Except.toOption, NewBeatmap.shown, NoteGroup.shown]

end Sample

open Sample in
/-- The stored beatmap of one song has two drums and two notes of melody. -/
theorem beatmaps_playable_sample : ∃ (w : World ℚ) (d : BeatmapDoc ℚ) (q : Request)
    (b : NewBeatmap ℚ) (now : ℤ), World.empty.run {} struckActs = some w ∧
      w.shared.beatmaps.findOne (objectId 2) = some d ∧ Created w.shared d.jobId q ∧
      validateRequest {} q.file q.laneCount = .ok () ∧ d = b.document now ∧
      b.notes.1.notes.length = 2 ∧ b.notes.2.notes.length = 2 ∧
      1 ≤ q.lanes {} ∧ q.lanes {} ≤ ({} : Config).uploads.maxLaneCount ∧
      Playable (q.lanes {}) b.notes := by
  have hrun : ((World.empty.run {} struckActs).bind fun w =>
      (w.shared.beatmaps.findOne (objectId 2)).filter hasTwoNotes).isSome = true := by
    decide +kernel
  obtain ⟨d, hd⟩ := Option.isSome_iff_exists.mp hrun
  obtain ⟨w, hw, hd⟩ := Option.bind_eq_some_iff.mp hd
  obtain ⟨hd, htwo⟩ := Option.filter_eq_some_iff.mp hd
  obtain ⟨q, b, now, hq, hvalid, rfl, hlanes, hmax, hplayable⟩ :=
    beatmaps_playable (struckSong_within struck_documented 0 0 1 2) hw hd
  obtain ⟨hdrums, hmelody⟩ := hasTwoNotes_document.mp htwo
  exact ⟨w, _, q, b, now, hw, hd, hq, hvalid, rfl, hdrums, hmelody, hlanes, hmax, hplayable⟩

end Maps
