import BeatmapBackend.Maps.Retries
import BeatmapBackend.Maps.Spacing

/-! The pipeline as one function of the upload. Four queues, their retries and whatever the
workers do at the same time leave a map job with the song that this function returns. -/
namespace Maps
open Effects Wire Collections

variable {K : Type} [Field K] [LinearOrder K] [FloorRing K]

/-- The kick job: the two files it downloads, and no notes where the drums are too quiet. -/
def kickNotes (lib : Librosa K) (filename : String) (laneCount : ℤ) (drumStem original : Bytes) :
    Except Exc (List (Note K)) := do
  let originalPath := scratch.join filename
  let files := (Files.empty.write kickDrumStemPath drumStem).write originalPath original
  let drums ← files.read kickDrumStemPath
  let mix ← files.read originalPath
  if hasSignificantDrumEnergy lib drums mix then
    buildDrumNotes (detectKickOnsets lib drums).1 (detectKickOnsets lib drums).2 laneCount
  else return []

def melodyNotes (lib : Librosa K) (bpm laneCount : ℤ) (melodyStem : Bytes) :
    Except Exc (List (Note K)) :=
  buildMelodyNotes lib (lib.load melodyStem none).1 (lib.load melodyStem none).2 bpm laneCount

/-- The song of the request `q` under the id `j`, one stage after the other. -/
def song (cfg : Config) (lib : Librosa K) (q : Request) (j : String) :
    Except Exc (NewBeatmap K) := do
  let audio := q.file.body
  let duration := trackDuration lib audio
  let bpm ← detectBpm lib audio
  let drumStem ← stemFile lib q.name audio "drums.wav"
  let melodyStem ← stemFile lib q.name audio "no_drums.wav"
  let kick ← kickNotes lib q.name (q.lanes cfg) drumStem audio
  let melody ← melodyNotes lib bpm (q.lanes cfg) melodyStem
  return BeatmapHandler.newBeatmap ⟨j, q.key cfg j, q.name, q.lanes cfg, duration, bpm⟩
    (⟨kick⟩, ⟨melody⟩)

section Stages

private theorem ok_bind {α β : Type} (a : α) (f : α → Except Exc β) : (.ok a >>= f) = f a := rfl

variable {cfg : Config} {lib : Librosa K} {q : Request}

theorem KickRun.eq_kickNotes {filename : String} {laneCount : ℤ} {drumStem original : Bytes}
    {notes : List (Note K)} (h : KickRun (· = lib) filename laneCount drumStem original notes) :
    kickNotes lib filename laneCount drumStem original = .ok notes := by
  obtain ⟨_, drums, mix, rfl, hdrums, hmix, hcase⟩ := h
  rw [kickNotes, hdrums, ok_bind, hmix, ok_bind]
  rcases hcase with ⟨hquiet, rfl⟩ | ⟨hloud, _, rfl, hnotes⟩
  · rw [if_neg (by simp [hquiet])]
    rfl
  · rw [if_pos hloud, hnotes]

/-- What the workers computed for one map job is what the stages compute in sequence. -/
theorem BeatmapMade.eq_song (hc : cfg.storage.Isolated) {s : Shared K} {b : NewBeatmap K}
    (h : BeatmapMade cfg (· = lib) s b) :
    ∃ q, Created s b.jobId q ∧ song cfg lib q b.jobId = .ok b := by
  obtain ⟨q, duration, bpm, kick, melody, hq, hm, hkick, hmelody, hb⟩ := h
  obtain ⟨_, _, audio, rfl, rfl, rfl, hbpm, haudio⟩ := hm
  obtain rfl := haudio hc
  obtain ⟨drumStem, original, hrun, hfiles⟩ := hkick
  obtain ⟨⟨_, audio, rfl, hdrum, haudio⟩, rfl⟩ := hfiles hc
  obtain rfl := haudio hc
  obtain ⟨melodyStem, _, _, rfl, rfl, hnotes, hsep⟩ := hmelody
  obtain ⟨_, audio, rfl, hstem, haudio⟩ := hsep hc
  obtain rfl := haudio hc
  refine ⟨q, hq, ?_⟩
  rw [song, hbpm, ok_bind, hdrum, ok_bind, hstem, ok_bind, hrun.eq_kickNotes, ok_bind,
    melodyNotes, hnotes, ok_bind, hb]
  rfl

end Stages

/-- In every reachable state the stored beatmaps of a map job are the song of its request, and a
completed job shows that song. A request whose song raises never gets a beatmap. -/
theorem songs_sequential {cfg : Config} {lib : Librosa K} (hc : cfg.storage.Isolated)
    {acts : List (Act K)} {w : World K} (hacts : ∀ a ∈ acts, a.Within (· = lib))
    (hrun : World.empty.run cfg acts = some w) :
    (∀ id d, w.shared.beatmaps.findOne id = some d → ∃ q b, Created w.shared d.jobId q ∧
      song cfg lib q d.jobId = .ok b ∧ d = b.document d.createdAt ∧
      getBeatmap cfg w.shared id.str = .ok (b.shown cfg id d.createdAt)) ∧
    ∀ j out, getJobStatus w.shared j = .ok out → out.status = .completed →
      ∃ q b id now, Created w.shared out.jobId q ∧ song cfg lib q out.jobId = .ok b ∧
        out.beatmapId = some id.str ∧
        getBeatmap cfg w.shared id.str = .ok (b.shown cfg id now) := by
  have hs := (worldLegit_empty.run hacts hrun).1.shared
  have hstored {id : ObjectId} {d : BeatmapDoc K} (hd : w.shared.beatmaps.findOne id = some d) :
      ∃ q b, Created w.shared d.jobId q ∧ song cfg lib q d.jobId = .ok b ∧
        d = b.document d.createdAt ∧
        getBeatmap cfg w.shared id.str = .ok (b.shown cfg id d.createdAt) := by
    obtain ⟨b, now, hmade, rfl⟩ := hs.beatmaps id d hd
    obtain ⟨q, hq, hsong⟩ := hmade.eq_song hc
    exact ⟨q, b, hq, hsong, rfl, getBeatmap_of_findOne hd⟩
  refine ⟨fun id d => hstored, fun j out hout hcompleted => ?_⟩
  obtain ⟨id, d, -, hd, rfl⟩ := getJobStatus_eq_ok hout
  have hsound := hs.docs id d hd
  obtain ⟨b, hb⟩ := Option.ne_none_iff_exists'.mp (hsound.completed hcompleted)
  obtain ⟨bid, doc, rfl, hdoc, hj⟩ := hsound.beatmap b hb
  obtain ⟨q, beatmap, hq, hsong, -, hget⟩ := hstored hdoc
  rw [hj] at hq hsong
  exact ⟨q, beatmap, bid, doc.createdAt, hq, hsong, hb, hget⟩

open Sample in
/-- Two songs with notes in both groups. -/
theorem songs_sequential_sample : ∃ w, World.empty.run {} struckTwice = some w ∧
    w.shared.beatmaps.entries.length = 2 ∧
    (∀ id d, w.shared.beatmaps.findOne id = some d → ∃ q b, Created w.shared d.jobId q ∧
      song {} struck q d.jobId = .ok b ∧ d = b.document d.createdAt ∧
      getBeatmap {} w.shared id.str = .ok (b.shown {} id d.createdAt)) ∧
    ∀ j out, getJobStatus w.shared j = .ok out → out.status = .completed →
      ∃ q b id now, Created w.shared out.jobId q ∧ song {} struck q out.jobId = .ok b ∧
        out.beatmapId = some id.str ∧
        getBeatmap {} w.shared id.str = .ok (b.shown {} id now) := by
  have hsome : (World.empty.run {} struckTwice).any fun w =>
      w.shared.beatmaps.entries.length = 2 := by decide +kernel
  obtain ⟨w, hw, hlength⟩ := (Option.any_eq_true _ _).mp hsome
  exact ⟨w, hw, of_decide_eq_true hlength,
    songs_sequential MapsStorageConfig.isolated_default (struckTwice_within rfl) hw⟩

end Maps
