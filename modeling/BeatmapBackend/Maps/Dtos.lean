import BeatmapBackend.Wire.Json

/-! The notes, the note groups and the documents built from them, with the shape each of
them has on the wire (`model_dump`) and the check each of them passes when it is read
back (`model_validate`). -/
namespace Maps
open Wire

inductive NoteType where
  | drum
  | melody
  deriving DecidableEq, Repr

def NoteType.value : NoteType → String
  | .drum => "drum"
  | .melody => "melody"

def NoteType.read {K : Type} (j : Json K) : Option NoteType :=
  match j.str? with
  | some "drum" => some .drum
  | some "melody" => some .melody
  | _ => none

@[simp] theorem NoteType.read_value {K : Type} (t : NoteType) :
    NoteType.read (.str t.value : Json K) = some t := by cases t <;> rfl

structure Note (K : Type) where
  time : ℤ
  lane : ℤ
  energy : K
  noteType : NoteType
  duration : Option ℤ := none
  combo : ℤ := 1
  deriving DecidableEq

structure NoteGroup (K : Type) where
  laneCount : ℤ
  notes : List (Note K)

/-- A note as the API returns it; `duration` and `combo` have no default here. -/
structure BeatmapNote (K : Type) where
  time : ℤ
  lane : ℤ
  energy : K
  combo : ℤ
  duration : Option ℤ
  noteType : NoteType

structure BeatmapNoteGroup (K : Type) where
  laneCount : ℤ
  notes : List (BeatmapNote K)

structure Beatmap (K : Type) where
  id : String
  title : String
  duration : ℤ
  bpm : Option ℤ
  notes : BeatmapNoteGroup K × BeatmapNoteGroup K
  createdAt : ℤ
  audioUrl : Option String

inductive JobStatus where
  | queued
  | processing
  | completed
  | failed
  deriving DecidableEq, Repr

def JobStatus.value : JobStatus → String
  | .queued => "queued"
  | .processing => "processing"
  | .completed => "completed"
  | .failed => "failed"

structure MapJobCreateResponse where
  jobId : String
  status : JobStatus
  deriving DecidableEq

structure MapJobOut where
  jobId : String
  status : JobStatus
  beatmapId : Option String
  error : Option String
  deriving DecidableEq

structure NewMapJob where
  originalFilename : String
  objectKey : Option String
  laneCount : ℤ
  deriving DecidableEq

structure NewBeatmap (K : Type) where
  jobId : String
  objectKey : String
  title : String
  duration : ℤ
  bpm : Option ℤ
  notes : NoteGroup K × NoteGroup K

def MapJobCreateResponse.modelDump {K : Type} (r : MapJobCreateResponse) : Json K :=
  .obj [("job_id", .str r.jobId), ("status", .str r.status.value)]

section

variable {K : Type}

def Note.modelDump (n : Note K) : Json K :=
  .obj [("time", .int n.time), ("lane", .int n.lane), ("energy", .float n.energy),
    ("note_type", .str n.noteType.value), ("duration", Json.ofOption .int n.duration),
    ("combo", .int n.combo)]

def NoteGroup.modelDump (g : NoteGroup K) : Json K :=
  .obj [("lane_count", .int g.laneCount), ("notes", .arr (g.notes.map Note.modelDump))]

def Note.shown (n : Note K) : BeatmapNote K where
  time := n.time
  lane := n.lane
  energy := n.energy
  combo := n.combo
  duration := n.duration
  noteType := n.noteType

def NoteGroup.shown (g : NoteGroup K) : BeatmapNoteGroup K :=
  ⟨g.laneCount, g.notes.map Note.shown⟩

variable [Ring K] [LinearOrder K] [FloorRing K]

def Note.modelValidate (j : Json K) : Option (Note K) := do
  return {
    time := ← j.field? "time" Json.int?
    lane := ← j.field? "lane" Json.int?
    energy := ← j.field? "energy" Json.float?
    noteType := ← j.field? "note_type" NoteType.read
    duration := ← j.fieldD? "duration" (Json.nullable? Json.int?) none
    combo := ← j.fieldD? "combo" Json.int? 1 }

def BeatmapNote.modelValidate (j : Json K) : Option (BeatmapNote K) := do
  return {
    time := ← j.field? "time" Json.int?
    lane := ← j.field? "lane" Json.int?
    energy := ← j.field? "energy" Json.float?
    combo := ← j.field? "combo" Json.int?
    duration := ← j.field? "duration" (Json.nullable? Json.int?)
    noteType := ← j.field? "note_type" NoteType.read }

def BeatmapNoteGroup.modelValidate (j : Json K) : Option (BeatmapNoteGroup K) := do
  return {
    laneCount := ← j.field? "lane_count" Json.int?
    notes := ← j.field? "notes" (Json.list? BeatmapNote.modelValidate) }

@[simp] theorem Note.modelValidate_modelDump (n : Note K) :
    Note.modelValidate n.modelDump = some n := by
  simp [Note.modelValidate, Note.modelDump, Json.field?_cons, Json.fieldD?_cons]

@[simp] theorem BeatmapNote.modelValidate_modelDump (n : Note K) :
    BeatmapNote.modelValidate n.modelDump = some n.shown := by
  simp [BeatmapNote.modelValidate, Note.modelDump, Json.field?_cons, Note.shown]

@[simp] theorem BeatmapNoteGroup.modelValidate_modelDump (g : NoteGroup K) :
    BeatmapNoteGroup.modelValidate g.modelDump = some g.shown := by
  have h : (.arr (g.notes.map Note.modelDump) : Json K).list? BeatmapNote.modelValidate =
      some (g.notes.map Note.shown) :=
    Json.list?_arr g.notes BeatmapNote.modelValidate_modelDump
  simp [BeatmapNoteGroup.modelValidate, NoteGroup.modelDump, Json.field?_cons, h,
    NoteGroup.shown]

end

end Maps
