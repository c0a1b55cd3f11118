import BeatmapBackend.Maps.Dtos
import BeatmapBackend.Collections.Documents

/-! The two collections of the database: object ids and their text, the documents, and the
update each repository method applies to one document. -/
namespace Maps
open Wire Collections

instance neZero_sixteen : NeZero 16 := ⟨by decide⟩

/-- Twelve bytes, written as twenty-four hexadecimal digits. -/
structure ObjectId where
  digits : List (Fin 16)
  length_digits : digits.length = 24
  deriving DecidableEq

def hexDigit (d : Fin 16) : Char := "0123456789abcdef".toList.getD d '0'

def hexValue (c : Char) : Option (Fin 16) :=
  match "0123456789abcdef".toList.findIdx? (· = c.toLower) with
  | none => none
  | some i => if h : i < 16 then some ⟨i, h⟩ else none

@[simp] theorem hexValue_hexDigit (d : Fin 16) : hexValue (hexDigit d) = some d := by
  revert d; decide

theorem hexDigit_ne_slash (d : Fin 16) : hexDigit d ≠ '/' := by
  revert d; decide

namespace ObjectId

def str (id : ObjectId) : String := String.ofList (id.digits.map hexDigit)

/-- `to_object_id`: `none` for a text that is no object id. -/
def parse (value : String) : Option ObjectId :=
  match value.toList.mapM hexValue with
  | none => none
  | some digits => if h : digits.length = 24 then some ⟨digits, h⟩ else none

@[simp] theorem parse_str (id : ObjectId) : parse id.str = some id := by
  have h : (id.digits.map hexDigit).mapM hexValue = some id.digits := by
    simpa using Json.mapM_map (f := fun d => d) id.digits hexValue_hexDigit
  simp [parse, str, h, id.length_digits]

theorem str_injective : Function.Injective str := by
  intro i j h
  have hp : some i = some j := by rw [← parse_str i, ← parse_str j, h]
  exact Option.some.inj hp

@[simp] theorem str_inj {i j : ObjectId} : i.str = j.str ↔ i = j := str_injective.eq_iff

theorem slash_not_mem_str (id : ObjectId) : '/' ∉ id.str.toList := by
  intro h
  simp only [str, String.toList_ofList, List.mem_map] at h
  obtain ⟨d, -, hd⟩ := h
  exact hexDigit_ne_slash d hd

end ObjectId

structure MapJobDoc where
  status : JobStatus
  originalFilename : String
  objectKey : Option String
  laneCount : ℤ
  beatmapId : Option String
  error : Option String
  deriving DecidableEq

structure BeatmapDoc (K : Type) where
  jobId : String
  objectKey : String
  title : String
  duration : ℤ
  bpm : Option ℤ
  notes : Json K
  createdAt : ℤ

def NewMapJob.document (job : NewMapJob) : MapJobDoc where
  status := .queued
  originalFilename := job.originalFilename
  objectKey := job.objectKey
  laneCount := job.laneCount
  beatmapId := none
  error := none

def NewBeatmap.document {K : Type} (beatmap : NewBeatmap K) (now : ℤ) : BeatmapDoc K where
  jobId := beatmap.jobId
  objectKey := beatmap.objectKey
  title := beatmap.title
  duration := beatmap.duration
  bpm := beatmap.bpm
  notes := .arr [beatmap.notes.1.modelDump, beatmap.notes.2.modelDump]
  createdAt := now

namespace MapJobDoc

def setObjectKey (key : String) (d : MapJobDoc) : MapJobDoc := { d with objectKey := some key }

def markProcessing (d : MapJobDoc) : MapJobDoc := { d with status := .processing }

def markCompleted (beatmapId : String) (d : MapJobDoc) : MapJobDoc :=
  { d with status := .completed, beatmapId := some beatmapId }

def markFailed (error : String) (d : MapJobDoc) : MapJobDoc :=
  { d with status := .failed, error := some error }

end MapJobDoc
end Maps
