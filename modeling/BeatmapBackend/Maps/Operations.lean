import BeatmapBackend.Effects.Program
import BeatmapBackend.Maps.NotesService
import BeatmapBackend.Maps.Queue
import BeatmapBackend.Maps.Repository
import BeatmapBackend.Paths.PurePosix

/-! What the programs of the pipeline can do to the shared state: the two collections, the
object storage and the queues, together with every call that may fail on its own. Each
operation that is performed is recorded, whether it took effect or not. -/
namespace Maps
open Effects Wire Collections Queues Paths Numerics

structure UploadFile where
  filename : Option String
  contentType : Option String
  size : Option ℤ
  body : Bytes
  deriving DecidableEq

/-- A queue job by its flow and its place in it: the root, or a child. -/
structure JobRef where
  flow : ℕ
  child : Option ℕ
  deriving DecidableEq

structure JobView (K : Type) where
  ref : JobRef
  queueName : String
  data : Json K
  attempts : Option ℤ
  attemptsMade : ℕ

inductive Task (K : Type) where
  | api (file : UploadFile) (laneCount : Option ℤ)
  | worker (job : JobView K)

inductive Eff (K : Type) where
  | readUpload (file : UploadFile)
  | insertMapJob (job : NewMapJob)
  | setJobObjectKey (jobId objectKey : String)
  | markJobProcessing (jobId : String)
  | markJobCompleted (jobId beatmapId : String)
  | markJobFailed (jobId : Option String) (error : String)
  | insertBeatmap (beatmap : NewBeatmap K)
  | upload (key : String) (body : Bytes)
  | download (key : String) (destination : PurePath)
  | addFlow (flow : FlowSpec (Json K))
  | getChildrenValues (ref : JobRef)
  | temporaryDirectory
  | trackDuration (audio : Bytes)
  | detectBpm (audio : Bytes)
  | demucs (audio : Bytes)
  | hasSignificantDrumEnergy (drumStem original : Bytes)
  | detectKickOnsets (drums : Bytes)
  | load (audio : Bytes)
  | buildMelodyNotes (y : List K) (sr : ℕ) (bpm laneCount : ℤ)

variable {K : Type}

@[reducible] def Ans : Eff K → Type
  | .readUpload _ => Bytes
  | .insertMapJob _ => String
  | .insertBeatmap _ => String
  | .download _ _ => Bytes
  | .getChildrenValues _ => List (String × Json K)
  | .trackDuration _ => ℤ
  | .detectBpm _ => ℤ
  | .demucs _ => Bytes × Bytes
  | .hasSignificantDrumEnergy _ _ => Bool
  | .detectKickOnsets _ => List K × KickOnseter K
  | .load _ => List K × ℕ
  | .buildMelodyNotes _ _ _ _ => List (Note K)
  | _ => Unit

abbrev Prog (K α : Type) := Program (Eff K) Ans Exc α

structure Event (K : Type) where
  actor : ℕ
  task : Task K
  eff : Eff K
  reply : Reply (Ans eff) Exc

abbrev PipelineFlow (K : Type) := Flow ℕ (Json K) (Json K)

structure Shared (K : Type) where
  mapJobs : Collection ObjectId MapJobDoc
  beatmaps : Collection ObjectId (BeatmapDoc K)
  objects : String → Option Bytes
  flows : List (PipelineFlow K)
  history : List (Event K)

def Shared.empty : Shared K := ⟨.empty, .empty, fun _ => none, [], []⟩

/-- What the environment chooses when an operation takes effect. -/
structure Env (K : Type) where
  newId : ObjectId
  now : ℤ
  jobIds : ℕ → JobId
  lib : Librosa K
  childOrder : List ℕ

inductive Outcome (K : Type) where
  | done (env : Env K)
  | raised (x : Exc)
  | lost (env : Env K) (x : Exc)

/-- The results of the completed children under their keys in Redis. -/
def childrenValues (F : PipelineFlow K) : List (String × Json K) :=
  F.children.filterMap fun job => match job.state with
    | .completed value => some ("bull:" ++ job.spec.queueName ++ ":" ++ job.id.text, value)
    | _ => none

namespace Shared

/-- `update_one({"_id": ObjectId(job_id)}, ...)`; a text that is no object id raises. -/
def updateJob (s : Shared K) (jobId : String) (f : MapJobDoc → MapJobDoc) :
    Option (Unit × Shared K) :=
  (ObjectId.parse jobId).map fun id => ((), { s with mapJobs := s.mapJobs.updateOne id f })

def record (s : Shared K) (event : Event K) : Shared K :=
  { s with history := s.history ++ [event] }

end Shared

variable [Field K] [LinearOrder K] [FloorRing K]

/-- The effect and the answer of an operation, `none` when it can only raise. `ObjectId(None)` is
a new id, which no document has. -/
def exec (env : Env K) (s : Shared K) : (e : Eff K) → Option (Ans e × Shared K)
  | .readUpload file => some (file.body, s)
  | .insertMapJob job => (s.mapJobs.insertOne env.newId job.document).map fun c =>
      (env.newId.str, { s with mapJobs := c })
  | .setJobObjectKey jobId key => s.updateJob jobId (.setObjectKey key)
  | .markJobProcessing jobId => s.updateJob jobId .markProcessing
  | .markJobCompleted jobId beatmapId => s.updateJob jobId (.markCompleted beatmapId)
  | .markJobFailed none _ => some ((), s)
  | .markJobFailed (some jobId) error => s.updateJob jobId (.markFailed error)
  | .insertBeatmap beatmap =>
      (s.beatmaps.insertOne env.newId (beatmap.document env.now)).map fun c =>
        (env.newId.str, { s with beatmaps := c })
  | .upload key body =>
      some ((), { s with objects := fun k => if k = key then some body else s.objects k })
  | .download key _ => (s.objects key).map fun body => (body, s)
  | .addFlow flow => some ((), { s with flows := s.flows ++ [.add env.jobIds flow] })
  | .getChildrenValues ref => (s.flows[ref.flow]?).bind fun F =>
      let values := childrenValues F
      if env.childOrder.Perm (List.range values.length) then
        some (env.childOrder.filterMap (values[·]?), s)
      else none
  | .temporaryDirectory => some ((), s)
  | .trackDuration audio => some (Maps.trackDuration env.lib audio, s)
  | .detectBpm audio => (Maps.detectBpm env.lib audio).toOption.map fun bpm => (bpm, s)
  | .demucs audio => some (env.lib.demucs audio, s)
  | .hasSignificantDrumEnergy drumStem original =>
      some (Maps.hasSignificantDrumEnergy env.lib drumStem original, s)
  | .detectKickOnsets drums => some (Maps.detectKickOnsets env.lib drums, s)
  | .load audio => some (env.lib.load audio none, s)
  | .buildMelodyNotes y sr bpm laneCount =>
      (Maps.buildMelodyNotes env.lib y sr bpm laneCount).toOption.map fun notes => (notes, s)

def Shared.perform (s : Shared K) (actor : ℕ) (task : Task K) (e : Eff K) :
    Outcome K → Option (Reply (Ans e) Exc × Shared K)
  | .done env => (exec env s e).map fun (a, t) =>
      (.done a, t.record ⟨actor, task, e, .done a⟩)
  | .raised x => some (.raised x, s.record ⟨actor, task, e, .raised x⟩)
  | .lost env x => (exec env s e).map fun (a, t) =>
      (.lost a x, t.record ⟨actor, task, e, .lost a x⟩)

/-- Thread `actor` runs alone: an operation with a fault raises, the others take effect. -/
def Shared.alone (actor : ℕ) (task : Task K) (env : Env K) (faults : Eff K → Option Exc)
    (e : Eff K) (s : Shared K) : Option (Reply (Ans e) Exc × Shared K) :=
  match faults e with
  | some x => s.perform actor task e (.raised x)
  | none => s.perform actor task e (.done env)

section Alone

variable {actor : ℕ} {task : Task K} {env : Env K} {faults : Eff K → Option Exc} {e : Eff K}
  {s t : Shared K}

theorem Shared.alone_done {a : Ans e} (hf : faults e = none) (h : exec env s e = some (a, t)) :
    Shared.alone actor task env faults e s =
      some (.done a, t.record ⟨actor, task, e, .done a⟩) := by
  simp only [alone, hf, perform, h, Option.map_some]

theorem Shared.alone_raised {x : Exc} (hf : faults e = some x) :
    Shared.alone actor task env faults e s =
      some (.raised x, s.record ⟨actor, task, e, .raised x⟩) := by
  simp only [alone, hf, perform]

end Alone

end Maps
