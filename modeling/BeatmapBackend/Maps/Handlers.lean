import BeatmapBackend.Maps.Operations
import Mathlib.Data.List.Infix

/-! The four queue workers as programs. A handler processes its payload and, when that
raises on the final attempt, marks the map job failed before it raises again. -/
namespace Maps
open Effects Wire Queues Paths Program

variable {K : Type}

def isFinalAttempt (job : JobView K) : Bool :=
  decide (job.attempts.getD 1 ≤ (job.attemptsMade : ℤ) + 1)

/-- The `job_id` an error is reported under; `ObjectId` accepts a string or `None`. -/
def reportedJobId (data : Json K) : Except Exc (Option String) :=
  match data.get? "job_id" with
  | none => .ok none
  | some .null => .ok none
  | some (.str jobId) => .ok (some jobId)
  | some _ => .error ⟨.other "TypeError", "id must be an instance of (bytes, str, ObjectId)"⟩

/-! `MapJobService`. -/

def markProcessing (jobId : String) : Prog K Unit := perform (Eff.markJobProcessing jobId)

def markFailed (jobId : Option String) (error : String) : Prog K Unit :=
  perform (Eff.markJobFailed jobId error)

def finalizeBeatmap (beatmap : NewBeatmap K) : Prog K String := do
  let beatmapId ← perform (Eff.insertBeatmap beatmap)
  let _ ← perform (Eff.markJobCompleted beatmap.jobId beatmapId)
  return beatmapId

/-- `__call__`, the same in the four handlers. -/
def handled (job : JobView K) (process : Prog K (Json K)) : Prog K (Json K) :=
  process.recover fun exc =>
    if isFinalAttempt job then do
      let jobId ← lift (reportedJobId job.data)
      let _ ← markFailed jobId exc.str
      raise exc
    else raise exc

section Handled

variable {job : JobView K} {process : Prog K (Json K)} {e : Eff K}

/-- Reporting a failure performs nothing but `mark_failed`. -/
theorem performs_handled (he : ∀ j x, e ≠ .markJobFailed j x) :
    (handled job process).Performs e ↔ process.Performs e := by
  apply performs_recover
  intro x
  split
  · simp [performs_lift_bind, markFailed, performs_perform_bind, raise, (he _ _).symm]
  · simp [raise]

theorem performsWhen_handled {ok : (e : Eff K) → Except Exc (Ans e) → Prop}
    (he : ∀ j x, e ≠ .markJobFailed j x) :
    (handled job process).PerformsWhen ok e ↔ process.PerformsWhen ok e := by
  apply performsWhen_recover
  intro x
  split
  · simp [performsWhen_lift_bind, markFailed, performsWhen_perform_bind, raise, (he _ _).symm]
  · simp [raise]

end Handled

structure Files where
  written : List (PurePath × Bytes)

namespace Files

def empty : Files := ⟨[]⟩

def write (fs : Files) (path : PurePath) (body : Bytes) : Files := ⟨(path, body) :: fs.written⟩

def read (fs : Files) (path : PurePath) : Except Exc Bytes :=
  match fs.written.lookup path with
  | some body => .ok body
  | none => .error ⟨.fileNotFoundError, "[Errno 2] No such file or directory: '" ++
      path.root ++ "/".intercalate path.parts ++ "'"⟩

@[simp] theorem read_write_self (fs : Files) (path : PurePath) (body : Bytes) :
    (fs.write path body).read path = .ok body := by
  simp [read, write]

end Files

def scratch : PurePath := ⟨"", []⟩

section Stems

/-- Where demucs writes the two stems of a track. -/
def demucsDir (audioPath : PurePath) : PurePath :=
  (scratch.join "htdemucs").join (rsplitDot audioPath.name)

/-- Where the handler looks for them: `output_dir / "htdemucs" / audio_path.stem`. -/
def stemDir (audioPath : PurePath) : PurePath :=
  (scratch.join "htdemucs").join audioPath.stem

def Files.separate (fs : Files) (audioPath : PurePath) (stems : Bytes × Bytes) : Files :=
  (fs.write ((demucsDir audioPath).join "drums.wav") stems.1).write
    ((demucsDir audioPath).join "no_drums.wav") stems.2

def stemAudioPath (payload : SeparateStemsJobPayload) : PurePath :=
  scratch.join payload.originalFilename

variable [Ring K] [LinearOrder K] [FloorRing K]

def StemHandler.process (cfg : Config) (data : Json K) : Prog K (Json K) := do
  let payload ← lift (SeparateStemsJobPayload.modelValidate data)
  markProcessing payload.jobId
  let _ ← perform Eff.temporaryDirectory
  let audioPath := stemAudioPath payload
  let downloaded ← perform (Eff.download payload.objectKey audioPath)
  let files := Files.empty.write audioPath downloaded
  let audio ← lift (files.read audioPath)
  let duration ← perform (Eff.trackDuration audio)
  let bpm ← perform (Eff.detectBpm audio)
  let stems ← perform (Eff.demucs audio)
  let files := files.separate audioPath stems
  let drumStem ← lift (files.read ((stemDir audioPath).join "drums.wav"))
  let _ ← perform (Eff.upload (cfg.storage.drumKey payload.jobId) drumStem)
  let melodyStem ← lift (files.read ((stemDir audioPath).join "no_drums.wav"))
  let _ ← perform (Eff.upload (cfg.storage.melodyKey payload.jobId) melodyStem)
  let _ ← perform (Eff.addFlow (buildGenerateBeatmapFlow cfg payload.jobId payload.objectKey
    payload.originalFilename payload.laneCount duration bpm))
  return .obj [("job_id", .str payload.jobId)]

def StemHandler.call (cfg : Config) (job : JobView K) : Prog K (Json K) :=
  handled job (StemHandler.process cfg job.data)

end Stems

section Notes

variable [Field K] [LinearOrder K] [FloorRing K]

def kickDrumStemPath : PurePath := scratch.join "drums.wav"

def kickOriginalPath (payload : DetectKickOnsetsJobPayload) : PurePath :=
  scratch.join payload.originalFilename

def KickHandler.process (cfg : Config) (data : Json K) : Prog K (Json K) := do
  let payload ← lift (DetectKickOnsetsJobPayload.modelValidate data)
  let _ ← perform Eff.temporaryDirectory
  let drumStemPath := kickDrumStemPath
  let originalPath := kickOriginalPath payload
  let drumStem ← perform (Eff.download (cfg.storage.drumKey payload.jobId) drumStemPath)
  let original ← perform
    (Eff.download (cfg.storage.originalKey payload.jobId payload.originalFilename) originalPath)
  let files := (Files.empty.write drumStemPath drumStem).write originalPath original
  let drums ← lift (files.read drumStemPath)
  let mix ← lift (files.read originalPath)
  let significant ← perform (Eff.hasSignificantDrumEnergy drums mix)
  if significant then do
    let detected ← perform (Eff.detectKickOnsets drums)
    let notes ← lift (buildDrumNotes detected.1 detected.2 payload.laneCount)
    return KickDetectionResult.modelDump ⟨notes⟩
  else return KickDetectionResult.modelDump ⟨[]⟩

def KickHandler.call (cfg : Config) (job : JobView K) : Prog K (Json K) :=
  handled job (KickHandler.process cfg job.data)

def MelodyHandler.process (cfg : Config) (data : Json K) : Prog K (Json K) := do
  let payload ← lift (ExtractMelodyJobPayload.modelValidate data)
  let _ ← perform Eff.temporaryDirectory
  let melodyStemPath := scratch.join "melody.wav"
  let melodyStem ← perform (Eff.download (cfg.storage.melodyKey payload.jobId) melodyStemPath)
  let audio ← lift ((Files.empty.write melodyStemPath melodyStem).read melodyStemPath)
  let loaded ← perform (Eff.load audio)
  let notes ← perform
    (Eff.buildMelodyNotes loaded.1 loaded.2 payload.bpm payload.laneCount)
  return MelodyExtractionResult.modelDump ⟨notes⟩

def MelodyHandler.call (cfg : Config) (job : JobView K) : Prog K (Json K) :=
  handled job (MelodyHandler.process cfg job.data)

end Notes

section Orchestration

def containsName (queueName key : String) : Bool := decide (queueName.toList <:+: key.toList)

/-- The value under the first key that contains the queue's name. -/
def childResult (children : List (String × Json K)) (queueName : String) :
    Except Exc (Json K) :=
  match children.find? fun child => containsName queueName child.1 with
  | some child => .ok child.2
  | none => .error ⟨.keyError, "no child result found for queue '" ++ queueName ++ "'"⟩

def generateNotes (laneCount : ℤ) (kick : KickDetectionResult K)
    (melody : MelodyExtractionResult K) : NoteGroup K × NoteGroup K :=
  (⟨laneCount, kick.notes⟩, ⟨laneCount, melody.notes⟩)

variable [Ring K] [LinearOrder K] [FloorRing K]

def childResults (children : List (String × Json K)) :
    Except Exc (KickDetectionResult K × MelodyExtractionResult K) := do
  let kick ← KickDetectionResult.modelValidate (← childResult children kickOnsetQueueName)
  let melody ←
    MelodyExtractionResult.modelValidate (← childResult children melodyExtractionQueueName)
  return (kick, melody)

def BeatmapHandler.newBeatmap (payload : OrchestrateBeatmapJobPayload)
    (results : KickDetectionResult K × MelodyExtractionResult K) : NewBeatmap K where
  jobId := payload.jobId
  objectKey := payload.objectKey
  title := payload.originalFilename
  duration := payload.duration
  bpm := some payload.bpm
  notes := generateNotes payload.laneCount results.1 results.2

def BeatmapHandler.process (ref : JobRef) (data : Json K) : Prog K (Json K) := do
  let payload ← lift (OrchestrateBeatmapJobPayload.modelValidate data)
  let children ← perform (Eff.getChildrenValues ref)
  let results ← lift (childResults children)
  let beatmapId ← finalizeBeatmap (BeatmapHandler.newBeatmap payload results)
  return .obj [("beatmap_id", .str beatmapId)]

def BeatmapHandler.call (job : JobView K) : Prog K (Json K) :=
  handled job (BeatmapHandler.process job.ref job.data)

end Orchestration

def handlerOf [Field K] [LinearOrder K] [FloorRing K] (cfg : Config) (job : JobView K) :
    Option (Prog K (Json K)) :=
  if job.queueName = stemSeparationQueueName then some (StemHandler.call cfg job)
  else if job.queueName = kickOnsetQueueName then some (KickHandler.call cfg job)
  else if job.queueName = melodyExtractionQueueName then some (MelodyHandler.call cfg job)
  else if job.queueName = beatmapOrchestrationQueueName then some (BeatmapHandler.call job)
  else none

end Maps
