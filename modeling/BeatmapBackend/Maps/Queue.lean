import BeatmapBackend.Maps.Dtos
import BeatmapBackend.Maps.Configs
import BeatmapBackend.Maps.Exceptions

/-! The four queues: names, the payload of each job, the results of the two child jobs,
and the specifications that are handed to the flow producer. -/
namespace Maps
open Wire Queues

def stemSeparationQueueName : String := "stem-separation"
def separateStemsJobName : String := "separate-stems"
def beatmapOrchestrationQueueName : String := "beatmap-orchestration"
def orchestrateBeatmapJobName : String := "orchestrate-beatmap"
def kickOnsetQueueName : String := "kick-onset-detection"
def detectKickOnsetsJobName : String := "detect-kick-onsets"
def melodyExtractionQueueName : String := "melody-extraction"
def extractMelodyJobName : String := "extract-melody"

structure SeparateStemsJobPayload where
  jobId : String
  objectKey : String
  originalFilename : String
  laneCount : ℤ

structure OrchestrateBeatmapJobPayload where
  jobId : String
  objectKey : String
  originalFilename : String
  laneCount : ℤ
  duration : ℤ
  bpm : ℤ

structure DetectKickOnsetsJobPayload where
  jobId : String
  laneCount : ℤ
  objectKey : String
  originalFilename : String

structure ExtractMelodyJobPayload where
  jobId : String
  laneCount : ℤ
  bpm : ℤ

structure KickDetectionResult (K : Type) where
  notes : List (Note K)

structure MelodyExtractionResult (K : Type) where
  notes : List (Note K)

section Dump

variable {K : Type}

def SeparateStemsJobPayload.modelDump (p : SeparateStemsJobPayload) : Json K :=
  .obj [("job_id", .str p.jobId), ("object_key", .str p.objectKey),
    ("original_filename", .str p.originalFilename), ("lane_count", .int p.laneCount)]

def OrchestrateBeatmapJobPayload.modelDump (p : OrchestrateBeatmapJobPayload) : Json K :=
  .obj [("job_id", .str p.jobId), ("object_key", .str p.objectKey),
    ("original_filename", .str p.originalFilename), ("lane_count", .int p.laneCount),
    ("duration", .int p.duration), ("bpm", .int p.bpm)]

def DetectKickOnsetsJobPayload.modelDump (p : DetectKickOnsetsJobPayload) : Json K :=
  .obj [("job_id", .str p.jobId), ("lane_count", .int p.laneCount),
    ("object_key", .str p.objectKey), ("original_filename", .str p.originalFilename)]

def ExtractMelodyJobPayload.modelDump (p : ExtractMelodyJobPayload) : Json K :=
  .obj [("job_id", .str p.jobId), ("lane_count", .int p.laneCount), ("bpm", .int p.bpm)]

def KickDetectionResult.modelDump (r : KickDetectionResult K) : Json K :=
  .obj [("notes", .arr (r.notes.map Note.modelDump))]

def MelodyExtractionResult.modelDump (r : MelodyExtractionResult K) : Json K :=
  .obj [("notes", .arr (r.notes.map Note.modelDump))]

variable [Ring K] [LinearOrder K] [FloorRing K]

/-- A value that fails its check raises; the message names the model, not the report. -/
def validated {α : Type} (model : String) (r : Option α) : Except Exc α :=
  match r with
  | some a => .ok a
  | none => .error ⟨.validationError, model⟩

def SeparateStemsJobPayload.modelValidate (j : Json K) : Except Exc SeparateStemsJobPayload :=
  validated "SeparateStemsJobPayload" do
    return {
      jobId := ← j.field? "job_id" Json.str?
      objectKey := ← j.field? "object_key" Json.str?
      originalFilename := ← j.field? "original_filename" Json.str?
      laneCount := ← j.field? "lane_count" Json.int? }

def OrchestrateBeatmapJobPayload.modelValidate (j : Json K) :
    Except Exc OrchestrateBeatmapJobPayload :=
  validated "OrchestrateBeatmapJobPayload" do
    return {
      jobId := ← j.field? "job_id" Json.str?
      objectKey := ← j.field? "object_key" Json.str?
      originalFilename := ← j.field? "original_filename" Json.str?
      laneCount := ← j.field? "lane_count" Json.int?
      duration := ← j.field? "duration" Json.int?
      bpm := ← j.field? "bpm" Json.int? }

def DetectKickOnsetsJobPayload.modelValidate (j : Json K) :
    Except Exc DetectKickOnsetsJobPayload :=
  validated "DetectKickOnsetsJobPayload" do
    return {
      jobId := ← j.field? "job_id" Json.str?
      laneCount := ← j.field? "lane_count" Json.int?
      objectKey := ← j.field? "object_key" Json.str?
      originalFilename := ← j.field? "original_filename" Json.str? }

def ExtractMelodyJobPayload.modelValidate (j : Json K) : Except Exc ExtractMelodyJobPayload :=
  validated "ExtractMelodyJobPayload" do
    return {
      jobId := ← j.field? "job_id" Json.str?
      laneCount := ← j.field? "lane_count" Json.int?
      bpm := ← j.field? "bpm" Json.int? }

def KickDetectionResult.modelValidate (j : Json K) : Except Exc (KickDetectionResult K) :=
  validated "KickDetectionResult" do
    return { notes := ← j.field? "notes" (Json.list? Note.modelValidate) }

def MelodyExtractionResult.modelValidate (j : Json K) : Except Exc (MelodyExtractionResult K) :=
  validated "MelodyExtractionResult" do
    return { notes := ← j.field? "notes" (Json.list? Note.modelValidate) }

@[simp] theorem SeparateStemsJobPayload.modelValidate_modelDump (p : SeparateStemsJobPayload) :
    modelValidate (p.modelDump : Json K) = .ok p := by
  simp [modelValidate, modelDump, validated, Json.field?_cons]

@[simp] theorem OrchestrateBeatmapJobPayload.modelValidate_modelDump
    (p : OrchestrateBeatmapJobPayload) : modelValidate (p.modelDump : Json K) = .ok p := by
  simp [modelValidate, modelDump, validated, Json.field?_cons]

@[simp] theorem DetectKickOnsetsJobPayload.modelValidate_modelDump
    (p : DetectKickOnsetsJobPayload) : modelValidate (p.modelDump : Json K) = .ok p := by
  simp [modelValidate, modelDump, validated, Json.field?_cons]

@[simp] theorem ExtractMelodyJobPayload.modelValidate_modelDump (p : ExtractMelodyJobPayload) :
    modelValidate (p.modelDump : Json K) = .ok p := by
  simp [modelValidate, modelDump, validated, Json.field?_cons]

private theorem list?_notes (notes : List (Note K)) :
    (.arr (notes.map Note.modelDump) : Json K).list? Note.modelValidate = some notes := by
  simpa using Json.list?_arr (f := fun n => n) notes Note.modelValidate_modelDump

@[simp] theorem KickDetectionResult.modelValidate_modelDump (r : KickDetectionResult K) :
    modelValidate r.modelDump = .ok r := by
  simp [modelValidate, modelDump, validated, Json.field?_cons, list?_notes]

@[simp] theorem MelodyExtractionResult.modelValidate_modelDump (r : MelodyExtractionResult K) :
    modelValidate r.modelDump = .ok r := by
  simp [modelValidate, modelDump, validated, Json.field?_cons, list?_notes]

end Dump

section Build

variable {K : Type}

def buildSeparateStemsJob (cfg : Config) (jobId objectKey originalFilename : String)
    (laneCount : ℤ) : FlowSpec (Json K) where
  root := {
    name := separateStemsJobName
    queueName := stemSeparationQueueName
    data := SeparateStemsJobPayload.modelDump ⟨jobId, objectKey, originalFilename, laneCount⟩
    opts := cfg.stemSeparation.toBullmqOpts }
  children := []

def buildGenerateBeatmapFlow (cfg : Config) (jobId objectKey originalFilename : String)
    (laneCount duration bpm : ℤ) : FlowSpec (Json K) where
  root := {
    name := orchestrateBeatmapJobName
    queueName := beatmapOrchestrationQueueName
    data := OrchestrateBeatmapJobPayload.modelDump
      ⟨jobId, objectKey, originalFilename, laneCount, duration, bpm⟩
    opts := cfg.beatmapOrchestration.toBullmqOpts }
  children := [
    { name := detectKickOnsetsJobName
      queueName := kickOnsetQueueName
      data := DetectKickOnsetsJobPayload.modelDump
        ⟨jobId, laneCount, objectKey, originalFilename⟩
      opts := { cfg.kickOnset.toBullmqOpts with failParentOnFailure := true } },
    { name := extractMelodyJobName
      queueName := melodyExtractionQueueName
      data := ExtractMelodyJobPayload.modelDump ⟨jobId, laneCount, bpm⟩
      opts := { cfg.melodyExtraction.toBullmqOpts with failParentOnFailure := true } }]

end Build

end Maps
