import BeatmapBackend.Queues.Flows

/-! Settings: uploads, object keys and the retry policy of each queue. -/
namespace Maps
open Queues

structure UploadConfig where
  maxUploadSizeMb : ℤ := 30
  allowedAudioContentTypes : List String :=
    ["audio/mpeg", "audio/wav", "audio/x-wav", "audio/webm", "audio/ogg"]
  defaultLaneCount : ℤ := 2
  maxLaneCount : ℤ := 8

structure MapsStorageConfig where
  originalDir : String := "original"
  separatedDir : String := "separated"
  drumFilename : String := "drum.wav"
  melodyFilename : String := "melody.wav"
  publicBaseUrl : Option String := none

structure MapsJobConfig where
  attempts : ℤ := 3
  backoffType : String := "exponential"
  backoffDelayMs : ℤ := 5000

structure Config where
  uploads : UploadConfig := {}
  storage : MapsStorageConfig := {}
  stemSeparation : MapsJobConfig := {}
  kickOnset : MapsJobConfig := {}
  melodyExtraction : MapsJobConfig := {}
  beatmapOrchestration : MapsJobConfig := {}

namespace MapsStorageConfig

def originalKey (c : MapsStorageConfig) (jobId filename : String) : String :=
  jobId ++ "/" ++ c.originalDir ++ "/" ++ filename

def drumKey (c : MapsStorageConfig) (jobId : String) : String :=
  jobId ++ "/" ++ c.separatedDir ++ "/" ++ c.drumFilename

def melodyKey (c : MapsStorageConfig) (jobId : String) : String :=
  jobId ++ "/" ++ c.separatedDir ++ "/" ++ c.melodyFilename

def rstripSlash (s : String) : String :=
  String.ofList (s.toList.reverse.dropWhile (· = '/')).reverse

/-- `MapsStorage.audio_url`: no URL without a base URL or without a key. -/
def audioUrl (c : MapsStorageConfig) (objectKey : Option String) : Option String :=
  match c.publicBaseUrl, objectKey with
  | some base, some key =>
    if base = "" ∨ key = "" then none else some (rstripSlash base ++ "/" ++ key)
  | _, _ => none

end MapsStorageConfig

def MapsJobConfig.toBullmqOpts (c : MapsJobConfig) : JobOpts where
  attempts := some c.attempts
  backoff := some ⟨c.backoffType, c.backoffDelayMs⟩
  failParentOnFailure := false

end Maps
