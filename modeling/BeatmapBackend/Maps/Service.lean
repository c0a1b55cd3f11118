import BeatmapBackend.Maps.Operations

/-! The API: an upload creates a map job and hands it to the stem separation queue; job
status and beatmaps are read back from the database. -/
namespace Maps
open Effects Wire Program Collections

variable {K : Type}

def validateFileSize (cfg : Config) (file : UploadFile) : Except Exc Unit :=
  match file.size with
  | some size =>
    if cfg.uploads.maxUploadSizeMb * 1024 * 1024 < size then
      .error (appError .audioTooLarge
        ("audio file exceeds the " ++ toString cfg.uploads.maxUploadSizeMb ++ "MB limit"))
    else .ok ()
  | none => .ok ()

/-- `file.filename or "audio"`. -/
def UploadFile.originalFilename (file : UploadFile) : String :=
  match file.filename with
  | some name => if name = "" then "audio" else name
  | none => "audio"

def resolvedLaneCount (cfg : Config) (laneCount : Option ℤ) : ℤ :=
  laneCount.getD cfg.uploads.defaultLaneCount

/-- The checks `create_map_job` makes before it reads the file. -/
def validateRequest (cfg : Config) (file : UploadFile) (laneCount : Option ℤ) :
    Except Exc Unit :=
  let contentType := file.contentType.getD ""
  let resolved := resolvedLaneCount cfg laneCount
  if contentType ∉ cfg.uploads.allowedAudioContentTypes then
    .error (appError .unsupportedAudioType ("unsupported content type '" ++ contentType ++
      "', expected one of " ++ pyReprList cfg.uploads.allowedAudioContentTypes))
  else if ¬ (1 ≤ resolved ∧ resolved ≤ cfg.uploads.maxLaneCount) then
    .error (appError .invalidLaneCount ("lane_count must be between 1 and " ++
      toString cfg.uploads.maxLaneCount ++ ", got " ++ toString resolved))
  else .ok ()

theorem lanes_of_validateRequest {cfg : Config} {file : UploadFile} {laneCount : Option ℤ}
    (h : validateRequest cfg file laneCount = .ok ()) : 1 ≤ resolvedLaneCount cfg laneCount ∧
      resolvedLaneCount cfg laneCount ≤ cfg.uploads.maxLaneCount := by
  unfold validateRequest at h
  dsimp only at h
  split at h
  · cases h
  · split at h
    · cases h
    next hlanes => exact not_not.mp hlanes

def createMapJob (cfg : Config) (file : UploadFile) (laneCount : Option ℤ) :
    Prog K MapJobCreateResponse := do
  lift (validateRequest cfg file laneCount)
  let resolved := resolvedLaneCount cfg laneCount
  let audioBytes ← perform (Eff.readUpload file)
  let originalFilename := file.originalFilename
  let jobId ← perform (Eff.insertMapJob ⟨originalFilename, none, resolved⟩)
  let objectKey := cfg.storage.originalKey jobId originalFilename
  let _ ← perform (Eff.setJobObjectKey jobId objectKey)
  let _ ← perform (Eff.upload objectKey audioBytes)
  let _ ← perform
    (Eff.addFlow (buildSeparateStemsJob cfg jobId objectKey originalFilename resolved))
  return ⟨jobId, .queued⟩

def createMap (cfg : Config) (file : UploadFile) (laneCount : Option ℤ) : Prog K (Json K) := do
  lift (validateFileSize cfg file)
  let response ← createMapJob cfg file laneCount
  return response.modelDump

section Read

def findMapJob (s : Shared K) (jobId : String) : Option (ObjectId × MapJobDoc) := do
  let id ← ObjectId.parse jobId
  return (id, ← s.mapJobs.findOne id)

def getJobStatus (s : Shared K) (jobId : String) : Except Exc MapJobOut :=
  match findMapJob s jobId with
  | none => .error (appError .mapJobNotFound ("no map job with id '" ++ jobId ++ "'"))
  | some (id, job) => .ok ⟨id.str, job.status, job.beatmapId, job.error⟩

theorem getJobStatus_eq_ok {s : Shared K} {jobId : String} {out : MapJobOut}
    (h : getJobStatus s jobId = .ok out) : ∃ id d, ObjectId.parse jobId = some id ∧
      s.mapJobs.findOne id = some d ∧ out = ⟨id.str, d.status, d.beatmapId, d.error⟩ := by
  unfold getJobStatus at h
  split at h
  next => cases h
  next id d hfind =>
    obtain ⟨id', hid, hd⟩ := Option.bind_eq_some_iff.mp hfind
    obtain ⟨d', hd', he⟩ := Option.bind_eq_some_iff.mp hd
    obtain ⟨rfl, rfl⟩ := Prod.mk.inj (Option.some.inj he)
    exact ⟨id', d', hid, hd', (Except.ok.inj h).symm⟩

/-- What `find().sort("created_at", -1)` may return. -/
def Shared.Lists (s : Shared K) (found : List (ObjectId × BeatmapDoc K)) : Prop :=
  s.beatmaps.SortedBy (fun d d' => d'.createdAt ≤ d.createdAt) found

theorem Shared.exists_lists (s : Shared K) : ∃ found, s.Lists found := by
  have : Std.Total fun d d' : BeatmapDoc K => d'.createdAt ≤ d.createdAt :=
    ⟨fun d d' => le_total d'.createdAt d.createdAt⟩
  have : IsTrans (BeatmapDoc K) fun d d' => d'.createdAt ≤ d.createdAt :=
    ⟨fun _ _ _ h h' => le_trans h' h⟩
  exact s.beatmaps.exists_sortedBy _

variable [Ring K] [LinearOrder K] [FloorRing K]

/-- `_to_beatmap`: the stored notes must be exactly two groups. -/
def toBeatmap (cfg : Config) (id : ObjectId) (d : BeatmapDoc K) : Except Exc (Beatmap K) := do
  let notes ← validated "Beatmap" (d.notes.pair? BeatmapNoteGroup.modelValidate)
  return {
    id := id.str
    title := d.title
    duration := d.duration
    bpm := d.bpm
    notes := notes
    createdAt := d.createdAt
    audioUrl := cfg.storage.audioUrl (some d.objectKey) }

def getBeatmap (cfg : Config) (s : Shared K) (beatmapId : String) : Except Exc (Beatmap K) :=
  match (ObjectId.parse beatmapId).bind fun id => (s.beatmaps.findOne id).map (id, ·) with
  | none => .error (appError .beatmapNotFound ("no beatmap with id '" ++ beatmapId ++ "'"))
  | some (id, d) => toBeatmap cfg id d

/-- `list_beatmaps`, of what the database found. -/
def listBeatmaps (cfg : Config) (found : List (ObjectId × BeatmapDoc K)) :
    Except Exc (List (Beatmap K)) :=
  found.mapM fun (id, d) => toBeatmap cfg id d

def NewBeatmap.shown (cfg : Config) (id : ObjectId) (now : ℤ) (b : NewBeatmap K) : Beatmap K where
  id := id.str
  title := b.title
  duration := b.duration
  bpm := b.bpm
  notes := (b.notes.1.shown, b.notes.2.shown)
  createdAt := now
  audioUrl := cfg.storage.audioUrl (some b.objectKey)

theorem toBeatmap_document (cfg : Config) (id : ObjectId) (now : ℤ) (b : NewBeatmap K) :
    toBeatmap cfg id (b.document now) = .ok (b.shown cfg id now) := by
  simp [toBeatmap, NewBeatmap.document, Json.pair?, validated, NewBeatmap.shown]

theorem getBeatmap_of_findOne {cfg : Config} {s : Shared K} {id : ObjectId} {b : NewBeatmap K}
    {now : ℤ} (h : s.beatmaps.findOne id = some (b.document now)) :
    getBeatmap cfg s id.str = .ok (b.shown cfg id now) := by
  simp [getBeatmap, h, toBeatmap_document]

end Read

end Maps
