import BeatmapBackend.Maps.Runs

/-! One call of `create_map_job` with a failure at any of its steps: which failures leave the
stores as they were, and which leave a queued document that no worker will ever see. -/
namespace Maps
open Effects Wire Queues Program Collections

/-- What each step of one call raises, if it does. -/
structure CreationFaults where
  readUpload : Option Exc := none
  insertMapJob : Option Exc := none
  setJobObjectKey : Option Exc := none
  upload : Option Exc := none
  addFlow : Option Exc := none

def CreationFaults.at {K : Type} (f : CreationFaults) : Eff K → Option Exc
  | .readUpload _ => f.readUpload
  | .insertMapJob _ => f.insertMapJob
  | .setJobObjectKey _ _ => f.setJobObjectKey
  | .upload _ _ => f.upload
  | .addFlow _ => f.addFlow
  | _ => none

/-- The call stops before it inserts its document, or no later step raises. -/
def CreationFaults.Harmless (cfg : Config) (q : Request) (f : CreationFaults) : Prop :=
  validateRequest cfg q.file q.laneCount ≠ .ok () ∨ f.readUpload ≠ none ∨ f.insertMapJob ≠ none ∨
    (f.setJobObjectKey = none ∧ f.upload = none ∧ f.addFlow = none)

section Statement

variable {K : Type}

structure OthersUnchanged (id : ObjectId) (key : String) (s t : Shared K) : Prop where
  docs : ∀ i, i ≠ id → t.mapJobs.findOne i = s.mapJobs.findOne i
  beatmaps : t.beatmaps = s.beatmaps
  objects : ∀ k, k ≠ key → t.objects k = s.objects k
  flows : ∀ n < s.flows.length, t.flows[n]? = s.flows[n]?

structure JobCreated (cfg : Config) (q : Request) (env : Env K) (s t : Shared K) : Prop where
  doc : ∃ d, t.mapJobs.entries = s.mapJobs.entries ++ [(env.newId, d)] ∧ d.status = .queued ∧
    d.objectKey = some (q.key cfg env.newId.str)
  object : t.objects (q.key cfg env.newId.str) = some q.file.body
  flow : t.flows = s.flows ++ [.add env.jobIds (buildSeparateStemsJob cfg env.newId.str
    (q.key cfg env.newId.str) q.file.originalFilename (q.lanes cfg))]
  lanes : 1 ≤ q.lanes cfg ∧ q.lanes cfg ≤ cfg.uploads.maxLaneCount

/-- What a call that ended with `r` must have done to the stores. -/
def AllOrNothing (cfg : Config) (q : Request) (env : Env K) (s t : Shared K)
    (r : Except Exc MapJobCreateResponse) : Prop :=
  OthersUnchanged env.newId (q.key cfg env.newId.str) s t ∧
  match r with
  | .ok response => response = ⟨env.newId.str, .queued⟩ ∧ JobCreated cfg q env s t
  | .error _ => t.flows = s.flows ∧ ∀ id d, s.mapJobs.findOne id = none →
      t.mapJobs.findOne id = some d → d.status ≠ .queued

end Statement

variable {K : Type} [Field K] [LinearOrder K] [FloorRing K]

def createAlone (cfg : Config) (q : Request) (i : ℕ) (env : Env K) (f : CreationFaults)
    (s : Shared K) : Option (Except Exc MapJobCreateResponse × Shared K) :=
  (createMapJob cfg q.file q.laneCount).solo (Shared.alone i q.task env f.at) s

section Runs

variable {cfg : Config} {q : Request} {i : ℕ} {env : Env K} {f : CreationFaults}
  {s t : Shared K} {r : Except Exc MapJobCreateResponse} {x : Exc}

section Complete

variable {c : Collection ObjectId MapJobDoc} (h : validateRequest cfg q.file q.laneCount = .ok ())
  (hc : s.mapJobs.insertOne env.newId
    (NewMapJob.document ⟨q.file.originalFilename, none, q.lanes cfg⟩) = some c)
  (hdocs : t.mapJobs = c.updateOne env.newId (.setObjectKey (q.key cfg env.newId.str)))
  (hobjects : t.objects =
    fun k => if k = q.key cfg env.newId.str then some q.file.body else s.objects k)
  (hflows : t.flows = s.flows ++ [.add env.jobIds (buildSeparateStemsJob cfg env.newId.str
    (q.key cfg env.newId.str) q.file.originalFilename (q.lanes cfg))])
include hc hdocs hobjects hflows

omit [Field K] [LinearOrder K] [FloorRing K] in
include h in
private theorem jobCreated : JobCreated cfg q env s t where
  doc := by
    rw [hdocs, Collection.entries_updateOne_insertOne hc]
    exact ⟨_, rfl, rfl, rfl⟩
  object := by simp only [hobjects, ↓reduceIte]
  flow := hflows
  lanes := lanes_of_validateRequest h

omit [Field K] [LinearOrder K] [FloorRing K] in
private theorem othersUnchanged (hbeatmaps : t.beatmaps = s.beatmaps) :
    OthersUnchanged env.newId (q.key cfg env.newId.str) s t where
  docs i hi := by
    rw [hdocs, Collection.findOne_updateOne_ne _ _ hi, Collection.findOne_insertOne hc, if_neg hi]
  beatmaps := hbeatmaps
  objects k hk := by simp only [hobjects, hk, ↓reduceIte]
  flows n hn := by rw [hflows, List.getElem?_append_left hn]

end Complete

structure NothingWritten (s t : Shared K) : Prop where
  mapJobs : t.mapJobs = s.mapJobs
  beatmaps : t.beatmaps = s.beatmaps
  objects : t.objects = s.objects
  flows : t.flows = s.flows

omit [Field K] [LinearOrder K] [FloorRing K] in
theorem NothingWritten.allOrNothing (h : NothingWritten s t) :
    AllOrNothing cfg q env s t (.error x) := by
  refine ⟨⟨fun _ _ => by rw [h.mapJobs], h.beatmaps, fun _ _ => by rw [h.objects],
    fun _ _ => by rw [h.flows]⟩, h.flows, ?_⟩
  intro id d hnone hsome
  rw [h.mapJobs, hnone] at hsome
  cases hsome

/-- The call raised with its document written, still queued and without a queue job. -/
def Stranded (env : Env K) (s t : Shared K) : Prop :=
  ∃ d, s.mapJobs.findOne env.newId = none ∧ t.mapJobs.findOne env.newId = some d ∧
    d.status = .queued

omit [Field K] [LinearOrder K] [FloorRing K] in
theorem Stranded.not_allOrNothing (h : Stranded env s t) :
    ¬ AllOrNothing cfg q env s t (.error x) := by
  rintro ⟨-, -, hnew⟩
  obtain ⟨d, hnone, hsome, hqueued⟩ := h
  exact hnew _ d hnone hsome hqueued

theorem createAlone_rejected (h : validateRequest cfg q.file q.laneCount = .error x) :
    createAlone cfg q i env f s = some (.error x, s) := by
  rw [createAlone, createMapJob, h]
  rfl

section Accepted

variable (h : validateRequest cfg q.file q.laneCount = .ok ())
include h

theorem createAlone_unread (hread : f.readUpload = some x) :
    ∃ t, createAlone cfg q i env f s = some (.error x, t) ∧ NothingWritten s t := by
  rw [createAlone, createMapJob, h, lift_ok_bind, solo_perform_raised (Shared.alone_raised hread)]
  exact ⟨_, rfl, rfl, rfl, rfl, rfl⟩

variable (hread : f.readUpload = none)
include hread

theorem createAlone_notInserted (hinsert : f.insertMapJob = some x) :
    ∃ t, createAlone cfg q i env f s = some (.error x, t) ∧ NothingWritten s t := by
  rw [createAlone, createMapJob, h, lift_ok_bind,
    solo_perform_bind (Shared.alone_done hread rfl),
    solo_perform_raised (Shared.alone_raised hinsert)]
  exact ⟨_, rfl, rfl, rfl, rfl, rfl⟩

variable (hinsert : f.insertMapJob = none) (hfresh : s.mapJobs.findOne env.newId = none)
include hinsert hfresh

/-- Once the document is inserted, the call leaves it queued whatever happens; only when no
later step raises is the job complete. -/
theorem createAlone_inserted : ∃ t,
    (∃ x, createAlone cfg q i env f s = some (.error x, t) ∧ Stranded env s t ∧
      ¬ (f.setJobObjectKey = none ∧ f.upload = none ∧ f.addFlow = none)) ∨
    (createAlone cfg q i env f s = some (.ok ⟨env.newId.str, .queued⟩, t) ∧
      JobCreated cfg q env s t ∧ OthersUnchanged env.newId (q.key cfg env.newId.str) s t ∧
      f.setJobObjectKey = none ∧ f.upload = none ∧ f.addFlow = none) := by
  obtain ⟨c, hc⟩ := Collection.insertOne_isSome hfresh
    (NewMapJob.document ⟨q.file.originalFilename, none, resolvedLaneCount cfg q.laneCount⟩)
  have hexec (event : Event K) : exec env (s.record event) (.insertMapJob
      ⟨q.file.originalFilename, none, resolvedLaneCount cfg q.laneCount⟩) =
      some (env.newId.str, { s.record event with mapJobs := c }) := by
    simp only [exec, Shared.record, hc, Option.map_some]
  have hset (u : Shared K) (key : String) : exec env u (.setJobObjectKey env.newId.str key) =
      some ((), { u with mapJobs := u.mapJobs.updateOne env.newId (.setObjectKey key) }) := by
    simp only [exec, Shared.updateJob, ObjectId.parse_str, Option.map_some]
  have hfind := Collection.findOne_insertOne hc env.newId
  rw [if_pos rfl] at hfind
  have hkeyed (key : String) : (c.updateOne env.newId (.setObjectKey key)).findOne env.newId =
      some ((NewMapJob.document ⟨q.file.originalFilename, none,
        resolvedLaneCount cfg q.laneCount⟩).setObjectKey key) := by
    rw [Collection.findOne_updateOne_self, hfind, Option.map_some]
  rw [createAlone, createMapJob, h, lift_ok_bind,
    solo_perform_bind (Shared.alone_done hread rfl),
    solo_perform_bind (Shared.alone_done hinsert (hexec _))]
  cases hkey : f.setJobObjectKey with
  | some x =>
    rw [solo_perform_raised (Shared.alone_raised hkey)]
    exact ⟨_, Or.inl ⟨x, rfl, ⟨_, hfresh, hfind, rfl⟩, by simp⟩⟩
  | none =>
    rw [solo_perform_bind (Shared.alone_done hkey (hset _ _))]
    cases hupload : f.upload with
    | some x =>
      rw [solo_perform_raised (Shared.alone_raised hupload)]
      exact ⟨_, Or.inl ⟨x, rfl, ⟨_, hfresh, hkeyed _, rfl⟩, by simp⟩⟩
    | none =>
      rw [solo_perform_bind (Shared.alone_done hupload rfl)]
      cases hadd : f.addFlow with
      | some x =>
        rw [solo_perform_raised (Shared.alone_raised hadd)]
        exact ⟨_, Or.inl ⟨x, rfl, ⟨_, hfresh, hkeyed _, rfl⟩, by simp⟩⟩
      | none =>
        rw [solo_perform_bind (Shared.alone_done hadd rfl)]
        refine ⟨_, Or.inr ⟨rfl, ?_, ?_, rfl, rfl, rfl⟩⟩
        · exact jobCreated h hc rfl rfl rfl
        · exact othersUnchanged hc rfl rfl rfl rfl

end Accepted

/-- Exactly the failures after the insertion of the document break the promise. -/
theorem createMapJob_allOrNothing_iff (hfresh : s.mapJobs.findOne env.newId = none) :
    ∃ r t, createAlone cfg q i env f s = some (r, t) ∧
      (AllOrNothing cfg q env s t r ↔ f.Harmless cfg q) := by
  unfold CreationFaults.Harmless
  cases h : validateRequest cfg q.file q.laneCount with
  | error x =>
    have ht : NothingWritten s s := ⟨rfl, rfl, rfl, rfl⟩
    exact ⟨.error x, s, createAlone_rejected h, iff_of_true ht.allOrNothing (by simp)⟩
  | ok u =>
    cases hread : f.readUpload with
    | some x =>
      obtain ⟨t, hrun, ht⟩ : ∃ t, createAlone cfg q i env f s = some (.error x, t) ∧
          NothingWritten s t := createAlone_unread h hread
      exact ⟨_, t, hrun, iff_of_true ht.allOrNothing (by simp)⟩
    | none =>
      cases hinsert : f.insertMapJob with
      | some x =>
        obtain ⟨t, hrun, ht⟩ : ∃ t, createAlone cfg q i env f s = some (.error x, t) ∧
            NothingWritten s t := createAlone_notInserted h hread hinsert
        exact ⟨_, t, hrun, iff_of_true ht.allOrNothing (by simp)⟩
      | none =>
        obtain ⟨t, ⟨x, hrun, ht, hfault⟩ | ⟨hrun, ht, hothers, hfault⟩⟩ :=
          createAlone_inserted h hread hinsert hfresh
        · exact ⟨_, t, hrun, iff_of_false ht.not_allOrNothing (by simpa using hfault)⟩
        · exact ⟨_, t, hrun, iff_of_true ⟨hothers, rfl, ht⟩ (by simp [hfault])⟩

end Runs

namespace Sample

def request : Request := ⟨file, none⟩

def refused : CreationFaults := { upload := some ⟨.other "S3Error", "Service Unavailable"⟩ }

end Sample

open Sample in
theorem createMapJob_allOrNothing_sample : ∃ r t,
    createAlone {} request 0 (env 1) {} Shared.empty = some (r, t) ∧
      (AllOrNothing {} request (env 1) Shared.empty t r ↔
        ({} : CreationFaults).Harmless {} request) :=
  createMapJob_allOrNothing_iff rfl

open Sample in
/-- An upload that the storage refuses leaves a queued document behind. -/
theorem not_allOrNothing_refused : ∃ t x,
    createAlone {} request 0 (env 1) refused Shared.empty = some (.error x, t) ∧
      ¬ AllOrNothing {} request (env 1) Shared.empty t (.error x) := by
  obtain ⟨t, ⟨x, hrun, ht, -⟩ | ⟨-, -, -, -, hupload, -⟩⟩ :=
    createAlone_inserted (q := request) (f := refused) (i := 0) (s := Shared.empty)
      (show validateRequest {} request.file request.laneCount = .ok () by decide) rfl rfl
      (show Shared.empty.mapJobs.findOne (env 1).newId = none from rfl)
  · exact ⟨t, x, hrun, ht.not_allOrNothing⟩
  · cases hupload

end Maps
