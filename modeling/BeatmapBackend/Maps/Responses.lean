import BeatmapBackend.Maps.Failures
import BeatmapBackend.Maps.Polls

/-! What clients of the API are answered. A read fails only where the database raises. An upload
is refused for its own faults alone, and an accepted one is on its way for good. -/
namespace Maps
open Effects Wire Queues Program Collections

variable {K : Type}

inductive Body (K : Type) where
  | jobCreated (response : Json K)
  | job (out : MapJobOut)
  | beatmap (shown : Beatmap K)
  | beatmaps (all : List (Beatmap K))
  | appError (detail code : String)
  | internalServerError

structure Response (K : Type) where
  statusCode : ℕ
  body : Body K

def ExcKind.isAppError (kind : ExcKind) : Bool := kind.code ≠ ""

def handleAppError (e : Exc) : Response K := ⟨e.kind.statusCode, .appError e.message e.kind.code⟩

def respond {α : Type} (statusCode : ℕ) (body : α → Body K) : Except Exc α → Response K
  | .ok a => ⟨statusCode, body a⟩
  | .error e => if e.kind.isAppError then handleAppError e else ⟨500, .internalServerError⟩

/-- `POST /api/v1/maps`, of a request that has been served. -/
def createMapResponse (result : Except Exc (Json K)) : Response K :=
  respond 202 .jobCreated result

/-- A query by id, which the database may fail. A text that is no object id is not looked up. -/
def queried {α : Type} (fault : Option Exc) (key : String) (answer : Except Exc α) :
    Except Exc α :=
  match ObjectId.parse key, fault with
  | some _, some x => .error x
  | _, _ => answer

/-- `GET /api/v1/maps/jobs/{job_id}`. -/
def getJob (fault : Option Exc) (s : Shared K) (jobId : String) : Response K :=
  respond 200 .job (queried fault jobId (getJobStatus s jobId))

section Routes

variable [Field K] [LinearOrder K] [FloorRing K]

/-- `GET /api/v1/maps/{beatmap_id}`. -/
def getBeatmapResponse (cfg : Config) (fault : Option Exc) (s : Shared K) (beatmapId : String) :
    Response K :=
  respond 200 .beatmap (queried fault beatmapId (getBeatmap cfg s beatmapId))

/-- `GET /api/v1/maps`, of what the query returned or raised. -/
def listBeatmapsResponse (cfg : Config)
    (found : Except Exc (List (ObjectId × BeatmapDoc K))) : Response K :=
  respond 200 .beatmaps (found >>= listBeatmaps cfg)

end Routes

/-- The fault of a request that is refused, in the order of the checks. -/
def Request.fault (cfg : Config) (q : Request) : Option Exc :=
  match validateFileSize cfg q.file with
  | .error x => some x
  | .ok () =>
    match validateRequest cfg q.file q.laneCount with
    | .error x => some x
    | .ok () => none

/-- Storage, database and queues do not raise errors of the application. -/
def Outcome.Foreign : Outcome K → Prop
  | .done _ => True
  | .raised x => x.kind.isAppError = false
  | .lost _ x => x.kind.isAppError = false

def Act.Foreign : Act K → Prop
  | .step _ outcome => outcome.Foreign
  | _ => True

section Faults

variable {cfg : Config} {q : Request} {x : Exc}

theorem validateFileSize_error (h : validateFileSize cfg q.file = .error x) :
    x.kind = .audioTooLarge := by
  unfold validateFileSize at h
  split at h
  · split at h
    · exact (Except.error.inj h) ▸ rfl
    · cases h
  · cases h

theorem validateRequest_error (h : validateRequest cfg q.file q.laneCount = .error x) :
    x.kind = .unsupportedAudioType ∨ x.kind = .invalidLaneCount := by
  unfold validateRequest at h
  dsimp only at h
  split at h
  · exact Or.inl ((Except.error.inj h) ▸ rfl)
  · split at h
    · exact Or.inr ((Except.error.inj h) ▸ rfl)
    · cases h

theorem Request.fault_kind (h : q.fault cfg = some x) : x.kind = .audioTooLarge ∨
    x.kind = .unsupportedAudioType ∨ x.kind = .invalidLaneCount := by
  unfold fault at h
  split at h
  next y hy =>
    obtain rfl := Option.some.inj h
    exact Or.inl (validateFileSize_error hy)
  next =>
    split at h
    next y hy =>
      obtain rfl := Option.some.inj h
      exact Or.inr (validateRequest_error hy)
    next => cases h

/-- A request with a fault performs nothing. -/
theorem createMap_of_fault (h : q.fault cfg = some x) :
    createMap (K := K) cfg q.file q.laneCount = .ret (.error x) := by
  unfold Request.fault at h
  unfold createMap
  split at h
  next y hy =>
    obtain rfl := Option.some.inj h
    rw [hy]
    rfl
  next hsize =>
    split at h
    next y hy =>
      obtain rfl := Option.some.inj h
      rw [hsize, createMapJob, hy]
      rfl
    next => cases h

/-- A request without one raises only what is raised to it. -/
theorem createMap_accounts {blamed : Exc → Prop} (h : q.fault cfg = none) :
    Accounts (fun _ => True) (fun _ _ => True) blamed
      (createMap (K := K) cfg q.file q.laneCount) := by
  unfold Request.fault at h
  split at h
  next => cases h
  next hsize =>
    split at h
    next => cases h
    next hvalid =>
      rw [createMap, hsize, lift_ok_bind, createMapJob, hvalid, lift_ok_bind]
      simp only [Program.bind_assoc]
      exact Accounts.perform_bind trivial fun _ _ => Accounts.perform_bind trivial fun _ _ =>
        Accounts.perform_bind trivial fun _ _ => Accounts.perform_bind trivial fun _ _ =>
        Accounts.perform_bind trivial fun _ _ => Accounts.of_ok

end Faults

section Histories

variable [Field K] [LinearOrder K] [FloorRing K] {s u : Shared K} {i : ℕ} {task : Task K}
  {e : Eff K} {o : Outcome K} {r : Reply (Ans e) Exc}

theorem exec_history {env : Env K} {a : Ans e} (h : exec env s e = some (a, u)) :
    u.history = s.history := by
  cases e with
  | insertMapJob | insertBeatmap =>
    obtain ⟨c, -, h⟩ := Option.map_eq_some_iff.mp h
    exact (Prod.mk.inj h).2 ▸ rfl
  | setJobObjectKey | markJobProcessing | markJobCompleted =>
    obtain ⟨id, -, h⟩ := Option.map_eq_some_iff.mp h
    exact (Prod.mk.inj h).2 ▸ rfl
  | markJobFailed j text =>
    cases j with
    | none => exact (Prod.mk.inj (Option.some.inj h)).2 ▸ rfl
    | some j =>
      obtain ⟨id, -, h⟩ := Option.map_eq_some_iff.mp h
      exact (Prod.mk.inj h).2 ▸ rfl
  | upload | addFlow => exact (Prod.mk.inj (Option.some.inj h)).2 ▸ rfl
  | _ => exact exec_quiet rfl h ▸ rfl

theorem perform_history (h : s.perform i task e o = some (r, u)) :
    u.history = s.history ++ [⟨i, task, e, r⟩] := by
  rcases perform_cases h with ⟨env, a, t, -, hexec, -, rfl⟩ | ⟨-, rfl⟩
  · exact congrArg (· ++ _) (exec_history hexec)
  · rfl

theorem perform_foreign {x : Exc} (h : s.perform i task e o = some (r, u)) (ho : o.Foreign)
    (hx : r.seen = .error x) : x.kind.isAppError = false := by
  cases o with
  | done env =>
    obtain ⟨⟨a, t⟩, -, h⟩ := Option.map_eq_some_iff.mp h
    obtain rfl := (Prod.mk.inj h).1
    cases hx
  | raised y =>
    obtain rfl := (Prod.mk.inj (Option.some.inj h)).1
    exact Except.error.inj hx ▸ ho
  | lost env y =>
    obtain ⟨⟨a, t⟩, -, h⟩ := Option.map_eq_some_iff.mp h
    obtain rfl := (Prod.mk.inj h).1
    exact Except.error.inj hx ▸ ho

end Histories

/-- An exception that no application code raised. -/
def Surprised (s : Shared K) (i : ℕ) (x : Exc) : Prop :=
  RaisedTo s i x ∧ x.kind.isAppError = false

theorem Surprised.mono {s t : Shared K} {i : ℕ} {x : Exc} (h : Surprised s i x)
    (hg : Grows s t) : Surprised t i x := by
  obtain ⟨⟨task, e, r, hev, hr⟩, hx⟩ := h
  exact ⟨⟨task, e, r, hg.history _ hev, hr⟩, hx⟩

def Promised (cfg : Config) (i : ℕ) (q : Request) (v : Json K) (s : Shared K) : Prop :=
  ∃ j, v = MapJobCreateResponse.modelDump ⟨j, .queued⟩ ∧ Accepted cfg s i q j

section Requests

variable [Field K] [LinearOrder K] [FloorRing K]

/-- The thread `i` is not a request with a fault. -/
def Faultless (cfg : Config) (w : World K) (i : ℕ) : Prop :=
  ∃ th : Thread K, w.threads[i]? = some th ∧ ∀ q : Request, th.task = q.task → q.fault cfg = none

/-- Every request has ended over its fault, or goes on towards what it is promised. -/
structure Answering (cfg : Config) (w : World K) : Prop where
  refused : ∀ (i : ℕ) (q : Request) (program : Prog K (Json K)),
    w.threads[i]? = some ⟨q.task, program⟩ → ∀ x, q.fault cfg = some x → program = .ret (.error x)
  safe : ∀ (i : ℕ) (q : Request) (program : Prog K (Json K)),
    w.threads[i]? = some ⟨q.task, program⟩ →
      Safe (contract cfg (fun _ => True) i q.task) (Promised cfg i q) program w.shared
  raises : ∀ (i : ℕ) (q : Request) (program : Prog K (Json K)),
    w.threads[i]? = some ⟨q.task, program⟩ → q.fault cfg = none → ∀ blamed : Exc → Prop,
      (∀ x, Surprised w.shared i x → blamed x) →
        Accounts (fun _ => True) (fun _ _ => True) blamed program
  performed : ∀ ev ∈ w.shared.history, Faultless cfg w ev.actor

variable {cfg : Config} {w w' : World K} {a : Act K}

theorem Faultless.act {i : ℕ} (h : Faultless cfg w i) (hact : w.act cfg a = some w') :
    Faultless cfg w' i := by
  obtain ⟨th, hth, hq⟩ := h
  obtain ⟨program, hth'⟩ := World.act_thread hact hth
  exact ⟨_, hth', hq⟩

theorem answering_empty : Answering cfg (World.empty : World K) :=
  ⟨fun _ _ _ => nofun, fun _ _ _ => nofun, fun _ _ _ => nofun, fun _ => nofun⟩

namespace Answering

/-- A thread that has something to perform is not a request with a fault. -/
private theorem faultless (h : Answering cfg w) {i : ℕ} {task : Task K} {e : Eff K}
    {k : Except Exc (Ans e) → Prog K (Json K)} (hth : w.threads[i]? = some ⟨task, .op e k⟩) :
    Faultless cfg w i := by
  refine ⟨_, hth, fun q (hq : task = q.task) => ?_⟩
  cases hx : q.fault cfg with
  | none => rfl
  | some x => cases h.refused i q _ (hq ▸ hth) x hx

private theorem performed_act (h : Answering cfg w) (hact : w.act cfg a = some w')
    {ev : Event K} (hev : ev ∈ w'.shared.history) : Faultless cfg w' ev.actor := by
  suffices hold : Faultless cfg w ev.actor from hold.act hact
  rcases World.act_shared hact with ⟨flows, hsame⟩ | ⟨i, outcome, task, e, k, r, -, hth, hperform⟩
  · rw [hsame] at hev
    exact h.performed ev hev
  · rw [perform_history hperform] at hev
    rcases List.mem_append.mp hev with hold | hnew
    · exact h.performed ev hold
    · obtain rfl := List.mem_singleton.mp hnew
      exact h.faultless hth

theorem act (h : Answering cfg w) (hlegit : WorldLegit cfg (fun _ => True) w) (ha : a.Foreign)
    (hact : w.act cfg a = some w') : Answering cfg w' := by
  obtain ⟨-, hg⟩ := hlegit.act a.within_true hact
  constructor
  case refused =>
    rintro i ⟨file, laneCount⟩ program hth x hx
    cases World.act_threadMoves hact hth with
    | idle hold => exact h.refused i ⟨file, laneCount⟩ program hold x hx
    | step hold _ => cases h.refused i ⟨file, laneCount⟩ _ hold x hx
    | request => exact createMap_of_fault hx
  case safe =>
    rintro i ⟨file, laneCount⟩ program hth
    cases World.act_threadMoves hact hth with
    | idle hold => exact (h.safe i ⟨file, laneCount⟩ program hold).mono hg
    | step hold hperform =>
      exact (Safe.of_op hlegit.shared (h.safe i ⟨file, laneCount⟩ _ hold)).2 _ _
        ⟨_, fun _ _ => trivial, hperform⟩
    | request => exact (createMap_safe hlegit.shared _ fun j t hj => ⟨j, rfl, hj⟩).mono hg
  case raises =>
    rintro i ⟨file, laneCount⟩ program hth hq blamed hblamed
    cases World.act_threadMoves hact hth with
    | idle hold =>
      exact h.raises i ⟨file, laneCount⟩ program hold hq blamed fun x hx => hblamed x (hx.mono hg)
    | step hold hperform =>
      have hop := h.raises i ⟨file, laneCount⟩ _ hold hq blamed fun x hx => hblamed x (hx.mono hg)
      exact hop.reply (fun _ _ => trivial) fun x hx => hblamed x
        ⟨⟨_, _, _, perform_event hperform, hx⟩, perform_foreign hperform ha hx⟩
    | request => exact createMap_accounts hq
  case performed => exact fun ev => h.performed_act hact

end Answering

theorem answering_of_run {acts : List (Act K)} (hacts : ∀ a ∈ acts, a.Foreign)
    (hrun : World.empty.run cfg acts = some w) : Answering cfg w := by
  have hinvariant : WorldLegit cfg (fun _ => True) w ∧ Answering cfg w := by
    refine World.run_invariant (I := fun v => WorldLegit cfg (fun _ => True) v ∧ Answering cfg v)
      ?_ ⟨worldLegit_empty, answering_empty⟩ hacts hrun
    rintro v a v' ⟨hlegit, h⟩ ha hact
    exact ⟨(hlegit.act a.within_true hact).1, h.act hlegit ha hact⟩
  exact hinvariant.2

/-- The reading routes answer with what is stored, or that there is no such document, unless the
database raises. -/
structure ReadsAnswered (cfg : Config) (s : Shared K) : Prop where
  job : ∀ jobId id d, ObjectId.parse jobId = some id → s.mapJobs.findOne id = some d →
    getJob none s jobId = ⟨200, .job ⟨id.str, d.status, d.beatmapId, d.error⟩⟩
  noJob : ∀ jobId, (∀ id, ObjectId.parse jobId = some id → s.mapJobs.findOne id = none) →
    getJob none s jobId =
      ⟨404, .appError ("no map job with id '" ++ jobId ++ "'") "map_job_not_found"⟩
  beatmap : ∀ beatmapId id d, ObjectId.parse beatmapId = some id →
    s.beatmaps.findOne id = some d → ∃ shown, Shows cfg (id, d) shown ∧
      getBeatmapResponse cfg none s beatmapId = ⟨200, .beatmap shown⟩
  noBeatmap : ∀ beatmapId,
    (∀ id, ObjectId.parse beatmapId = some id → s.beatmaps.findOne id = none) →
    getBeatmapResponse cfg none s beatmapId =
      ⟨404, .appError ("no beatmap with id '" ++ beatmapId ++ "'") "beatmap_not_found"⟩
  list : ∀ found, s.Lists found → ∃ all, List.Forall₂ (Shows cfg) found all ∧
    listBeatmapsResponse cfg (.ok found) = ⟨200, .beatmaps all⟩

/-- What the reading routes answer when the database raises. -/
structure ReadsRaised (cfg : Config) (s : Shared K) (x : Exc) : Prop where
  unparsed : ∀ key, ObjectId.parse key = none → getJob (some x) s key = getJob none s key ∧
    getBeatmapResponse cfg (some x) s key = getBeatmapResponse cfg none s key
  parsed : ∀ key, ObjectId.parse key ≠ none →
    getJob (some x) s key = ⟨500, .internalServerError⟩ ∧
      getBeatmapResponse cfg (some x) s key = ⟨500, .internalServerError⟩
  list : listBeatmapsResponse (K := K) cfg (.error x) = ⟨500, .internalServerError⟩

structure UploadAnswered (cfg : Config) (s : Shared K) (i : ℕ) (q : Request)
    (response : Response K) : Prop where
  /-- A fault is named, and nothing was done. -/
  refused : ∀ x, q.fault cfg = some x →
    response = ⟨x.kind.statusCode, .appError x.message x.kind.code⟩ ∧
      x.kind.statusCode ∈ [413, 415, 422] ∧ ∀ ev ∈ s.history, ev.actor ≠ i
  served : q.fault cfg = none →
    (∃ j, response = ⟨202, .jobCreated (MapJobCreateResponse.modelDump ⟨j, .queued⟩)⟩ ∧
      Accepted cfg s i q j ∧ (getJob none s j).statusCode = 200) ∨
    response = ⟨500, .internalServerError⟩ ∧ ∃ x, RaisedTo s i x

theorem queried_none {α : Type} (key : String) (answer : Except Exc α) :
    queried none key answer = answer := by
  unfold queried
  split
  next h => cases h
  next => rfl

theorem reads_answered {acts : List (Act K)} (hrun : World.empty.run cfg acts = some w) :
    ReadsAnswered cfg w.shared where
  job jobId id d hid hd := by
    simp [getJob, queried_none, respond, getJobStatus, findMapJob, hid, hd]
  noJob jobId hnone := by
    have hfind : findMapJob w.shared jobId = none := by
      cases hid : ObjectId.parse jobId with
      | none => simp [findMapJob, hid]
      | some id => simp [findMapJob, hid, hnone id hid]
    simp [getJob, queried_none, respond, getJobStatus, hfind, appError, handleAppError,
      ExcKind.isAppError, ExcKind.code, ExcKind.statusCode]
  beatmap beatmapId id d hid hd := by
    obtain ⟨shown, hshows⟩ := shows_of_run hrun (Collection.mem_entries.mpr hd)
    have hok : getBeatmap cfg w.shared beatmapId = .ok shown :=
      getBeatmap_eq_ok.mpr ⟨id, d, hid, hd, hshows.toBeatmap_eq⟩
    exact ⟨shown, hshows, by rw [getBeatmapResponse, queried_none, hok]; rfl⟩
  noBeatmap beatmapId hnone := by
    have hfind : ((ObjectId.parse beatmapId).bind fun id =>
        (w.shared.beatmaps.findOne id).map (id, ·)) = none := by
      cases hid : ObjectId.parse beatmapId with
      | none => rfl
      | some id => simp [hnone id hid]
    simp [getBeatmapResponse, queried_none, respond, getBeatmap, hfind, appError, handleAppError,
      ExcKind.isAppError, ExcKind.code, ExcKind.statusCode]
  list found hfound := by
    obtain ⟨all, hall, hshows⟩ := listBeatmaps_of_run hrun hfound
    have hlist : listBeatmapsResponse cfg (.ok found) = respond 200 .beatmaps (.ok all) :=
      congrArg (respond 200 .beatmaps) hall
    exact ⟨all, hshows, hlist⟩

/-- An error of the database is no error of the application. -/
theorem reads_raised (cfg : Config) (s : Shared K) {x : Exc} (hx : x.kind.isAppError = false) :
    ReadsRaised cfg s x := by
  have hrespond {α : Type} (body : α → Body K) :
      respond 200 body (.error x) = ⟨500, .internalServerError⟩ := by simp [respond, hx]
  constructor
  case unparsed =>
    intro key hkey
    simp [getJob, getBeatmapResponse, queried, hkey]
  case parsed =>
    intro key hkey
    obtain ⟨id, hid⟩ := Option.ne_none_iff_exists'.mp hkey
    simp [getJob, getBeatmapResponse, queried, hid, hrespond]
  case list => exact hrespond .beatmaps

/-- A request that has ended answers for its fault, or with what it was promised. -/
theorem Answering.upload (h : Answering cfg w) (hlegit : WorldLegit cfg (fun _ => True) w)
    (hreads : ReadsAnswered cfg w.shared) {i : ℕ} {q : Request} {result : Except Exc (Json K)}
    (hth : w.threads[i]? = some ⟨q.task, .ret result⟩) :
    UploadAnswered cfg w.shared i q (createMapResponse result) := by
  constructor
  case refused =>
    intro x hx
    obtain rfl : result = .error x := Program.ret.inj (h.refused i q _ hth x hx)
    refine ⟨?_, ?_, ?_⟩
    · rcases Request.fault_kind hx with hkind | hkind | hkind <;>
        simp [createMapResponse, respond, handleAppError, ExcKind.isAppError, hkind, ExcKind.code]
    · rcases Request.fault_kind hx with hkind | hkind | hkind <;>
        simp [hkind, ExcKind.statusCode]
    · rintro ev hev rfl
      obtain ⟨th, hth', hq⟩ := h.performed ev hev
      obtain rfl := Option.some.inj (hth.symm.trans hth')
      rw [hq q rfl] at hx
      cases hx
  case served =>
    intro hq
    cases result with
    | ok v =>
      obtain ⟨j, rfl, haccepted⟩ := Safe.of_ok hlegit.shared (h.safe i q _ hth)
      obtain ⟨id, d, rfl, hd, -⟩ := haccepted.keyed
      refine Or.inl ⟨id.str, rfl, haccepted, ?_⟩
      rw [hreads.job id.str id d (ObjectId.parse_str id) hd]
    | error x =>
      obtain ⟨hraised, hforeign⟩ := Accounts.error_iff.mp
        (h.raises i q _ hth hq (Surprised w.shared i) fun _ hx => hx)
      exact Or.inr ⟨by simp [createMapResponse, respond, hforeign], x, hraised⟩

/-- In every reachable state every read is answered with what is stored or by a 404, and by a 500
only where the database raises. Every upload is answered by its fault, by a promise that is kept,
or by a 500 that an operation has caused. -/
theorem requests_answered {acts : List (Act K)} (hacts : ∀ a ∈ acts, a.Foreign)
    (hrun : World.empty.run cfg acts = some w) : ReadsAnswered cfg w.shared ∧
      (∀ x : Exc, x.kind.isAppError = false → ReadsRaised cfg w.shared x) ∧
      ∀ (i : ℕ) (q : Request) (result : Except Exc (Json K)),
        w.threads[i]? = some ⟨q.task, .ret result⟩ →
          UploadAnswered cfg w.shared i q (createMapResponse result) := by
  have hlegit := ((worldLegit_empty (P := fun _ => True)).run (fun a _ => a.within_true) hrun).1
  have hreads := reads_answered hrun
  exact ⟨hreads, fun x hx => reads_raised cfg w.shared hx, fun i q result hth =>
    (answering_of_run hacts hrun).upload hlegit hreads hth⟩

end Requests

namespace Sample

def isRet : Prog ℚ (Json ℚ) → Bool
  | .ret _ => true
  | .op _ _ => false

def served (w : World ℚ) : Bool :=
  (w.threads[0]?).any fun th => isRet th.program && match th.task with
    | .api f lanes => decide (f = file) && lanes.isNone
    | .worker _ => false

theorem ret_of_served {w : World ℚ} (h : served w = true) :
    ∃ result, w.threads[0]? = some ⟨(⟨file, none⟩ : Request).task, .ret result⟩ := by
  obtain ⟨⟨task, program⟩, hth, h⟩ := (Option.any_eq_true _ _).mp h
  obtain ⟨hret, htask⟩ := Bool.and_eq_true_iff.mp h
  cases task with
  | worker view => cases htask
  | api f lanes =>
    obtain ⟨hfile, hlanes⟩ := Bool.and_eq_true_iff.mp htask
    obtain rfl := of_decide_eq_true hfile
    obtain rfl := Option.isNone_iff_eq_none.mp hlanes
    cases program with
    | ret result => exact ⟨result, hth⟩
    | op e k => cases hret

theorem struckSong_foreign (i f : ℕ) (job beatmap : Fin 16) :
    ∀ a ∈ struckSong i f job beatmap, a.Foreign := by
  have hsteps (i n : ℕ) (id : Fin 16) : ∀ a ∈ struckSteps i n id, a.Foreign := by
    intro a ha
    obtain rfl := List.eq_of_mem_replicate ha
    exact trivial
  simp only [struckSong, List.forall_mem_append, List.forall_mem_cons]
  simpa [Act.Foreign] using
    (⟨⟨⟨⟨hsteps i 5 job, hsteps (i + 1) 9 job⟩, hsteps (i + 2) 5 job⟩, hsteps (i + 3) 4 job⟩,
      hsteps (i + 4) 3 beatmap⟩ : (((((∀ a ∈ struckSteps i 5 job, a.Foreign) ∧ _) ∧ _) ∧ _) ∧ _))

end Sample

open Sample in
theorem requests_answered_sample : ∃ w result, World.empty.run {} struckActs = some w ∧
    w.threads[0]? = some ⟨(⟨file, none⟩ : Request).task, .ret result⟩ ∧
    (w.shared.beatmaps.findOne (objectId 2)).isSome = true ∧ ReadsAnswered {} w.shared ∧
    ReadsRaised {} w.shared ⟨.other "AutoReconnect", "connection closed"⟩ ∧
    UploadAnswered {} w.shared 0 ⟨file, none⟩ (createMapResponse result) := by
  have hrun : (World.empty.run {} struckActs).any (fun w => served w &&
      (w.shared.beatmaps.findOne (objectId 2)).isSome) = true := by decide +kernel
  obtain ⟨w, hw, hserved⟩ := (Option.any_eq_true _ _).mp hrun
  obtain ⟨hserved, hstored⟩ := Bool.and_eq_true_iff.mp hserved
  obtain ⟨result, hth⟩ := ret_of_served hserved
  obtain ⟨hreads, hraised, huploads⟩ := requests_answered (struckSong_foreign 0 0 1 2) hw
  exact ⟨w, result, hw, hth, hstored, hreads, hraised _ rfl, huploads 0 ⟨file, none⟩ result hth⟩

end Maps
