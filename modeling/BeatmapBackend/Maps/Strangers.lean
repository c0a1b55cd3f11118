import BeatmapBackend.Maps.Isolation
import BeatmapBackend.Maps.Progress
import BeatmapBackend.Maps.Spacing

/-! One map job among others. Whatever the rest of the system does, its document, its
beatmaps and its objects change only when a thread that works for it takes a step. -/
namespace Maps
open Effects Wire Collections Queues

variable {K : Type} {cfg : Config} {P : Librosa K → Prop}

/-- What a worker thread is about to do, it does for the map job its payload names. -/
def OwnWork (cfg : Config) (s : Shared K) (view : JobView K) (program : Prog K (Json K)) : Prop :=
  ∃ (q : Request) (id : ObjectId) (role : Role) (final : Bool) (stage : Stage)
    (post : Stage → Except Exc (Json K) → Prop), Created s id.str q ∧
      view.data.get? "job_id" = some (.str id.str) ∧
      Follows (workerProtocol cfg role id.str q final) post stage program

/-- What a request is about to do, it does for the map job it has created. -/
def OwnRequest (cfg : Config) (s : Shared K) (i : ℕ) (q : Request) (program : Prog K (Json K)) :
    Prop :=
  ∃ st, (∀ j, st = .created j → CreatedBy s i j q) ∧
    Follows (creationProtocol cfg q) Answered st program

/-- Every thread keeps to its map job, also after it lost the lock of its queue job. -/
structure Owned (cfg : Config) (w : World K) : Prop where
  workers : ∀ (i : ℕ) (view : JobView K) (program : Prog K (Json K)),
    w.threads[i]? = some ⟨.worker view, program⟩ → OwnWork cfg w.shared view program
  requests : ∀ (i : ℕ) (q : Request) (program : Prog K (Json K)),
    w.threads[i]? = some ⟨q.task, program⟩ → OwnRequest cfg w.shared i q program

section Threads

variable {s t : Shared K} {i : ℕ} {q : Request} {view : JobView K} {program : Prog K (Json K)}

theorem OwnWork.mono (h : OwnWork cfg s view program) (hg : Grows s t) :
    OwnWork cfg t view program := by
  obtain ⟨q, id, role, final, stage, post, hq, hrest⟩ := h
  exact ⟨q, id, role, final, stage, post, hq.mono hg, hrest⟩

theorem OwnRequest.mono (h : OwnRequest cfg s i q program) (hg : Grows s t) :
    OwnRequest cfg t i q program := by
  obtain ⟨st, hst, hfollows⟩ := h
  exact ⟨st, fun j hj => (hst j hj).mono hg, hfollows⟩

theorem ownRequest_fresh : OwnRequest cfg s i q (createMap cfg q.file q.laneCount) :=
  ⟨.fresh, fun _ => nofun, createMap_follows cfg q⟩

theorem get?_of_field?_str {data : Json K} {name j : String}
    (h : data.field? name Json.str? = some j) : data.get? name = some (.str j) := by
  obtain ⟨v, hv, hj⟩ := Option.bind_eq_some_iff.mp h
  cases v <;> simp_all [Json.str?]

variable {e : Eff K} {k : Except Exc (Ans e) → Prog K (Json K)} {r : Reply (Ans e) Exc}
  {o : Outcome K}

theorem OwnWork.step (h : OwnWork cfg s view (.op e k)) (hg : Grows s t) :
    OwnWork cfg t view (k r.seen) := by
  obtain ⟨q, id, role, final, stage, post, hq, hid, hfollows⟩ := h
  exact ⟨q, id, role, final, _, post, hq.mono hg, hid, (Follows.op_iff.mp hfollows).2 r⟩

variable [Field K] [LinearOrder K] [FloorRing K]

/-- An attempt begins with the job that the payload names. -/
theorem ownWork_start {w : World K} (hs : Legit cfg P w.shared) {ref : JobRef}
    {job : Job ℕ (Json K) (Json K)} (hjob : w.job? ref = some job)
    (hp : handlerOf cfg (.ofJob ref job) = some program) :
    OwnWork cfg w.shared (.ofJob ref job) program := by
  obtain ⟨F, hF, hFjob⟩ := Option.bind_eq_some_iff.mp hjob
  obtain ⟨q, id, role, -, hq, hr⟩ := hs.owner hF hFjob
  obtain ⟨-, -, hdata⟩ := hr.jobOf hjob
  obtain ⟨hchild, F', hF', hflow⟩ := hr
  obtain rfl := Option.some.inj (hF.symm.trans hF')
  have hspec : F.spec.job? role.child = some job.spec := by
    rw [Flow.job?_spec, ← hchild, hFjob]
    rfl
  exact ⟨q, id, role, _, .working, _, hq, get?_of_field?_str hdata,
    handlerOf_follows hflow hspec rfl rfl hp⟩

theorem OwnRequest.step (h : OwnRequest cfg s i q (.op e k)) (hg : Grows s t)
    (hperform : s.perform i q.task e o = some (r, t)) : OwnRequest cfg t i q (k r.seen) := by
  obtain ⟨st, hst, hfollows⟩ := h
  refine ⟨_, fun j hj => ?_, (Follows.op_iff.mp hfollows).2 r⟩
  have hkeep (hsame : st = .created j) : CreatedBy t i j q := (hst j hsame).mono hg
  cases e with
  | insertMapJob n =>
    cases r with
    | done j' =>
      obtain rfl := CreationStage.created.inj hj
      exact ⟨n, .done j', perform_event hperform, rfl⟩
    | raised x | lost j' x => exact hkeep hj
  | addFlow flow => cases st <;> cases r <;> first | exact hkeep hj | cases hj
  | _ => cases st <;> exact hkeep hj

end Threads

namespace Owned

variable {w w' : World K}

theorem empty : Owned cfg (World.empty : World K) := ⟨fun _ _ _ => nofun, fun _ _ _ => nofun⟩

variable [Field K] [LinearOrder K] [FloorRing K]

theorem act (h : Owned cfg w) (hlegit : WorldLegit cfg P w) {a : Act K} (ha : a.Within P)
    (hact : w.act cfg a = some w') : Owned cfg w' := by
  obtain ⟨-, hg⟩ := hlegit.act ha hact
  constructor
  case workers =>
    intro i view program hth
    cases World.act_threadMoves hact hth with
    | idle hold => exact (h.workers i view program hold).mono hg
    | step hold _ => exact (h.workers i view _ hold).step hg
    | start hF _ _ hjob hprogram =>
      exact (ownWork_start hlegit.shared ((w.job?_eq _ hF).trans hjob) hprogram).mono hg
  case requests =>
    rintro i ⟨file, laneCount⟩ program hth
    cases World.act_threadMoves hact hth with
    | idle hold => exact (h.requests i ⟨file, laneCount⟩ program hold).mono hg
    | step hold hperform => exact (h.requests i ⟨file, laneCount⟩ _ hold).step hg hperform
    | request => exact ownRequest_fresh

end Owned

section Frame

variable [Field K] [LinearOrder K] [FloorRing K] {s u : Shared K} {i : ℕ} {id : ObjectId}

/-- A map job is left alone: its document, its beatmaps and the objects under its keys. -/
structure LeftAlone (cfg : Config) (q : Request) (id : ObjectId) (s t : Shared K) : Prop where
  untouched : Untouched s t id
  objects : ∀ key, KeyOf cfg id.str q key → t.objects key = s.objects key

omit [Field K] [LinearOrder K] [FloorRing K] in
theorem LeftAlone.of_same {q : Request} {t : Shared K} (hdocs : t.mapJobs = s.mapJobs)
    (hbeatmaps : t.beatmaps = s.beatmaps) (hobjects : t.objects = s.objects) :
    LeftAlone cfg q id s t :=
  ⟨⟨by rw [hdocs], by rw [hbeatmaps]⟩, fun _ _ => by rw [hobjects]⟩

omit [Field K] [LinearOrder K] [FloorRing K] in
theorem LeftAlone.trans {q : Request} {t : Shared K} (h : LeftAlone cfg q id s t)
    (h' : LeftAlone cfg q id t u) : LeftAlone cfg q id s u where
  untouched := ⟨h'.untouched.doc.trans h.untouched.doc,
    h'.untouched.beatmaps.trans h.untouched.beatmaps⟩
  objects key hkey := (h'.objects key hkey).trans (h.objects key hkey)

omit [Field K] [LinearOrder K] [FloorRing K] in
/-- A request writes about the job it has created, to set its object key. -/
theorem creation_target {q : Request} {st : CreationStage} {e : Eff K} {j : String}
    (h : (creationProtocol cfg q).allow st e) (hj : e.target = some j) : st = .created j := by
  cases st with
  | created j' =>
    cases e with
    | setJobObjectKey j₁ key =>
      obtain rfl : j₁ = j' := h
      exact congrArg CreationStage.created (Option.some.inj hj)
    | markJobProcessing | markJobCompleted | markJobFailed | insertBeatmap => cases h
    | _ => cases hj
  | fresh | enqueued =>
    cases e with
    | setJobObjectKey | markJobProcessing | markJobCompleted | markJobFailed | insertBeatmap =>
      cases h
    | _ => cases hj

omit [Field K] [LinearOrder K] [FloorRing K] in
theorem WorksFor.mono {t : Shared K} {task : Task K} {j : String} (h : WorksFor s i task j)
    (hg : Grows s t) : WorksFor t i task j :=
  h.imp (fun ⟨q, htask, hq⟩ => ⟨q, htask, hq.mono hg⟩) fun hjob => hjob

/-- Only an upload changes an object, the one under its key. -/
theorem perform_objects {e : Eff K} {task : Task K} {o : Outcome K} {r : Reply (Ans e) Exc}
    (h : s.perform i task e o = some (r, u)) {key : String} (hne : u.objects key ≠ s.objects key) :
    ∃ body, e = .upload key body := by
  rcases perform_cases h with ⟨env, a, t, -, hexec, -, rfl⟩ | ⟨-, rfl⟩
  · cases wrote_of_exec hexec with
    | object key' body =>
      refine ⟨body, ?_⟩
      by_contra hkey
      refine hne (if_neg fun he => hkey ?_)
      rw [he]
    | _ => exact (hne rfl).elim
  · exact (hne rfl).elim

/-- A thread writes about no map job but the one it works for. -/
theorem Owned.target_worksFor {w : World K} (h : Owned cfg w) {task : Task K} {e : Eff K}
    {k : Except Exc (Ans e) → Prog K (Json K)} (hth : w.threads[i]? = some ⟨task, .op e k⟩)
    (hs : Legit cfg P w.shared) {j : String} (hj : e.target = some j)
    (hid : ObjectId.parse j = some id) : WorksFor w.shared i task id.str := by
  cases task with
  | worker view =>
    obtain ⟨q, id', role, final, stage, post, -, hdata, hfollows⟩ := h.workers i view _ hth
    obtain rfl := target_of_allowed (Follows.op_iff.mp hfollows).1 hj
    rw [ObjectId.parse_str] at hid
    exact Or.inr ⟨view, rfl, Option.some.inj hid ▸ hdata⟩
  | api file laneCount =>
    obtain ⟨st, hst, hfollows⟩ := h.requests i ⟨file, laneCount⟩ _ hth
    have hallow := (Follows.op_iff.mp hfollows).1
    obtain rfl := creation_target (Follows.op_iff.mp hfollows).1 hj
    have hby := hst j rfl
    obtain ⟨-, id', rfl, -⟩ := hs.created_doc j _ ⟨i, hby⟩
    rw [ObjectId.parse_str] at hid
    exact Or.inl ⟨⟨file, laneCount⟩, rfl, Option.some.inj hid ▸ hby⟩

/-- A step of a thread that works for another map job. -/
theorem leftAlone_step {w : World K} (howned : Owned cfg w) (hlegit : WorldLegit cfg P w)
    (hc : cfg.storage.Isolated) {a : Act K} {w' : World K} (ha : a.Within P)
    (hact : w.act cfg a = some w') {q : Request} (hq : Created w.shared id.str q)
    (hdoc : w.shared.mapJobs.findOne id ≠ none)
    (hstranger : ∀ i o th, a = .step i o → w'.threads[i]? = some th →
      ¬ WorksFor w'.shared i th.task id.str) : LeftAlone cfg q id w.shared w'.shared := by
  obtain ⟨hlegit', hg⟩ := hlegit.act ha hact
  rcases World.act_shared hact with ⟨flows, hsame⟩ | ⟨i, o, task, e, k, r, rfl, hth, hperform⟩
  · rw [hsame]
    exact .of_same rfl rfl rfl
  · obtain ⟨program, hth'⟩ := World.act_thread hact hth
    have hnot : ¬ WorksFor w'.shared i task id.str := hstranger i o _ rfl hth'
    refine ⟨perform_untouched hperform (fun j hj hid => ?_) hdoc, fun key hkey => ?_⟩
    · exact hnot ((howned.target_worksFor hth hlegit.shared hj hid).mono hg)
    · by_contra hne
      obtain ⟨body, rfl⟩ := perform_objects hperform hne
      exact hnot (hlegit'.shared.upload_worksFor hc (perform_event hperform) (hq.mono hg) hkey)

theorem owned_of_run {acts : List (Act K)} {w : World K}
    (hrun : World.empty.run cfg acts = some w) :
    WorldLegit cfg (fun _ => True) w ∧ Owned cfg w := by
  refine World.run_invariant (Q := fun _ => True)
    (I := fun v => WorldLegit cfg (fun _ => True) v ∧ Owned cfg v) ?_
    ⟨worldLegit_empty, Owned.empty⟩ (fun _ _ => trivial) hrun
  rintro v a v' ⟨hlegit, howned⟩ - hact
  exact ⟨(hlegit.act a.within_true hact).1, howned.act hlegit a.within_true hact⟩

theorem World.run_thread {acts : List (Act K)} {w w' : World K} (hrun : w.run cfg acts = some w')
    {th : Thread K} (hth : w.threads[i]? = some th) :
    ∃ program, w'.threads[i]? = some ⟨th.task, program⟩ := by
  refine World.run_invariant (Q := fun _ => True)
    (I := fun v => ∃ program, v.threads[i]? = some ⟨th.task, program⟩) ?_ ⟨th.program, hth⟩
    (fun _ _ => trivial) hrun
  rintro v a v' ⟨program, hth⟩ - hact
  obtain ⟨program', hth'⟩ := World.act_thread hact hth
  exact ⟨program', hth'⟩

theorem leftAlone_run (hc : cfg.storage.Isolated) {more : List (Act K)} {w w' : World K}
    (howned : Owned cfg w) (hlegit : WorldLegit cfg (fun _ => True) w) {q : Request}
    (hq : Created w.shared id.str q) (hdoc : w.shared.mapJobs.findOne id ≠ none)
    (hmore : w.run cfg more = some w') (hstrangers : ∀ i o th, Act.step i o ∈ more →
      w'.threads[i]? = some th → ¬ WorksFor w'.shared i th.task id.str) :
    LeftAlone cfg q id w.shared w'.shared := by
  induction more generalizing w with
  | nil => exact Option.some.inj hmore ▸ .of_same rfl rfl rfl
  | cons a more ih =>
    obtain ⟨v, hv, hmore⟩ := Option.bind_eq_some_iff.mp hmore
    obtain ⟨hlegit', hg⟩ := hlegit.act a.within_true hv
    obtain ⟨-, hg'⟩ := hlegit'.run (fun a _ => a.within_true) hmore
    have hstep := leftAlone_step howned hlegit hc a.within_true hv hq hdoc
      fun i o th ha hth hworks => by
        obtain ⟨program, hth'⟩ := World.run_thread hmore hth
        exact hstrangers i o _ (ha ▸ List.mem_cons_self) hth' (hworks.mono hg')
    have hdoc' : v.shared.mapJobs.findOne id ≠ none := hstep.untouched.doc ▸ hdoc
    exact hstep.trans (ih (howned.act hlegit a.within_true hv) hlegit' (hq.mono hg) hdoc' hmore
      fun i o th hi hth => hstrangers i o th (List.mem_cons_of_mem _ hi) hth)

/-- While no thread that works for a map job takes a step, nothing about it changes: not its
document, not its beatmaps, not the objects under its keys. -/
theorem strangers_harmless (hc : cfg.storage.Isolated) {acts more : List (Act K)} {w w' : World K}
    (hrun : World.empty.run cfg acts = some w) (hmore : w.run cfg more = some w') {q : Request}
    (hq : Created w.shared id.str q) (hstrangers : ∀ i o th, Act.step i o ∈ more →
      w'.threads[i]? = some th → ¬ WorksFor w'.shared i th.task id.str) :
    w'.shared.mapJobs.findOne id = w.shared.mapJobs.findOne id ∧
    (w'.shared.beatmaps.select fun d => d.jobId = id.str) =
      (w.shared.beatmaps.select fun d => d.jobId = id.str) ∧
    ∀ key, KeyOf cfg id.str q key → w'.shared.objects key = w.shared.objects key := by
  obtain ⟨hlegit, howned⟩ := owned_of_run hrun
  obtain ⟨-, id', hid, hdoc⟩ := hlegit.shared.created_doc _ q hq
  obtain rfl := ObjectId.str_injective hid
  obtain ⟨⟨hdoc, hbeatmaps⟩, hobjects⟩ := leftAlone_run hc howned hlegit hq hdoc hmore hstrangers
  exact ⟨hdoc, hbeatmaps, hobjects⟩

end Frame

namespace Sample

def strange (j : String) (i : ℕ) (w : World ℚ) : Bool :=
  w.shared.history.all (fun ev => ev.actor < i || ev.creates ≠ some j) &&
    (w.threads.drop i).all fun th => match th.task with
      | .api _ _ => true
      | .worker view => view.data.field? "job_id" Json.str? ≠ some j

theorem not_worksFor_of_strange {w : World ℚ} {j : String} {i n : ℕ} (h : strange j i w = true)
    (hi : i ≤ n) {th : Thread ℚ} (hth : w.threads[n]? = some th) :
    ¬ WorksFor w.shared n th.task j := by
  obtain ⟨hhistory, hthreads⟩ := Bool.and_eq_true_iff.mp h
  have hmem : th ∈ w.threads.drop i := by
    apply List.mem_of_getElem? (i := n - i)
    rw [List.getElem?_drop, Nat.add_sub_cancel' hi, hth]
  have htask := List.all_eq_true.mp hthreads th hmem
  rintro (⟨q, -, new, r, hev, hr⟩ | ⟨view, hview, hdata⟩)
  · have hcreates := List.all_eq_true.mp hhistory _ hev
    simp [Event.creates, hr, Nat.not_lt.mpr hi] at hcreates
  · simp [hview, Json.field?, hdata, Json.str?] at htask

theorem le_of_step_mem_struckSong {i f n : ℕ} {job beatmap : Fin 16} {o : Outcome ℚ}
    (h : Act.step n o ∈ struckSong i f job beatmap) : i ≤ n := by
  simp only [struckSong, struckSteps, List.mem_append, List.mem_cons, List.mem_replicate,
    List.not_mem_nil, Act.step.injEq, reduceCtorEq, false_or, or_false] at h
  omega

end Sample

open Sample in
/-- A stranger uploads a song, and the workers complete it. -/
theorem strangers_harmless_sample : ∃ w w' q, World.empty.run {} struckActs = some w ∧
    w.run {} (struckSong 5 2 3 4) = some w' ∧ Created w.shared (objectId 1).str q ∧
    (w'.shared.beatmaps.findOne (objectId 4)).isSome = true ∧
    w'.shared.mapJobs.findOne (objectId 1) = w.shared.mapJobs.findOne (objectId 1) ∧
    (w'.shared.beatmaps.select fun d => d.jobId = (objectId 1).str) =
      (w.shared.beatmaps.select fun d => d.jobId = (objectId 1).str) ∧
    ∀ key, KeyOf {} (objectId 1).str q key → w'.shared.objects key = w.shared.objects key := by
  have hboth : ((World.empty.run {} struckActs).any fun w =>
      (w.shared.mapJobs.findOne (objectId 1)).isSome &&
        (w.run {} (struckSong 5 2 3 4)).any fun w' =>
          (w'.shared.beatmaps.findOne (objectId 4)).isSome &&
            strange (objectId 1).str 5 w') = true := by decide +kernel
  obtain ⟨w, hw, hboth⟩ := (Option.any_eq_true _ _).mp hboth
  obtain ⟨hdoc, hboth⟩ := Bool.and_eq_true_iff.mp hboth
  obtain ⟨w', hw', hboth⟩ := (Option.any_eq_true _ _).mp hboth
  obtain ⟨hsong, hstrange⟩ := Bool.and_eq_true_iff.mp hboth
  obtain ⟨d, hd⟩ := Option.isSome_iff_exists.mp hdoc
  obtain ⟨q, hq, -⟩ := (owned_of_run hw).1.shared.docs_created _ d hd
  exact ⟨w, w', q, hw, hw', hq, hsong,
    strangers_harmless MapsStorageConfig.isolated_default hw hw' hq fun i o th hi hth =>
      not_worksFor_of_strange hstrange (le_of_step_mem_struckSong hi) hth⟩

end Maps
