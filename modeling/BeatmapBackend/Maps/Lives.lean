import BeatmapBackend.Maps.Refinement

/-! Every map job of an orderly run has a life: it begins when the document is inserted, and
each action is a step of it or leaves it alone. -/
namespace Maps
open Effects Wire Collections Queues

variable {K : Type} [Field K] [LinearOrder K] [FloorRing K]
variable {cfg : Config} {P : Librosa K → Prop} {R : Rules} {w w' : World K}

section Births

variable {q : Request} {id : ObjectId} {i : ℕ} {k : Except Exc String → Prog K (Json K)}
  {n : NewMapJob} {s : Shared K} {o : Outcome K} {r : Reply String Exc}

/-- What `insert_map_job` did when it took effect. -/
theorem inserted {j : String} (hr : r.applied = some j)
    (hperform : w.shared.perform i q.task (.insertMapJob n) o = some (r, s)) :
    ∃ id, j = id.str ∧ w.shared.mapJobs.findOne id = none ∧
      s.mapJobs.findOne id = some n.document ∧ s.beatmaps = w.shared.beatmaps ∧
      s.flows = w.shared.flows ∧
      ∀ id', s.mapJobs.findOne id' ≠ none → w.shared.mapJobs.findOne id' ≠ none ∨ id' = id := by
  rcases perform_cases hperform with ⟨env, a, t, -, hexec, ha, rfl⟩ | ⟨ha, -⟩
  · obtain ⟨c, hc, he⟩ := Option.map_eq_some_iff.mp hexec
    obtain ⟨rfl, rfl⟩ := Prod.mk.inj he
    obtain rfl := Option.some.inj (ha.symm.trans hr)
    refine ⟨env.newId, rfl, (Collection.insertOne_eq_some.mp hc).1, ?_, rfl, rfl, ?_⟩
    · exact (Collection.findOne_insertOne hc _).trans (if_pos rfl)
    · intro id' hid'
      exact ((wrote_of_exec hexec).docs hid').imp_right fun ⟨_, _, hnew⟩ => hnew
  · rw [ha] at hr
    cases hr

/-- The life of a map job begins with its document. -/
theorem tracks_created (hs : Legit cfg P w.shared) {th : Thread K} {j : String}
    (hr : r.applied = some j) (hj : j = id.str)
    (hperform : w.shared.perform i q.task (.insertMapJob n) o = some (r, s)) :
    Tracks cfg q id ⟨s, w.threads.set i th⟩ .created := by
  obtain ⟨id', hid', hfresh, hdoc, hbeatmaps, hflows, -⟩ := inserted hr hperform
  obtain rfl := ObjectId.str_injective (hj.symm.trans hid')
  have hnot (role : Role) (ref : JobRef) : ¬ Placed cfg q id.str s role ref := by
    rintro ⟨-, F, hF, hflow⟩
    rw [hflows] at hF
    exact hs.not_flowOf hfresh (List.mem_of_getElem? hF) role hflow
  refine ⟨⟨i, n, r, perform_event hperform, hj ▸ hr⟩, ⟨_, hdoc, rfl, rfl, rfl⟩, ?_,
    fun role ref _ hr => (hnot role ref hr).elim, fun role ref hr => (hnot role ref hr).elim,
    fun _ hne => (hne rfl).elim⟩
  show (s.beatmaps.select fun d => d.jobId = id.str).map (fun e => e.1.str) = []
  rw [hbeatmaps, hs.no_beatmap hfresh]
  rfl

end Births

namespace Sim

/-- From one state to the next: the lives there are advance, and new ones begin. -/
private theorem next (h : Sim cfg P R w) (hlegit : WorldLegit cfg P w')
    (hadv : Advances cfg R w w')
    (hnew : ∀ id, w'.shared.mapJobs.findOne id ≠ none → w.shared.mapJobs.findOne id = none →
      ∃ q, Tracks cfg q id w' .created)
    (hreq : ∀ (i : ℕ) (q : Request) (program : Prog K (Json K)),
      w'.threads[i]? = some ⟨q.task, program⟩ → ∃ st, Creating cfg w'.shared i q st ∧
        Follows (creationProtocol cfg q) Answered st program) : Sim cfg P R w' := by
  refine ⟨hlegit, fun id hid => ?_, hreq⟩
  by_cases hold : w.shared.mapJobs.findOne id = none
  · obtain ⟨q, hL⟩ := hnew id hid hold
    exact ⟨q, _, .refl, hL⟩
  · obtain ⟨q, L, hreach, hL⟩ := h.lives id hold
    obtain ⟨L', hsteps, hL'⟩ := hadv q id L hL hreach
    exact ⟨q, L', hreach.trans hsteps, hL'⟩

/-- A queue operation. -/
private theorem queueOp (h : Sim cfg P R w) {n : ℕ} {F F' : PipelineFlow K}
    (hF : w.shared.flows[n]? = some F) (hspec : F'.spec = F.spec)
    (hshared : w'.shared = (w.setFlow n F').shared) (hlegit : WorldLegit cfg P w')
    (hg : Grows w.shared w'.shared) (hadv : Advances cfg R w w')
    (hthreads : ∀ (i : ℕ) (q : Request) (program : Prog K (Json K)),
      w'.threads[i]? = some ⟨q.task, program⟩ → w.threads[i]? = some ⟨q.task, program⟩) :
    Sim cfg P R w' := by
  refine h.next hlegit hadv (fun id hid hold => ?_) fun i q program hth => ?_
  · rw [hshared] at hid
    exact (hid hold).elim
  · obtain ⟨st, hc, hfollows⟩ := h.requests i q program (hthreads i q program hth)
    refine ⟨st, hc.mono hg fun G hG => Or.inl ?_, hfollows⟩
    rw [hshared] at hG
    rcases List.mem_or_eq_of_mem_set hG with hold | rfl
    · exact ⟨G, hold, rfl⟩
    · exact ⟨F, List.mem_of_getElem? hF, hspec.symm⟩

/-- A step of an attempt. -/
private theorem worker (h : Sim cfg P R w) {i : ℕ} {view : JobView K} {e : Eff K}
    {k : Except Exc (Ans e) → Prog K (Json K)} {s : Shared K} {o : Outcome K}
    {r : Reply (Ans e) Exc} (hth : w.threads[i]? = some ⟨.worker view, .op e k⟩)
    (hlive : w.live view i = true) (hg : Grows w.shared s)
    (hadv : Advances cfg R w ⟨s, w.threads.set i ⟨.worker view, k r.seen⟩⟩)
    (hlegit : WorldLegit cfg P ⟨s, w.threads.set i ⟨.worker view, k r.seen⟩⟩)
    (hperform : w.shared.perform i (.worker view) e o = some (r, s)) :
    Sim cfg P R ⟨s, w.threads.set i ⟨.worker view, k r.seen⟩⟩ := by
  obtain ⟨q₀, id₀, L₀, role, ref, job, stage, -, hturn⟩ := h.turn hth hlive
  have hallowed := hturn.allowed
  refine h.next hlegit hadv (fun id hid hold => ?_) fun n q program hn => ?_
  · rcases perform_docs hperform hid with hne | ⟨⟨m, rfl⟩, -⟩
    · exact (hne hold).elim
    · cases stage <;> cases hallowed
  · have hne : i ≠ n := by
      rintro rfl
      have hset : (w.threads.set i ⟨.worker view, k r.seen⟩)[i]? = _ := hn
      rw [List.getElem?_set_self (List.getElem?_eq_some_iff.mp hth).1] at hset
      cases congrArg Thread.task (Option.some.inj hset)
    obtain ⟨st, hc, hfollows⟩ := h.requests n q program ((List.getElem?_set_ne hne).symm.trans hn)
    refine ⟨st, hc.mono hg fun F hF => ?_, hfollows⟩
    rcases mem_flows_of_perform hperform hF with hold | ⟨ids, flow, rfl, rfl⟩
    · exact Or.inl ⟨F, hold, rfl⟩
    · obtain ⟨-, duration, bpm, rfl⟩ : role = .stem ∧
          ∃ duration bpm, flow = q₀.songFlow cfg id₀.str duration bpm := by
        cases stage <;> first | exact hallowed | exact hallowed.elim
      refine Or.inr fun j _ hspec => ?_
      rw [Flow.spec_add] at hspec
      exact stemFlow_ne_songFlow hspec.symm

/-- Where the request is after its own step. -/
private theorem creating_next (h : Sim cfg P R w) {q : Request} {st : CreationStage} {i : ℕ}
    {e : Eff K} {s : Shared K} {o : Outcome K} {r : Reply (Ans e) Exc} (hg : Grows w.shared s)
    (hc : Creating cfg w.shared i q st) (ha : (creationProtocol cfg q).allow st e)
    (hperform : w.shared.perform i q.task e o = some (r, s)) :
    Creating cfg s i q ((creationProtocol cfg q).next st e r) := by
  have hkeep (he : ∀ flow, e ≠ .addFlow flow) : Creating cfg s i q st := by
    refine hc.mono hg fun F hF => Or.inl ⟨F, ?_, rfl⟩
    exact perform_flows_of_ne hperform he ▸ hF
  cases e with
  | insertMapJob n =>
    cases r with
    | done j =>
      obtain ⟨id, rfl, hfresh, -, -, hflows, -⟩ := inserted rfl hperform
      refine ⟨⟨n, .done id.str, perform_event hperform, rfl⟩, fun F hF hspec => ?_⟩
      exact h.legit.shared.not_flowOf hfresh (hflows ▸ hF) .stem hspec
    | raised x | lost j x => exact hkeep nofun
  | addFlow flow =>
    cases st with
    | created j =>
      obtain rfl : flow = q.stemFlow cfg j := ha
      cases r with
      | raised x =>
        rcases perform_flows hperform with hsame | ⟨_, _, _, hr, -⟩
        · exact ⟨hc.1.mono hg, hsame ▸ hc.2⟩
        · exact (hr rfl).elim
      | done a | lost a x =>
        rcases perform_cases hperform with ⟨env, b, t, -, hexec, -, rfl⟩ | ⟨hr, -⟩
        · obtain ⟨-, rfl⟩ := Prod.mk.inj (Option.some.inj hexec)
          exact ⟨_, List.mem_append_right _ (List.mem_singleton_self _), Flow.spec_add _ _⟩
        · cases hr
    | _ => cases ha
  | _ => cases st <;> exact hkeep nofun

/-- A step of a request. -/
private theorem request (h : Sim cfg P R w) {i : ℕ} {q : Request} {e : Eff K}
    {k : Except Exc (Ans e) → Prog K (Json K)} {s : Shared K} {o : Outcome K}
    {r : Reply (Ans e) Exc} (hth : w.threads[i]? = some ⟨q.task, .op e k⟩)
    (hg : Grows w.shared s)
    (hlegit : WorldLegit cfg P ⟨s, w.threads.set i ⟨q.task, k r.seen⟩⟩)
    (hperform : w.shared.perform i q.task e o = some (r, s)) :
    Advances cfg R w ⟨s, w.threads.set i ⟨q.task, k r.seen⟩⟩ ∧
      Sim cfg P R ⟨s, w.threads.set i ⟨q.task, k r.seen⟩⟩ := by
  obtain ⟨st, hc, hfollows⟩ := h.requests i q _ hth
  obtain ⟨ha, hnext⟩ := Follows.op_iff.mp hfollows
  have hadv : Advances cfg R w ⟨s, w.threads.set i ⟨q.task, k r.seen⟩⟩ :=
    advances_request h.legit.shared hg hth hc ha hperform
  refine ⟨hadv, h.next hlegit hadv (fun id hid hold => ?_) fun n q' program hn => ?_⟩
  · rcases perform_docs hperform hid with hne | ⟨⟨m, rfl⟩, hr⟩
    · exact (hne hold).elim
    · obtain ⟨j, hr⟩ := Option.ne_none_iff_exists'.mp hr
      obtain ⟨id', hj, -, -, -, -, hdocs⟩ := inserted hr hperform
      obtain rfl := (hdocs id hid).resolve_left (fun hne => hne hold)
      exact ⟨q, tracks_created h.legit.shared hr hj hperform⟩
  · rcases getElem?_set_cases hn with ⟨hni, hold⟩ | ⟨rfl, hnew⟩
    · obtain ⟨st', hc', hfollows'⟩ := h.requests n q' program hold
      refine ⟨st', hc'.mono hg fun F hF => ?_, hfollows'⟩
      rcases mem_flows_of_perform hperform hF with hold' | ⟨ids, flow, rfl, rfl⟩
      · exact Or.inl ⟨F, hold', rfl⟩
      · refine Or.inr fun j hq' hspec => hni ?_
        cases st with
        | created j' =>
          obtain rfl : flow = q.stemFlow cfg j' := ha
          rw [Flow.spec_add] at hspec
          obtain rfl := stemFlow_inj hspec
          exact (h.legit.shared.created_unique _ _ _ _ _ hq' hc.1).1
        | _ => cases ha
    · obtain ⟨htask, rfl⟩ := Thread.mk.inj hnew
      obtain ⟨hfile, hlanes⟩ := Task.api.inj htask
      obtain rfl : q = q' := by cases q; cases q'; simp_all
      exact ⟨_, h.creating_next hg hc ha hperform, hnext r⟩

theorem empty : Sim cfg P R (World.empty : World K) :=
  ⟨worldLegit_empty, fun _ hid => (hid rfl).elim, fun _ _ _ => nofun⟩

/-- One action of the system: every life goes on, and the new ones begin. -/
theorem act (h : Sim cfg P R w) {a : Act K} (ha : a.Within P) (hQ : w.orderly R a = true)
    (hact : w.act cfg a = some w') : Advances cfg R w w' ∧ Sim cfg P R w' := by
  obtain ⟨hlegit, hg⟩ := h.legit.act ha hact
  obtain ⟨hQ, hsmooth⟩ := Bool.and_eq_true_iff.mp hQ
  obtain ⟨htimely, hlive⟩ := Bool.and_eq_true_iff.mp hQ
  cases a with
  | request file laneCount =>
    obtain rfl := Option.some.inj hact
    have hadv : Advances cfg R w
        (w.addThread ⟨.api file laneCount, createMap cfg file laneCount⟩) :=
      Advances.of_same fun _ _ _ hL => hL.addThread _
    refine ⟨hadv, h.next hlegit hadv (fun _ hid hold => (hid hold).elim) fun i q program hth => ?_⟩
    rcases getElem?_concat_cases hth with hold | ⟨-, hnew⟩
    · exact h.requests i q program hold
    · obtain ⟨htask, rfl⟩ := Thread.mk.inj hnew
      obtain ⟨rfl, rfl⟩ := Task.api.inj htask
      exact ⟨.fresh, trivial, createMap_follows cfg q⟩
  | start ref =>
    have hadv := advances_start (R := R) h.legit.shared hact
    obtain ⟨F, F', job, program, hF, hstart, -, -, rfl⟩ := World.act_start hact
    refine ⟨hadv, h.queueOp hF (Flow.spec_start hstart) rfl hlegit hg hadv ?_⟩
    intro i q program' hth
    rcases getElem?_concat_cases hth with hold | ⟨-, hnew⟩
    · exact hold
    · cases (Thread.mk.inj hnew).1
  | promote ref =>
    have hadv := advances_promote (R := R) h.legit.shared hact
    obtain ⟨F, F', hF, hpromote, rfl⟩ := World.onFlow_eq_some hact
    exact ⟨hadv, h.queueOp hF (Flow.spec_promote hpromote) rfl hlegit hg hadv fun _ _ _ hth => hth⟩
  | stall ref =>
    obtain ⟨hstall, hlimit⟩ := Bool.and_eq_true_iff.mp htimely
    obtain ⟨hR, hun⟩ := Bool.and_eq_true_iff.mp hstall
    have hadv := advances_stall h.legit.shared hR hun (Bool.or_eq_true_iff.mp hlimit) hact
    obtain ⟨F, F', hF, hstall, rfl⟩ := World.onFlow_eq_some hact
    exact ⟨hadv, h.queueOp hF (Flow.spec_stall hstall) rfl hlegit hg hadv fun _ _ _ hth => hth⟩
  | finish i =>
    have hadv := advances_finish (R := R) h.legit.shared hact
    obtain ⟨view, r, F, job, -, hF, -, -, rfl⟩ := World.act_finish hact
    exact ⟨hadv, h.queueOp hF (World.spec_settle _ _ _) rfl hlegit hg hadv fun _ _ _ hth => hth⟩
  | step i outcome =>
    obtain ⟨task, e, k, r, s, hth, hperform, rfl⟩ := World.act_step hact
    simp only [World.exclusive, World.acknowledged] at hlive hsmooth
    cases task with
    | api file laneCount =>
      exact h.request (q := ⟨file, laneCount⟩) hth hg hlegit hperform
    | worker view =>
      rw [hth] at hlive hsmooth
      have hadv := advances_worker h hg hth hlive hsmooth hperform
      exact ⟨hadv, h.worker hth hlive hg hadv hlegit hperform⟩

/-- A whole run. -/
theorem run (h : Sim cfg P R w) {acts : List (Act K)} (ha : ∀ a ∈ acts, a.Within P)
    (hrun : w.runIf cfg (World.orderly R) acts = some w') :
    Advances cfg R w w' ∧ Sim cfg P R w' := by
  refine World.runIf_invariant (I := fun v => Advances cfg R w v ∧ Sim cfg P R v) ?_
    ⟨Advances.of_same fun _ _ _ hL => hL, h⟩ ha hrun
  rintro v a v' ⟨hadv, hv⟩ ha hQ hact
  obtain ⟨hadv', hv'⟩ := hv.act ha hQ hact
  refine ⟨fun q id L hL hreach => ?_, hv'⟩
  obtain ⟨L₁, hsteps, hL₁⟩ := hadv q id L hL hreach
  obtain ⟨L₂, hsteps', hL₂⟩ := hadv' q id L₁ hL₁ (hreach.trans hsteps)
  exact ⟨L₂, hsteps.trans hsteps', hL₂⟩

end Sim

section Undisturbed

/-- Every attempt holds its lock until it has returned or raised. -/
def Locked (w : World K) : Prop :=
  ∀ (i : ℕ) (view : JobView K) (program : Prog K (Json K)),
    w.threads[i]? = some ⟨.worker view, program⟩ → w.live view i = true ∨ ∃ r, program = .ret r

omit [Field K] [LinearOrder K] [FloorRing K] in
theorem World.live_iff {view : JobView K} {i : ℕ} : w.live view i = true ↔
    ∃ F, w.shared.flows[view.ref.flow]? = some F ∧ F.Holds view.ref.child i := by
  rw [live, Option.any_eq_true, job?]
  constructor
  · rintro ⟨job, hjob, hheld⟩
    obtain ⟨F, hF, hFjob⟩ := Option.bind_eq_some_iff.mp hjob
    exact ⟨F, hF, job, hFjob, JobState.heldBy_iff.mp hheld⟩
  · rintro ⟨F, hF, job, hFjob, hactive⟩
    exact ⟨job, Option.bind_eq_some_iff.mpr ⟨F, hF, hFjob⟩, JobState.heldBy_iff.mpr hactive⟩

omit [Field K] [LinearOrder K] [FloorRing K] in
/-- A queue operation that takes no lock from this delivery. -/
theorem World.live_setFlow {n i : ℕ} {F F' : PipelineFlow K} {view : JobView K}
    (hF : w.shared.flows[n]? = some F) (hlive : w.live view i = true)
    (hkeep : view.ref.flow = n → F.Holds view.ref.child i → F'.Holds view.ref.child i) :
    (w.setFlow n F').live view i = true := by
  obtain ⟨G, hG, hholds⟩ := World.live_iff.mp hlive
  refine World.live_iff.mpr ?_
  by_cases hn : view.ref.flow = n
  · subst hn
    obtain rfl := Option.some.inj (hF.symm.trans hG)
    exact ⟨F', w.flow_setFlow hF F', hkeep rfl hholds⟩
  · exact ⟨G, (List.getElem?_set_ne (Ne.symm hn)).trans hG, hholds⟩

omit [Field K] [LinearOrder K] [FloorRing K] in
theorem Locked.empty : Locked (World.empty : World K) := fun _ _ _ => nofun

omit [Field K] [LinearOrder K] [FloorRing K] in
/-- An attempt keeps its lock when another attempt is settled. -/
theorem World.holds_settle {F : PipelineFlow K} {c c' : Option ℕ} {i n : ℕ}
    {job : Job ℕ (Json K) (Json K)} (h : F.Holds c n) (hjob : F.job? c' = some job)
    (hactive : job.state = .active i) (hne : n ≠ i) (r : Except Exc (Json K)) :
    (World.settle r c' F).Holds c n := by
  have hchild : c ≠ c' := by
    rintro rfl
    obtain ⟨job', hjob', hactive'⟩ := h
    obtain rfl := Option.some.inj (hjob'.symm.trans hjob)
    rw [hactive] at hactive'
    exact hne (JobState.active.inj hactive').symm
  cases r with
  | ok v => exact h.complete hchild v
  | error x => exact h.fail hchild

/-- No operation of a thread takes a lock away. -/
theorem World.live_perform {i n : ℕ} {task : Task K} {e : Eff K} {o : Outcome K}
    {r : Reply (Ans e) Exc} {s : Shared K} {threads : List (Thread K)} {view : JobView K}
    (hperform : w.shared.perform i task e o = some (r, s)) (hlive : w.live view n = true) :
    (⟨s, threads⟩ : World K).live view n = true := by
  obtain ⟨F, hF, hholds⟩ := World.live_iff.mp hlive
  refine World.live_iff.mpr ⟨F, ?_, hholds⟩
  show s.flows[view.ref.flow]? = some F
  rcases perform_flows hperform with hsame | ⟨_, _, -, -, hadd⟩
  · rw [hsame, hF]
  · rw [hadd, List.getElem?_append_left (List.getElem?_eq_some_iff.mp hF).1, hF]

theorem Locked.act (h : Locked w) {a : Act K} (hQ : w.undisturbed R a = true)
    (hact : w.act cfg a = some w') : Locked w' := by
  cases a with
  | request file laneCount =>
    obtain rfl := Option.some.inj hact
    intro i view program hth
    rcases getElem?_concat_cases hth with hold | ⟨-, hnew⟩
    · exact h i view program hold
    · cases (Thread.mk.inj hnew).1
  | start ref =>
    obtain ⟨F, F', job, program, hF, hstart, hjob, -, rfl⟩ := World.act_start hact
    intro i view program' hth
    rcases getElem?_concat_cases hth with hold | ⟨hi, hnew⟩
    · exact (h i view program' hold).imp_left fun hlive =>
        World.live_setFlow hF hlive fun _ hholds => hholds.start hstart
    · obtain ⟨hview, -⟩ := Thread.mk.inj hnew
      obtain rfl := Task.worker.inj hview
      obtain rfl : i = w.threads.length := hi
      obtain ⟨-, rfl⟩ := Flow.start_eq_some.mp hstart
      refine Or.inl (World.live_iff.mpr ⟨_, w.flow_setFlow hF _, ?_⟩)
      exact ⟨_, (Flow.job?_modify_self _ _ _).trans (congrArg _ hjob), rfl⟩
  | promote ref =>
    obtain ⟨F, F', hF, hpromote, rfl⟩ := World.onFlow_eq_some hact
    exact fun i view program hth => (h i view program hth).imp_left fun hlive =>
      World.live_setFlow hF hlive fun _ hholds => hholds.promote hpromote
  | stall ref => cases hQ
  | finish i =>
    obtain ⟨view, r, F, job, hth, hF, hjob, hactive, rfl⟩ := World.act_finish hact
    intro n view' program hn
    by_cases hne : n = i
    · subst hne
      obtain ⟨-, rfl⟩ := Thread.mk.inj (Option.some.inj (hth.symm.trans hn))
      exact Or.inr ⟨r, rfl⟩
    · exact (h n view' program hn).imp_left fun hlive =>
        World.live_setFlow hF hlive fun _ hholds => World.holds_settle hholds hjob hactive hne r
  | step i outcome =>
    obtain ⟨task, e, k, r, s, hth, hperform, rfl⟩ := World.act_step hact
    intro n view program hn
    rcases getElem?_set_cases hn with ⟨-, hold⟩ | ⟨rfl, hnew⟩
    · exact (h n view program hold).imp_left (World.live_perform hperform)
    · obtain ⟨rfl, -⟩ := Thread.mk.inj hnew
      rcases h n view _ hth with hlive | ⟨_, hret⟩
      · exact Or.inl (World.live_perform hperform hlive)
      · cases hret

/-- Without redelivery an attempt that performs an operation holds its lock. -/
theorem Locked.orderly (h : Locked w) {a : Act K} (hQ : w.undisturbed R a = true)
    (hact : w.act cfg a = some w') : w.orderly R a = true := by
  have hsmooth : w.acknowledged R a = true := by
    cases a <;> first | exact hQ | rfl
  refine Bool.and_eq_true_iff.mpr ⟨Bool.and_eq_true_iff.mpr ⟨?_, ?_⟩, hsmooth⟩
  · cases a <;> first | rfl | cases hQ
  · cases a with
    | step i outcome =>
      obtain ⟨task, e, k, r, s, hth, -, -⟩ := World.act_step hact
      simp only [World.exclusive, hth]
      cases task with
      | api file laneCount => rfl
      | worker view =>
        rcases h i view _ hth with hlive | ⟨_, hret⟩
        · exact hlive
        · cases hret
    | _ => rfl

/-- A run in which every attempt is delivered once. -/
theorem Sim.run_undisturbed (h : Sim cfg P R w) (hlocked : Locked w) {acts : List (Act K)}
    (ha : ∀ a ∈ acts, a.Within P) (hrun : w.runIf cfg (World.undisturbed R) acts = some w') :
    Sim cfg P R w' := by
  refine (World.runIf_invariant (I := fun v => Sim cfg P R v ∧ Locked v) ?_ ⟨h, hlocked⟩ ha hrun).1
  rintro v a v' ⟨hv, hlocked⟩ ha hQ hact
  exact ⟨(hv.act ha (hlocked.orderly hQ hact) hact).2, hlocked.act hQ hact⟩

end Undisturbed

end Maps
