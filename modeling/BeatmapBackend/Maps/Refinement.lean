import BeatmapBackend.Maps.Simulation

/-! The refinement: an orderly run of the system is, for each of its map jobs, a life. -/
namespace Maps
open Effects Wire Collections Queues

variable {K : Type} [Field K] [LinearOrder K] [FloorRing K]
variable {cfg : Config} {P : Librosa K → Prop} {R : Rules}

section Attempts

variable {q : Request} {id : ObjectId} {w : World K} {L : Life} {role : Role} {ref : JobRef}
  {F : PipelineFlow K} {job : Job ℕ (Json K) (Json K)} {stage : Stage}

theorem Role.isChild_eq (role : Role) : role.isChild = role.child.isSome := by
  cases role <;> rfl

/-- The queue records that an attempt returned. -/
theorem Tracks.complete (h : Tracks cfg q id w L) (hr : Placed cfg q id.str w.shared role ref)
    (hF : w.shared.flows[ref.flow]? = some F) (hp : L.phase role = some (.active role.finish))
    (v : Json K) : ∃ L', Life.Step R L L' ∧
      Tracks cfg q id (w.setFlow ref.flow (F.complete ref.child v)) L' := by
  have hset : Tracks cfg q id (w.setFlow ref.flow (F.modify ref.child fun j =>
      { j with state := .completed v })) (L.set role .succeeded) :=
    h.setJob hr hF (fun _ => rfl) fun _ _ => ⟨v, rfl⟩
  cases hc : ref.child with
  | none =>
    have hrole : role.isChild = false := by rw [Role.isChild_eq, ← hr.1, hc]; rfl
    have hfinish : role.finish = .done := by cases role <;> first | rfl | cases hrole
    rw [hc] at hset
    exact ⟨_, .succeed role hrole (hfinish ▸ hp), hset⟩
  | some i =>
    have hrole : role.isChild = true := by rw [Role.isChild_eq, ← hr.1, hc]; rfl
    have hfinish : role.finish = .working := by cases role <;> first | rfl | cases hrole
    have hspec := F.spec_modify ref.child (f := fun j => { j with state := .completed v })
      fun _ => rfl
    have hrel := hset.release ((placed_setFlow hF hspec).mpr hr) hrole (w.flow_setFlow hF _)
    rw [World.setFlow_setFlow, hc] at hrel
    exact ⟨_, .succeedChild role hrole (hfinish ▸ hp), hrel⟩

omit [Field K] [LinearOrder K] [FloorRing K] in
/-- The flow producer asked for it. -/
theorem failParentOnFailure_of_child (hr : Placed cfg q id.str w.shared role ref)
    (hrole : role.isChild = true) (hF : w.shared.flows[ref.flow]? = some F)
    (hjob : F.job? ref.child = some job) : job.spec.opts.failParentOnFailure = true := by
  obtain ⟨hchild, F', hF', hflow⟩ := hr
  obtain rfl := Option.some.inj (hF.symm.trans hF')
  have hspec : F.spec.job? ref.child = some job.spec := by rw [Flow.job?_spec, hjob]; rfl
  cases role with
  | stem | root => cases hrole
  | kick | melody =>
    obtain ⟨duration, bpm, hsong⟩ := hflow
    rw [hsong, hchild] at hspec
    rw [← Option.some.inj hspec]

/-- A job fails, and a child fails its root with it. -/
theorem Tracks.lose (h : Tracks cfg q id w L) (hr : Placed cfg q id.str w.shared role ref)
    (hF : w.shared.flows[ref.flow]? = some F) (hjob : F.job? ref.child = some job)
    (hp : L.phase role = some (.active stage)) (hstage : stage.Lost R)
    {f : Job ℕ (Json K) (Json K) → Job ℕ (Json K) (Json K)} (hspec : ∀ j, (f j).spec = j.spec)
    (hfailed : (f job).state = .failed) : ∃ L', Life.Step R L L' ∧
      Tracks cfg q id (w.setFlow ref.flow (F.setback ref.child f)) L' := by
  have hset : Tracks cfg q id (w.setFlow ref.flow (F.modify ref.child f)) (L.set role .failed) :=
    h.setJob hr hF hspec fun job' hjob' => by
      rw [w.job?_eq ref hF, hjob] at hjob'
      exact Option.some.inj hjob' ▸ hfailed
  cases hc : ref.child with
  | none =>
    have hrole : role.isChild = false := by rw [Role.isChild_eq, ← hr.1, hc]; rfl
    have hsame : F.setback none f = F.modify none f := by cases F.job? none <;> rfl
    rw [hc] at hset
    exact ⟨_, .fail role hrole hstage hp, hsame ▸ hset⟩
  | some i =>
    have hrole : role.isChild = true := by rw [Role.isChild_eq, ← hr.1, hc]; rfl
    have hparent := hset.failParent ((placed_setFlow hF (F.spec_modify ref.child hspec)).mpr hr)
      hrole (w.flow_setFlow hF _)
    have hsame : F.setback ref.child f = (F.modify ref.child f).failParent := by
      rcases F.setback_cases ref.child f with ⟨-, hpolicy⟩ | ⟨heq, -⟩
      · have hno := hpolicy i job hc hjob (by rw [hfailed]; rfl)
        rw [failParentOnFailure_of_child hr hrole hF hjob] at hno
        cases hno
      · exact heq
    rw [World.setFlow_setFlow, ← hsame, hc] at hparent
    exact ⟨_, .failChild role hrole hstage hp, hparent⟩

/-- The queue records that an attempt raised. -/
theorem Tracks.fail (h : Tracks cfg q id w L) (hr : Placed cfg q id.str w.shared role ref)
    (hF : w.shared.flows[ref.flow]? = some F) (hjob : F.job? ref.child = some job)
    (hp : L.phase role = some (.active stage))
    (hstage : if job.exhausted = true then stage = .reported ∨ stage = .gaveUp
      else stage = .working) : ∃ L', Life.Step R L L' ∧
      Tracks cfg q id (w.setFlow ref.flow (F.fail ref.child)) L' := by
  cases hfinal : job.exhausted with
  | false =>
    obtain rfl : stage = .working := by simpa [hfinal] using hstage
    have hafter : job.afterFailure.state = .delayed := by simp [Job.afterFailure, hfinal]
    have hset : Tracks cfg q id (w.setFlow ref.flow (F.modify ref.child Job.afterFailure))
        (L.set role .delayed) :=
      h.setJob hr hF (fun _ => by simp) fun job' hjob' => by
        rw [w.job?_eq ref hF, hjob] at hjob'
        exact Option.some.inj hjob' ▸ hafter
    rw [Flow.fail, F.setback_of_not_failed hjob (by rw [hafter]; rfl)]
    exact ⟨_, .move role hp .retry, hset⟩
  | true =>
    rw [hfinal, if_pos rfl] at hstage
    exact h.lose hr hF hjob hp (hstage.imp_right Or.inl) Job.afterFailure_spec
      (by simp [Job.afterFailure, hfinal])

end Attempts

/-- From `w` to `w'` every map job of `w` takes steps of its life. -/
def Advances (cfg : Config) (R : Rules) (w w' : World K) : Prop :=
  ∀ q id L, Tracks cfg q id w L → Life.Reachable R L →
    ∃ L', Relation.ReflTransGen (Life.Step R) L L' ∧ Tracks cfg q id w' L'

section Queueing

variable {w w' : World K} {ref : JobRef} {F F' : PipelineFlow K}
  {job : Job ℕ (Json K) (Json K)}

omit [Field K] [LinearOrder K] [FloorRing K] in
theorem Advances.of_same (h : ∀ q id L, Tracks cfg q id w L → Tracks cfg q id w' L) :
    Advances cfg R w w' := fun q id L hL _ => ⟨L, .refl, h q id L hL⟩

/-- A queue operation advances the map job whose queue job it is about. -/
theorem advances_queueOp (hs : Legit cfg P w.shared) (hF : w.shared.flows[ref.flow]? = some F)
    (hjob : F.job? ref.child = some job) (hspec : F'.spec = F.spec)
    (hown : ∀ q id role L, Tracks cfg q id w L → Placed cfg q id.str w.shared role ref →
      ∃ L', Life.Step R L L' ∧ Tracks cfg q id (w.setFlow ref.flow F') L') :
    Advances cfg R w (w.setFlow ref.flow F') := by
  intro q id L hL _
  by_cases hr : ∃ role, Placed cfg q id.str w.shared role ref
  · obtain ⟨role, hr⟩ := hr
    obtain ⟨L', hstep, hL'⟩ := hown q id role L hL hr
    exact ⟨L', .single hstep, hL'⟩
  · refine ⟨L, .refl, hL.otherFlow hF hspec fun role ref' hr' hflow => hr ?_⟩
    obtain ⟨q₀, id₀, role₀, -, ⟨i, hq₀⟩, hr₀⟩ := hs.owner hF hjob
    have hr₁ := hr₀
    obtain ⟨-, F₀, hF₀, hflow₀⟩ := hr₁
    obtain ⟨-, F₁, hF₁, hflow₁⟩ := hr'
    rw [hflow, hF₀] at hF₁
    obtain rfl := Option.some.inj hF₁
    obtain rfl := ObjectId.str_injective (hflow₁.inj hflow₀).1
    obtain ⟨i', hq⟩ := hL.created
    obtain ⟨-, rfl⟩ := hs.created_unique _ _ _ _ _ hq hq₀
    exact ⟨role₀, hr₀⟩

/-- A worker takes a job. -/
theorem advances_start (hs : Legit cfg P w.shared) (h : w.act cfg (.start ref) = some w') :
    Advances cfg R w w' := by
  obtain ⟨F, F', job, program, hF, hstart, hFjob, hprogram, rfl⟩ := World.act_start h
  have hjob := (w.job?_eq ref hF).trans hFjob
  obtain ⟨⟨job', hjob', hwaiting⟩, rfl⟩ := Flow.start_eq_some.mp hstart
  obtain rfl : job = job' := Option.some.inj (hFjob.symm.trans hjob')
  intro q id L hL hreach
  refine advances_queueOp (w := w.addThread ⟨.worker (.ofJob ref job), program⟩) hs hF hjob'
    (Flow.spec_start hstart) ?_ q id L (hL.addThread _) hreach
  intro q id role L hL hr
  obtain ⟨_, p, hjob₁, hp, hrel⟩ := hL.tracked role ref hr
  obtain rfl := Option.some.inj (hjob.symm.trans hjob₁)
  obtain rfl := hrel.waiting_of hwaiting
  refine ⟨_, .move role hp .start, hL.setJob hr hF (fun _ => rfl) fun job₂ hjob₂ => ?_⟩
  obtain rfl := Option.some.inj (hjob.symm.trans hjob₂)
  refine ⟨w.threads.length, program, rfl, List.getElem?_concat_length, ?_, nofun⟩
  obtain ⟨hchild, F₁, hF₁, hflow⟩ := hr
  obtain rfl := Option.some.inj (hF.symm.trans hF₁)
  have hspec : F.spec.job? role.child = some job.spec := by
    rw [Flow.job?_spec, ← hchild, hjob']
    rfl
  exact handlerOf_follows hflow hspec rfl rfl hprogram

theorem advances_promote (hs : Legit cfg P w.shared) (h : w.act cfg (.promote ref) = some w') :
    Advances cfg R w w' := by
  obtain ⟨F, F', hF, hpromote, rfl⟩ := World.onFlow_eq_some h
  obtain ⟨⟨job, hjob, hdelayed⟩, rfl⟩ := Flow.promote_eq_some.mp hpromote
  refine advances_queueOp hs hF hjob (Flow.spec_promote hpromote) fun q id role L hL hr => ?_
  obtain ⟨_, p, hjob₁, hp, hrel⟩ := hL.tracked role ref hr
  obtain rfl := Option.some.inj (hjob.symm.trans ((w.job?_eq ref hF).symm.trans hjob₁))
  obtain rfl := hrel.delayed_of hdelayed
  exact ⟨_, .move role hp .promote, hL.setJob hr hF (fun _ => rfl) fun _ _ => rfl⟩

/-- An undecided attempt loses its lock. -/
theorem advances_stall (hs : Legit cfg P w.shared) (hR : R.stalls = true)
    (hun : w.undecided ref = true) (hlimit : R.givesUp = true ∨ w.redelivered ref = true)
    (h : w.act cfg (.stall ref) = some w') : Advances cfg R w w' := by
  obtain ⟨F, F', hF, hstall, rfl⟩ := World.onFlow_eq_some h
  obtain ⟨⟨t, job, hjob, hactive⟩, rfl⟩ := Flow.stall_eq_some.mp hstall
  refine advances_queueOp hs hF hjob (Flow.spec_stall hstall) fun q id role L hL hr => ?_
  obtain ⟨_, p, hjob₁, hp, hrel⟩ := hL.tracked role ref hr
  obtain rfl := Option.some.inj (hjob.symm.trans ((w.job?_eq ref hF).symm.trans hjob₁))
  obtain ⟨stage, _, rfl, -, -, hdecided⟩ := hrel.active_of hactive
  have hstage : stage.decided = false := by
    by_contra hne
    obtain ⟨ev, hev, hactor, hd⟩ := hdecided (by simpa using hne)
    have hnot := List.all_eq_true.mp hun ev hev
    simp [hd, hjob₁, hactor, hactive, JobState.heldBy] at hnot
  by_cases hagain : job.stalls < Job.maxStalledCount
  · have hafter : job.afterStall.state = .waiting := by simp [Job.afterStall, hagain]
    have hset : Tracks cfg q id (w.setFlow ref.flow (F.modify ref.child Job.afterStall))
        (L.set role .waiting) :=
      hL.setJob hr hF Job.afterStall_spec fun job' hjob' => by
        rw [hjob₁] at hjob'
        exact Option.some.inj hjob' ▸ hafter
    rw [F.setback_of_not_failed hjob (by rw [hafter]; rfl)]
    exact ⟨_, .move role hp (.stall stage hR hstage), hset⟩
  · have hgives : R.givesUp = true := by
      refine hlimit.resolve_right ?_
      simp [World.redelivered, hjob₁, hagain]
    exact hL.lose hr hF hjob hp (Or.inr (Or.inr ⟨hR, hgives, hstage⟩)) Job.afterStall_spec
      (by simp [Job.afterStall, hagain])

/-- The queue records how an attempt ended. -/
theorem advances_finish (hs : Legit cfg P w.shared) {i : ℕ}
    (h : w.act cfg (.finish i) = some w') : Advances cfg R w w' := by
  obtain ⟨view, r, F, job, hth, hF, hFjob, hactive, rfl⟩ := World.act_finish h
  refine advances_queueOp hs hF hFjob (World.spec_settle _ _ _) fun q id role L hL hr => ?_
  obtain ⟨_, p, hjob₁, hp, hrel⟩ := hL.tracked role view.ref hr
  obtain rfl := Option.some.inj (((w.job?_eq view.ref hF).trans hFjob).symm.trans hjob₁)
  obtain ⟨stage, program, rfl, hth', hfollows, -⟩ := hrel.active_of hactive
  obtain ⟨-, rfl⟩ := Thread.mk.inj (Option.some.inj (hth.symm.trans hth'))
  have hsettled := Follows.ret_iff.mp hfollows
  cases r with
  | ok v =>
    obtain rfl : stage = role.finish := hsettled
    exact hL.complete hr hF hp v
  | error x => exact hL.fail hr hF hFjob hp hsettled

end Queueing

section Threads

variable {q : Request} {id : ObjectId} {w w' : World K} {L : Life} {role : Role} {ref : JobRef}
  {job : Job ℕ (Json K) (Json K)} {i : ℕ} {task : Task K} {e : Eff K}
  {k : Except Exc (Ans e) → Prog K (Json K)} {s : Shared K} {o : Outcome K}
  {r : Reply (Ans e) Exc}

omit [Field K] [LinearOrder K] [FloorRing K] in
/-- The thread that holds a job's lock is the attempt at it. -/
theorem Tracks.turn (hL : Tracks cfg q id w L) (hr : Placed cfg q id.str w.shared role ref)
    (hjob : w.job? ref = some job) (hactive : job.state = .active i)
    (hth : w.threads[i]? = some ⟨task, .op e k⟩) :
    task = .worker (.ofJob ref job) ∧ ∃ stage, Turn cfg q id w L role ref job i stage e k := by
  obtain ⟨_, p, hjob₁, hp, hrel⟩ := hL.tracked role ref hr
  obtain rfl := Option.some.inj (hjob.symm.trans hjob₁)
  obtain ⟨stage, program, rfl, hth', hfollows, hdecided⟩ := hrel.active_of hactive
  obtain ⟨htask, rfl⟩ := Thread.mk.inj (Option.some.inj (hth'.symm.trans hth))
  obtain ⟨hallowed, hnext⟩ := Follows.op_iff.mp hfollows
  exact ⟨htask.symm, stage, hL, hr, hjob, hactive, hp, hallowed, hnext, hdecided⟩

/-- The request `q`, served by thread `i`, has its stem separation enqueued once. -/
def Creating (cfg : Config) (s : Shared K) (i : ℕ) (q : Request) : CreationStage → Prop
  | .fresh => True
  | .created j => CreatedBy s i j q ∧ ∀ F ∈ s.flows, F.spec ≠ q.stemFlow cfg j
  | .enqueued j => ∃ F ∈ s.flows, F.spec = q.stemFlow cfg j

/-- The system shows a life for each of its map jobs. -/
structure Sim (cfg : Config) (P : Librosa K → Prop) (R : Rules) (w : World K) : Prop where
  legit : WorldLegit cfg P w
  lives : ∀ id, w.shared.mapJobs.findOne id ≠ none →
    ∃ q L, Life.Reachable R L ∧ Tracks cfg q id w L
  requests : ∀ (i : ℕ) (q : Request) (program : Prog K (Json K)),
    w.threads[i]? = some ⟨q.task, program⟩ →
      ∃ st, Creating cfg w.shared i q st ∧ Follows (creationProtocol cfg q) Answered st program

/-- A live thread takes its turn for the map job it works for. -/
theorem Sim.turn (h : Sim cfg P R w) {view : JobView K}
    (hth : w.threads[i]? = some ⟨.worker view, .op e k⟩) (hlive : w.live view i = true) :
    ∃ q id L role ref job stage, view = .ofJob ref job ∧
      Turn cfg q id w L role ref job i stage e k := by
  obtain ⟨job, hjob, hheld⟩ := (Option.any_eq_true _ _).mp hlive
  obtain ⟨F, hF, hFjob⟩ := Option.bind_eq_some_iff.mp hjob
  obtain ⟨q, id, role, hdoc, ⟨n, hq⟩, hr⟩ := h.legit.shared.owner hF hFjob
  obtain ⟨q', L, -, hL⟩ := h.lives id hdoc
  obtain ⟨n', hq'⟩ := hL.created
  obtain ⟨-, rfl⟩ := h.legit.shared.created_unique _ _ _ _ _ hq hq'
  obtain ⟨htask, stage, hturn⟩ := hL.turn hr hjob (JobState.heldBy_iff.mp hheld) hth
  exact ⟨q, id, L, role, view.ref, job, stage, Task.worker.inj htask, hturn⟩

theorem advances_worker (h : Sim cfg P R w) {view : JobView K} (hg : Grows w.shared s)
    (hth : w.threads[i]? = some ⟨.worker view, .op e k⟩) (hlive : w.live view i = true)
    (hsmooth : smooth R e o = true)
    (hperform : w.shared.perform i (.worker view) e o = some (r, s)) :
    Advances cfg R w ⟨s, w.threads.set i ⟨.worker view, k r.seen⟩⟩ := by
  obtain ⟨q₀, id₀, L₀, role, ref, job, stage, rfl, hturn⟩ := h.turn hth hlive
  intro q id L hL hreach
  by_cases hid : id = id₀
  · subst hid
    obtain ⟨n, hq⟩ := hL.created
    obtain ⟨n₀, hq₀⟩ := hturn.tracks.created
    obtain ⟨-, rfl⟩ := h.legit.shared.created_unique _ _ _ _ _ hq hq₀
    obtain ⟨-, stage', hturn'⟩ := hL.turn hturn.placed hturn.found hturn.active hth
    exact hturn'.step (Life.inv_of_reachable hreach).shape hg hsmooth hperform
  · exact ⟨L, .refl, hturn.other hL hid ⟨_, hth⟩ hg hperform⟩

omit [Field K] [LinearOrder K] [FloorRing K] in
/-- A request holds no lock. -/
private theorem request_idle {q' : Request} {th : Thread K} (hL : Tracks cfg q' id w L)
    (hth : w.threads[i]? = some th) (htask : th.task = q.task) : ∀ role ref job,
    Placed cfg q' id.str w.shared role ref → w.job? ref = some job → job.state ≠ .active i := by
  intro role ref job hr hjob hactive
  obtain ⟨_, p, hjob₁, -, hrel⟩ := hL.tracked role ref hr
  obtain rfl := Option.some.inj (hjob.symm.trans hjob₁)
  obtain ⟨_, _, -, hth', -⟩ := hrel.active_of hactive
  obtain rfl := Option.some.inj (hth.symm.trans hth')
  cases htask

variable {st : CreationStage}

/-- The request adds its flow. -/
private theorem advances_enqueue (hs : Legit cfg P w.shared) {j : String}
    {k : Except Exc Unit → Prog K (Json K)} {r : Reply Unit Exc} (hg : Grows w.shared s)
    (hth : w.threads[i]? = some ⟨q.task, .op (.addFlow (q.stemFlow cfg j)) k⟩)
    (hc : Creating cfg w.shared i q (.created j))
    (hperform : w.shared.perform i q.task (.addFlow (q.stemFlow cfg j)) o = some (r, s)) :
    Advances cfg R w ⟨s, w.threads.set i ⟨q.task, k r.seen⟩⟩ := by
  intro q' id L hL _
  have hidle := request_idle hL hth rfl
  obtain ⟨d, hd, -⟩ := hL.doc
  have hun : Untouched w.shared s id := perform_untouched hperform nofun (by simp [hd])
  have hdoc := hun.doc ▸ hL.doc
  have hmade := hun.beatmaps ▸ hL.made
  rcases perform_flows hperform with hsame | ⟨ids, flow, he, -, hadd⟩
  · exact ⟨L, .refl, hL.onlooker hg hdoc hmade (Or.inl hsame) hidle⟩
  · obtain rfl := Eff.addFlow.inj he
    by_cases hj : j = id.str
    · subst hj
      obtain ⟨n, hq⟩ := hL.created
      obtain ⟨-, rfl⟩ := hs.created_unique _ _ _ _ _ hq hc.1
      have hnone : L.phase .stem = none := by
        by_contra hne
        obtain ⟨ref, -, F, hF, hflow⟩ := hL.placed .stem hne
        exact hc.2 F (List.mem_of_getElem? hF) hflow
      refine ⟨_, .single (.enqueue hnone), ?_⟩
      have hg' : Grows w.shared { s with flows := w.shared.flows } :=
        { hg with flows := fun _ F hF => ⟨F, hF, rfl⟩ }
      refine (hL.frame hg' rfl hdoc hmade hidle).addFlow hadd rfl (fun role hrole => ?_)
        fun role hrole => ?_
      · have hne : role ≠ .stem := by
          rintro rfl
          exact hrole (Flow.spec_add _ _)
        rw [Life.set_phase, if_neg hne]
      · rw [Flow.spec_add] at hrole
        obtain ⟨-, hstem⟩ := hrole.inj (show FlowOf cfg q' id.str .stem _ from rfl)
        obtain rfl := hstem.mpr rfl
        exact ⟨hnone, _, .waiting, rfl, L.set_phase_self .stem _, rfl⟩
    · refine ⟨L, .refl, hL.onlooker hg hdoc hmade (Or.inr ⟨_, hadd, fun role hrole => ?_⟩) hidle⟩
      rw [Flow.spec_add] at hrole
      exact hj (hrole.inj (show FlowOf cfg q j .stem _ from rfl)).1.symm

/-- A request advances the map job it enqueues and no other. -/
theorem advances_request (hs : Legit cfg P w.shared) (hg : Grows w.shared s)
    (hth : w.threads[i]? = some ⟨q.task, .op e k⟩) (hc : Creating cfg w.shared i q st)
    (ha : (creationProtocol cfg q).allow st e)
    (hperform : w.shared.perform i q.task e o = some (r, s)) :
    Advances cfg R w ⟨s, w.threads.set i ⟨q.task, k r.seen⟩⟩ := by
  have htarget (he : e.target = none) (hflow : ∀ flow, e ≠ .addFlow flow) :
      Advances cfg R w ⟨s, w.threads.set i ⟨q.task, k r.seen⟩⟩ := by
    refine Advances.of_same fun q' id L hL => ?_
    obtain ⟨d, hd, -⟩ := hL.doc
    have hun : Untouched w.shared s id :=
      perform_untouched hperform (fun j hj => by simp [he] at hj) (by simp [hd])
    exact hL.onlooker hg (hun.doc ▸ hL.doc) (hun.beatmaps ▸ hL.made)
      (Or.inl (perform_flows_of_ne hperform hflow)) (request_idle hL hth rfl)
  cases e with
  | setJobObjectKey j key =>
    obtain ⟨n, hq⟩ : Created w.shared j q := by
      cases st with
      | created j' =>
        obtain rfl : j = j' := ha
        exact ⟨i, hc.1⟩
      | _ => cases ha
    intro q' id L hL _
    have hidle := request_idle hL hth rfl
    obtain ⟨d, hd, hstatus, hb, herror⟩ := hL.doc
    by_cases hj : j = id.str
    · subst hj
      have hup (env : Env K) (a : Unit) (t : Shared K)
          (h : exec env w.shared (.setJobObjectKey id.str key) = some (a, t)) :
          t = { w.shared with mapJobs := w.shared.mapJobs.updateOne id (.setObjectKey key) } := by
        simpa [exec, Shared.updateJob, eq_comm] using h
      obtain ⟨hdoc, hbeatmaps, hsame⟩ := perform_update hperform hup hd
      have hmade := hbeatmaps ▸ hL.made
      refine ⟨L, .refl, hL.onlooker hg ?_ hmade (Or.inl hsame) hidle⟩
      rcases hdoc with ⟨-, hd'⟩ | ⟨-, hd'⟩
      · exact ⟨d, hd', hstatus, hb, herror⟩
      · exact ⟨_, hd', hstatus, hb, herror⟩
    · have hun : Untouched w.shared s id := by
        refine perform_untouched hperform (fun j' hj' => ?_) (by simp [hd])
        obtain rfl := Option.some.inj hj'
        obtain ⟨-, id', rfl, -⟩ := hs.created_doc _ _ ⟨n, hq⟩
        simpa using hj
      exact ⟨L, .refl, hL.onlooker hg (hun.doc ▸ hL.doc) (hun.beatmaps ▸ hL.made)
        (Or.inl (perform_flows_of_ne hperform fun _ h => by cases h)) hidle⟩
  | addFlow flow =>
    cases st with
    | created j =>
      obtain rfl : flow = q.stemFlow cfg j := ha
      exact advances_enqueue hs hg hth hc hperform
    | _ => cases ha
  | markJobProcessing | markJobCompleted | markJobFailed | insertBeatmap => cases st <;> cases ha
  | _ => exact htarget rfl fun _ h => by cases h

end Threads

section Requests

variable {q : Request} {s t : Shared K} {i : ℕ} {id : ObjectId} {st : CreationStage}

omit [Field K] [LinearOrder K] [FloorRing K] in
theorem Creating.mono (h : Creating cfg s i q st) (hg : Grows s t)
    (hflows : ∀ F ∈ t.flows, (∃ G ∈ s.flows, G.spec = F.spec) ∨
      ∀ j, CreatedBy s i j q → F.spec ≠ q.stemFlow cfg j) : Creating cfg t i q st := by
  cases st with
  | fresh => trivial
  | created j =>
    refine ⟨h.1.mono hg, fun F hF => ?_⟩
    rcases hflows F hF with ⟨G, hG, hspec⟩ | hnew
    · exact hspec ▸ h.2 G hG
    · exact hnew j h.1
  | enqueued j =>
    obtain ⟨F, hF, hspec⟩ := h
    obtain ⟨n, hn⟩ := List.getElem?_of_mem hF
    obtain ⟨F', hF', hspec'⟩ := hg.flows n F hn
    exact ⟨F', List.mem_of_getElem? hF', hspec'.trans hspec⟩

/-- A flow belongs to a map job that exists. -/
theorem Legit.not_flowOf (hs : Legit cfg P s) (hfresh : s.mapJobs.findOne id = none)
    {F : PipelineFlow K} (hF : F ∈ s.flows) (role : Role) : ¬ FlowOf cfg q id.str role F.spec := by
  intro hflow
  obtain ⟨j, q', hq, -, -, hcase⟩ := hs.flows F hF
  obtain ⟨-, id', rfl, hdoc⟩ := hs.created_doc j q' hq
  have hflow' : ∃ role, FlowOf cfg q' id'.str role F.spec := by
    rcases hcase with hstem | ⟨duration, bpm, hsong, -⟩
    · exact ⟨.stem, hstem⟩
    · exact ⟨.root, duration, bpm, hsong⟩
  obtain ⟨role', hflow'⟩ := hflow'
  obtain rfl := ObjectId.str_injective (hflow.inj hflow').1
  exact hdoc hfresh

/-- And so does a beatmap. -/
theorem Legit.no_beatmap (hs : Legit cfg P s) (hfresh : s.mapJobs.findOne id = none) :
    (s.beatmaps.select fun d => d.jobId = id.str) = [] := by
  refine List.filter_eq_nil_iff.mpr fun e he hj => ?_
  obtain ⟨b, now, ⟨q', duration, bpm, kick, melody, hq, -⟩, hd⟩ :=
    hs.beatmaps e.1 e.2 (Collection.mem_entries.mp he)
  have hb : b.jobId = id.str := by simpa [hd, NewBeatmap.document] using hj
  obtain ⟨-, id', hid', hdoc⟩ := hs.created_doc _ _ hq
  obtain rfl := ObjectId.str_injective (hb.symm.trans hid')
  exact hdoc hfresh

end Requests

end Maps
