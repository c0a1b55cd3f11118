import BeatmapBackend.Maps.Failures
import BeatmapBackend.Queues.Tally

/-! How often a queue job is attempted. The settings of its queue bound it from above, from below
when a failure is reported, and the worker and the queue agree on which attempt is the last. -/
namespace Maps
open Effects Wire Queues

variable {K : Type}

def Act.starts (ref : JobRef) : Act K → Bool
  | .start r => decide (r = ref)
  | _ => false

theorem Moves.tallied {n t : ℕ} {a : Act K} {F F' : PipelineFlow K} {begun : Option ℕ → ℕ}
    (h : Moves n t a F F') (hF : F.Tallied begun) :
    F'.Tallied fun c => begun c + if a.starts ⟨n, c⟩ then 1 else 0 := by
  cases h with
  | idle hstart _ =>
    have hno (c : Option ℕ) : a.starts ⟨n, c⟩ = false := by
      cases a with
      | start ref => simpa [Act.starts] using fun h => hstart c (congrArg Act.start h)
      | _ => rfl
    simpa [hno] using hF
  | @start c _ _ h => simpa [Act.starts, eq_comm (a := c)] using hF.start h
  | promote h => exact hF.promote h
  | stall h => exact hF.stall h
  | complete h v => exact hF.complete h v
  | fail h => exact hF.fail h

theorem countP_concat (p : Act K → Bool) (acts : List (Act K)) (a : Act K) :
    (acts ++ [a]).countP p = acts.countP p + if p a then 1 else 0 := by
  rw [List.countP_append, List.countP_singleton]

structure Begun (acts : List (Act K)) (w : World K) (view : JobView K) : Prop where
  queued : ∃ F spec, w.shared.flows[view.ref.flow]? = some F ∧
    F.spec.job? view.ref.child = some spec ∧ view.attempts = spec.opts.attempts
  counted : view.attemptsMade < acts.countP (Act.starts view.ref)

/-- After `acts` the queues and the workers know how many attempts have begun. -/
structure Counted (acts : List (Act K)) (w : World K) : Prop where
  flows : ∀ (n : ℕ) (F : PipelineFlow K), w.shared.flows[n]? = some F →
    F.Tallied fun c => acts.countP (Act.starts ⟨n, c⟩)
  fresh : ∀ (n : ℕ) (c : Option ℕ), w.shared.flows[n]? = none →
    acts.countP (Act.starts ⟨n, c⟩) = 0
  views : ∀ (i : ℕ) (view : JobView K) (program : Prog K (Json K)),
    w.threads[i]? = some ⟨.worker view, program⟩ → Begun acts w view

theorem counted_empty : Counted [] (World.empty : World K) :=
  ⟨fun _ _ => nofun, fun _ _ _ => rfl, fun _ _ _ => nofun⟩

variable [Field K] [LinearOrder K] [FloorRing K] {cfg : Config} {acts : List (Act K)}
  {w w' : World K} {a : Act K} {ref : JobRef}

/-- A job does not begin before its flow is added. -/
theorem World.not_starts_of_none (hact : w.act cfg a = some w')
    (hnone : w.shared.flows[ref.flow]? = none) : a.starts ref = false := by
  cases a with
  | start r =>
    obtain ⟨F, F', job, program, hF, -, -, -, -⟩ := World.act_start hact
    simp only [Act.starts, decide_eq_false_iff_not]
    rintro rfl
    cases hnone.symm.trans hF
  | _ => rfl

theorem Begun.act {view : JobView K} (h : Begun acts w view) (hact : w.act cfg a = some w') :
    Begun (acts ++ [a]) w' view := by
  obtain ⟨⟨F, spec, hF, hspec, hattempts⟩, hcounted⟩ := h
  obtain ⟨F', hF', hmoves⟩ := World.act_flow hact hF
  refine ⟨⟨F', spec, hF', by rw [hmoves.spec, hspec], hattempts⟩, ?_⟩
  rw [countP_concat]
  omega

namespace Counted

/-- The attempt that begins is the next one. -/
private theorem begun_start (h : Counted acts w) {F : PipelineFlow K}
    {job : Job ℕ (Json K) (Json K)} (hF : w.shared.flows[ref.flow]? = some F)
    (hjob : F.job? ref.child = some job) (hact : w.act cfg (.start ref) = some w') :
    Begun (acts ++ [.start ref]) w' (.ofJob ref job) := by
  obtain ⟨F', hF', hmoves⟩ := World.act_flow hact hF
  refine ⟨⟨F', job.spec, hF', ?_, rfl⟩, ?_⟩
  · rw [hmoves.spec]
    exact (F.job?_spec ref.child).trans (congrArg (Option.map Job.spec) hjob)
  · have hmade : job.attemptsMade + job.running ≤ acts.countP (Act.starts ref) :=
      ((h.flows ref.flow F hF).jobs ref.child job hjob).made
    have hone : (Act.start ref : Act K).starts ref = true := decide_eq_true rfl
    change job.attemptsMade < (acts ++ [Act.start ref]).countP (Act.starts ref)
    rw [countP_concat, hone, if_pos rfl]
    omega

theorem act (h : Counted acts w) (hact : w.act cfg a = some w') : Counted (acts ++ [a]) w' := by
  constructor
  case flows =>
    intro n F' hF'
    simp only [countP_concat]
    cases hF : w.shared.flows[n]? with
    | none =>
      obtain ⟨-, ids, spec, rfl⟩ := World.act_newFlow hact hF hF'
      have hzero (c : Option ℕ) : acts.countP (Act.starts ⟨n, c⟩) +
          (if a.starts ⟨n, c⟩ then 1 else 0) = 0 := by
        rw [h.fresh n c hF, World.not_starts_of_none hact hF, if_neg Bool.false_ne_true]
      simpa only [hzero] using Flow.Tallied.add ids spec
    | some F =>
      obtain ⟨G, hG, hmoves⟩ := World.act_flow hact hF
      obtain rfl := Option.some.inj (hG.symm.trans hF')
      exact hmoves.tallied (h.flows n F hF)
  case fresh =>
    intro n c hnone
    have hold : w.shared.flows[n]? = none := by
      by_contra hne
      obtain ⟨F, hF⟩ := Option.ne_none_iff_exists'.mp hne
      obtain ⟨F', hF', -⟩ := World.act_flow hact hF
      cases hnone.symm.trans hF'
    rw [countP_concat, h.fresh n c hold, World.not_starts_of_none hact hold,
      if_neg Bool.false_ne_true]
  case views =>
    intro i view program hth
    cases World.act_threadMoves hact hth with
    | idle hold | step hold _ => exact (h.views i view _ hold).act hact
    | start hF _ _ hjob _ => exact h.begun_start hF hjob hact

theorem run {more : List (Act K)} (h : Counted acts w) (hrun : w.run cfg more = some w') :
    Counted (acts ++ more) w' := by
  induction more generalizing acts w with
  | nil => rwa [List.append_nil, ← Option.some.inj hrun]
  | cons a more ih =>
    obtain ⟨v, hv, hrun⟩ := Option.bind_eq_some_iff.mp hrun
    rw [List.append_cons]
    exact ih (h.act hv) hrun

end Counted

def Role.jobConfig (cfg : Config) : Role → MapsJobConfig
  | .stem => cfg.stemSeparation
  | .root => cfg.beatmapOrchestration
  | .kick => cfg.kickOnset
  | .melody => cfg.melodyExtraction

/-- The attempts the settings of a queue allow; the first one is always made. -/
def Role.attempts (cfg : Config) (role : Role) : ℕ := max 1 (role.jobConfig cfg).attempts.toNat

omit [LinearOrder K] [FloorRing K] [Field K] in
/-- The options of a queue job are the settings of its queue. -/
theorem Placed.attempts {q : Request} {j : String} {s : Shared K} {role : Role}
    {F : PipelineFlow K} {spec : JobSpec (Json K)} (hr : Placed cfg q j s role ref)
    (hF : s.flows[ref.flow]? = some F) (hspec : F.spec.job? ref.child = some spec) :
    spec.queueName = role.queueName ∧
      spec.opts.attempts = some (role.jobConfig cfg).attempts := by
  obtain ⟨hchild, F', hF', hflow⟩ := hr
  obtain rfl := Option.some.inj (hF.symm.trans hF')
  cases role with
  | stem =>
    rw [show F.spec = q.stemFlow cfg j from hflow, hchild] at hspec
    rw [← Option.some.inj hspec]
    exact ⟨rfl, rfl⟩
  | root | kick | melody =>
    obtain ⟨duration, bpm, hsong⟩ := hflow
    rw [hsong, hchild] at hspec
    rw [← Option.some.inj hspec]
    exact ⟨rfl, rfl⟩

structure AttemptsKept (cfg : Config) (acts : List (Act K)) (w : World K) (ref : JobRef)
    (job : Job ℕ (Json K) (Json K)) (role : Role) : Prop where
  queue : job.spec.queueName = role.queueName
  atMost : acts.countP (Act.starts ref) ≤ role.attempts cfg + Job.maxStalledCount
  /-- A failure is not reported before the last attempt. -/
  reported : ∀ (i : ℕ) (view : JobView K) (j : Option String) (text : String)
    (k : Except Exc Unit → Prog K (Json K)),
    w.threads[i]? = some ⟨.worker view, .op (.markJobFailed j text) k⟩ → view.ref = ref →
      role.attempts cfg ≤ acts.countP (Act.starts ref)
  failed : job.state = .failed → role.attempts cfg ≤ acts.countP (Act.starts ref) ∨
    Job.maxStalledCount < job.stalls ∨ ref.child = none ∧ ∃ (n : ℕ) (child : Job _ _ _),
      w.job? ⟨ref.flow, some n⟩ = some child ∧ child.state = .failed

/-- In every reachable state a queue job has begun as often as the settings of its queue allow at
most, and once more for a lost lock. Its failure is reported, and it fails by itself, only when
so many attempts have begun, or when it stalled too often. -/
theorem attempts_bounded {job : Job ℕ (Json K) (Json K)}
    (hrun : World.empty.run cfg acts = some w) (hjob : w.job? ref = some job) :
    ∃ role, AttemptsKept cfg acts w ref job role := by
  have hcounted : Counted acts w := counted_empty.run hrun
  obtain ⟨hlegit, -⟩ := (worldLegit_empty (P := fun _ => True)).run
    (fun a _ => a.within_true) hrun
  obtain ⟨F, hF, hj⟩ := Option.bind_eq_some_iff.mp hjob
  obtain ⟨q, id, role, -, -, hplaced⟩ := hlegit.shared.owner hF hj
  have hspec : F.spec.job? ref.child = some job.spec := by rw [Flow.job?_spec, hj]; rfl
  obtain ⟨hqueue, hattempts⟩ := hplaced.attempts hF hspec
  have hallowed : job.allowed = role.attempts cfg := by
    rw [Job.allowed, hattempts]
    rfl
  have htallied := hcounted.flows ref.flow F hF
  have htally : job.Tally (acts.countP (Act.starts ref)) := htallied.jobs ref.child job hj
  refine ⟨role, hqueue, ?_, fun i view j text k hth hview => ?_, fun hfailed => ?_⟩
  · have hspent := htally.spent
    rw [hallowed] at hspent
    omega
  · have hop := (explained_of_run hrun).threads i view _ hth (Blamed w.shared i view) fun _ hx => hx
    obtain ⟨hfinal, -, -⟩ := (Accounts.op_iff.mp hop).1
    obtain ⟨⟨F', spec, hF', hspec', hview'⟩, hmade⟩ := hcounted.views i view _ hth
    subst hview
    obtain rfl := Option.some.inj (hF.symm.trans hF')
    obtain rfl := Option.some.inj (hspec.symm.trans hspec')
    have hlast := of_decide_eq_true hfinal
    rw [hview', hattempts, Option.getD_some] at hlast
    rw [Role.attempts]
    omega
  · rcases htallied.failed ref.child job hj hfailed with (hbegun | hstalls) | ⟨hroot, n, child, hn⟩
    · exact Or.inl (hallowed ▸ hbegun)
    · exact Or.inr (Or.inl hstalls)
    · exact Or.inr (Or.inr ⟨hroot, n, child, (w.job?_eq ⟨ref.flow, some n⟩ hF).trans hn.1, hn.2⟩)

open Sample in
theorem attempts_bounded_sample : ∃ w job, World.empty.run {} failing = some w ∧
    w.job? ⟨0, none⟩ = some job ∧ job.state = .failed ∧
      ∃ role, AttemptsKept {} failing w ⟨0, none⟩ job role := by
  have hrun : ((World.empty.run {} failing).bind fun w =>
      (w.job? ⟨0, none⟩).filter fun job => job.state.isFailed).isSome = true := by decide +kernel
  obtain ⟨job, hjob⟩ := Option.isSome_iff_exists.mp hrun
  obtain ⟨w, hw, hjob⟩ := Option.bind_eq_some_iff.mp hjob
  obtain ⟨hjob, hfailed⟩ := Option.filter_eq_some_iff.mp hjob
  exact ⟨w, job, hw, hjob, JobState.isFailed_iff.mp hfailed, attempts_bounded hw hjob⟩

end Maps
