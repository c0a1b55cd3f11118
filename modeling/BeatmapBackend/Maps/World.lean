import BeatmapBackend.Maps.Handlers
import BeatmapBackend.Maps.Service

/-! The running system: requests and worker attempts as threads over the shared state. One
action is a new request, a queue event, or one operation of one thread. -/
namespace Maps
open Effects Wire Queues

structure Thread (K : Type) where
  task : Task K
  program : Prog K (Json K)

structure World (K : Type) where
  shared : Shared K
  threads : List (Thread K)

def World.empty {K : Type} : World K := ⟨.empty, []⟩

inductive Act (K : Type) where
  /-- A client calls `POST /api/v1/maps`. -/
  | request (file : UploadFile) (laneCount : Option ℤ)
  /-- A worker takes a waiting job. -/
  | start (ref : JobRef)
  /-- The backoff of a job that is to be retried is over. -/
  | promote (ref : JobRef)
  /-- A thread performs its next operation. -/
  | step (thread : ℕ) (outcome : Outcome K)
  /-- The queue records how an attempt ended. -/
  | finish (thread : ℕ)
  /-- The lock of a running job expires and the job is delivered again. -/
  | stall (ref : JobRef)

variable {K : Type}

def JobView.ofJob (ref : JobRef) (job : Job ℕ (Json K) (Json K)) : JobView K where
  ref := ref
  queueName := job.spec.queueName
  data := job.spec.data
  attempts := job.spec.opts.attempts
  attemptsMade := job.attemptsMade

namespace World

def setFlow (w : World K) (n : ℕ) (F : PipelineFlow K) : World K :=
  { w with shared := { w.shared with flows := w.shared.flows.set n F } }

def addThread (w : World K) (th : Thread K) : World K :=
  { w with threads := w.threads ++ [th] }

def onFlow (w : World K) (ref : JobRef) (op : PipelineFlow K → Option (PipelineFlow K)) :
    Option (World K) := do
  let F ← w.shared.flows[ref.flow]?
  let F' ← op F
  return w.setFlow ref.flow F'

def job? (w : World K) (ref : JobRef) : Option (Job ℕ (Json K) (Json K)) := do
  (← w.shared.flows[ref.flow]?).job? ref.child

/-- What the queue records when an attempt returned or raised. -/
def settle (r : Except Exc (Json K)) (child : Option ℕ) (F : PipelineFlow K) : PipelineFlow K :=
  match r with
  | .ok value => F.complete child value
  | .error _ => F.fail child

theorem spec_settle (r : Except Exc (Json K)) (child : Option ℕ) (F : PipelineFlow K) :
    (settle r child F).spec = F.spec := by
  cases r with
  | ok v => exact Flow.spec_complete _ _ _
  | error x => exact Flow.spec_fail _ _

section Queueing

variable {n : ℕ} {F F' : PipelineFlow K}

theorem job?_eq (w : World K) (ref : JobRef) (hF : w.shared.flows[ref.flow]? = some F) :
    w.job? ref = F.job? ref.child := by
  simp [job?, hF]

theorem job?_setFlow (w : World K) (hF : w.shared.flows[n]? = some F) (ref : JobRef) :
    (w.setFlow n F').job? ref = if ref.flow = n then F'.job? ref.child else w.job? ref := by
  have hlt := (List.getElem?_eq_some_iff.mp hF).1
  simp only [job?, setFlow, List.getElem?_set]
  by_cases hn : n = ref.flow
  · simp [hn.symm, hlt]
  · simp [hn, Ne.symm hn]

theorem setFlow_self (w : World K) (hF : w.shared.flows[n]? = some F) : w.setFlow n F = w := by
  have hset : w.shared.flows.set n F = w.shared.flows := by
    obtain ⟨hlt, rfl⟩ := List.getElem?_eq_some_iff.mp hF
    exact List.set_getElem_self hlt
  rw [setFlow, hset]

theorem setFlow_setFlow (w : World K) (n : ℕ) (F F' : PipelineFlow K) :
    (w.setFlow n F).setFlow n F' = w.setFlow n F' := by
  simp only [setFlow, List.set_set]

theorem flow_setFlow (w : World K) (hF : w.shared.flows[n]? = some F) (F' : PipelineFlow K) :
    (w.setFlow n F').shared.flows[n]? = some F' :=
  List.getElem?_set_self (List.getElem?_eq_some_iff.mp hF).1

theorem onFlow_eq_some {w w' : World K} {ref : JobRef}
    {op : PipelineFlow K → Option (PipelineFlow K)} (h : w.onFlow ref op = some w') :
    ∃ F F', w.shared.flows[ref.flow]? = some F ∧ op F = some F' ∧ w' = w.setFlow ref.flow F' := by
  obtain ⟨F, hF, h⟩ := Option.bind_eq_some_iff.mp h
  obtain ⟨F', hF', h⟩ := Option.bind_eq_some_iff.mp h
  exact ⟨F, F', hF, hF', (Option.some.inj h).symm⟩

end Queueing

variable [Field K] [LinearOrder K] [FloorRing K]

/-- An attempt that lost its lock reports nothing to the queue. -/
def act (cfg : Config) (w : World K) : Act K → Option (World K)
  | .request file laneCount =>
    some (w.addThread ⟨.api file laneCount, createMap cfg file laneCount⟩)
  | .start ref => do
    let job ← w.job? ref
    let program ← handlerOf cfg (.ofJob ref job)
    let w' ← w.onFlow ref fun F => F.start ref.child w.threads.length
    return w'.addThread ⟨.worker (.ofJob ref job), program⟩
  | .promote ref => w.onFlow ref fun F => F.promote ref.child
  | .step i outcome =>
    match w.threads[i]? with
    | some ⟨task, .op e k⟩ => do
      let (r, s) ← w.shared.perform i task e outcome
      return ⟨s, w.threads.set i ⟨task, k r.seen⟩⟩
    | _ => none
  | .finish i =>
    match w.threads[i]? with
    | some ⟨.worker view, .ret r⟩ =>
      match (w.job? view.ref).map Job.state with
      | some (.active t) =>
        if t = i then w.onFlow view.ref fun F => some (settle r view.ref.child F) else none
      | _ => none
    | _ => none
  | .stall ref => w.onFlow ref fun F => F.stall ref.child

/-! What each action does when it can take place. -/

section Actions

variable {cfg : Config} {w w' : World K} {ref : JobRef} {i : ℕ} {outcome : Outcome K}

/-- The job is locked for the attempt that begins. -/
theorem act_start (h : w.act cfg (.start ref) = some w') : ∃ F F' job program,
    w.shared.flows[ref.flow]? = some F ∧ F.start ref.child w.threads.length = some F' ∧
    F.job? ref.child = some job ∧ handlerOf cfg (.ofJob ref job) = some program ∧
    w' = (w.setFlow ref.flow F').addThread ⟨.worker (.ofJob ref job), program⟩ := by
  obtain ⟨job, hjob, h⟩ := Option.bind_eq_some_iff.mp h
  obtain ⟨program, hprogram, h⟩ := Option.bind_eq_some_iff.mp h
  obtain ⟨v, hv, h⟩ := Option.bind_eq_some_iff.mp h
  obtain ⟨F, F', hF, hstart, rfl⟩ := onFlow_eq_some hv
  rw [w.job?_eq ref hF] at hjob
  exact ⟨F, F', job, program, hF, hstart, hjob, hprogram, (Option.some.inj h).symm⟩

theorem act_step (h : w.act cfg (.step i outcome) = some w') : ∃ task e k r s,
    w.threads[i]? = some ⟨task, .op e k⟩ ∧ w.shared.perform i task e outcome = some (r, s) ∧
    w' = ⟨s, w.threads.set i ⟨task, k r.seen⟩⟩ := by
  simp only [act] at h
  split at h
  next task e k hth =>
    obtain ⟨⟨r, s⟩, hperform, h⟩ := Option.bind_eq_some_iff.mp h
    exact ⟨task, e, k, r, s, hth, hperform, (Option.some.inj h).symm⟩
  next => cases h

/-- The attempt has ended and still holds its lock. -/
theorem act_finish (h : w.act cfg (.finish i) = some w') : ∃ view r F job,
    w.threads[i]? = some ⟨.worker view, .ret r⟩ ∧ w.shared.flows[view.ref.flow]? = some F ∧
    F.job? view.ref.child = some job ∧ job.state = .active i ∧
    w' = w.setFlow view.ref.flow (settle r view.ref.child F) := by
  simp only [act] at h
  split at h
  next view r hth =>
    split at h
    next t hstate =>
      split at h
      next hti =>
        subst hti
        obtain ⟨job, hjob, hactive⟩ := Option.map_eq_some_iff.mp hstate
        obtain ⟨F, F', hF, hsettle, rfl⟩ := onFlow_eq_some h
        obtain rfl := Option.some.inj hsettle
        exact ⟨view, r, F, job, hth, hF, (w.job?_eq view.ref hF).symm.trans hjob, hactive, rfl⟩
      next => cases h
    next => cases h
  next => cases h

/-- Besides the queues, only an operation of a thread changes what is shared. -/
theorem act_shared {a : Act K} (h : w.act cfg a = some w') :
    (∃ flows, w'.shared = { w.shared with flows := flows }) ∨
    ∃ i outcome task e k r, a = .step i outcome ∧ w.threads[i]? = some ⟨task, .op e k⟩ ∧
      w.shared.perform i task e outcome = some (r, w'.shared) := by
  cases a with
  | request file laneCount =>
    obtain rfl := Option.some.inj h
    exact Or.inl ⟨_, rfl⟩
  | start ref =>
    obtain ⟨F, F', job, program, -, -, -, -, rfl⟩ := act_start h
    exact Or.inl ⟨_, rfl⟩
  | promote ref | stall ref =>
    obtain ⟨F, F', -, -, rfl⟩ := onFlow_eq_some h
    exact Or.inl ⟨_, rfl⟩
  | step i outcome =>
    obtain ⟨task, e, k, r, s, hth, hperform, rfl⟩ := act_step h
    exact Or.inr ⟨i, outcome, task, e, k, r, rfl, hth, hperform⟩
  | finish i =>
    obtain ⟨view, r, F, job, -, -, -, -, rfl⟩ := act_finish h
    exact Or.inl ⟨_, rfl⟩

end Actions

def run (cfg : Config) : World K → List (Act K) → Option (World K)
  | w, [] => some w
  | w, a :: acts => (w.act cfg a).bind fun w' => run cfg w' acts

end World
end Maps
