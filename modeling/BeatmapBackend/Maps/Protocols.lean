import BeatmapBackend.Effects.Protocol
import BeatmapBackend.Maps.Contract
import BeatmapBackend.Maps.Lifecycle

/-! What one attempt may do to the life of its map job, and in which order: a protocol for
the four queue handlers and one for the request that creates the job. -/
namespace Maps
open Effects Wire Queues Program

variable {K : Type}

/-- The operations that neither write a document nor add a queue job. -/
def Eff.silent : Eff K → Bool
  | .upload _ _ => true
  | e => e.quiet

section Worker

def Role.finish : Role → Stage
  | .stem | .root => .done
  | .kick | .melody => .working

def WorkerAllows (cfg : Config) (role : Role) (j : String) (q : Request) (final : Bool) :
    Stage → Eff K → Prop
  | .working, .markJobProcessing j' => role = .stem ∧ j' = j
  | .working, .addFlow flow =>
    role = .stem ∧ ∃ duration bpm, flow = q.songFlow cfg j duration bpm
  | .working, .insertBeatmap b => role = .root ∧ b.jobId = j
  | .working, .markJobFailed j' _ => final = true ∧ j' = some j
  | .inserted b, .markJobCompleted j' b' => role = .root ∧ j' = j ∧ b' = b
  | .working, e => e.silent = true
  | _, _ => False

def workerNext (s : Stage) : (e : Eff K) → Reply (Ans e) Exc → Stage
  | .addFlow _, r => match r with
    | .done _ => .done
    | _ => s
  | .insertBeatmap _, r => match r with
    | .done b => .inserted b
    | _ => s
  | .markJobCompleted _ _, r => match r with
    | .done _ => .done
    | _ => .working
  | .markJobFailed _ _, r => match r with
    | .raised _ => .gaveUp
    | _ => .reported
  | _, _ => s

/-- An attempt of `role` for the map job `j` that the request `q` created. -/
def workerProtocol (cfg : Config) (role : Role) (j : String) (q : Request) (final : Bool) :
    Protocol (Eff K) Ans Exc Stage where
  allow := WorkerAllows cfg role j q final
  next := workerNext

/-- How an attempt may end: a failure that is final was reported, or could not be. -/
def Settled (role : Role) (final : Bool) : Stage → Except Exc (Json K) → Prop
  | s, .ok _ => s = role.finish
  | s, .error _ => if final = true then s = .reported ∨ s = .gaveUp else s = .working

/-- How the body of an attempt may end, before a failure is reported. -/
def Processed (role : Role) : Stage → Except Exc (Json K) → Prop
  | s, .ok _ => s = role.finish
  | s, .error _ => s = .working

variable {cfg : Config} {role : Role} {j : String} {q : Request} {job : JobView K}

theorem handled_follows {process : Prog K (Json K)}
    (h : Follows (workerProtocol cfg role j q (isFinalAttempt job)) (Processed role) .working
      process) (hid : reportedJobId job.data = .ok (some j)) :
    Follows (workerProtocol cfg role j q (isFinalAttempt job))
      (Settled role (isFinalAttempt job)) .working (handled job process) := by
  refine h.recover (fun _ _ hs => hs) fun s x hs => ?_
  obtain rfl : s = .working := hs
  cases hfinal : isFinalAttempt job with
  | true =>
    rw [if_pos rfl, hid, lift_ok_bind, markFailed]
    exact Follows.perform_bind ⟨rfl, rfl⟩ (fun _ => Follows.ret_iff.mpr (Or.inl rfl))
      (fun _ => Or.inr rfl) fun _ _ => Or.inl rfl
  | false =>
    rw [if_neg (by simp)]
    exact Follows.ret_iff.mpr rfl

/-- One step of the body over an operation the protocol does not look at. -/
private theorem silent_step {final : Bool} {e : Eff K} {f : Ans e → Prog K (Json K)}
    (he : e.silent = true)
    (h : ∀ a, Follows (workerProtocol cfg role j q final) (Processed role) .working (f a)) :
    Follows (workerProtocol cfg role j q final) (Processed role) .working (perform e >>= f) := by
  refine Follows.silent_bind ?_ (fun r => ?_) h fun _ => rfl
  · cases e <;> first | exact he | cases he
  · cases e <;> first | rfl | cases he

/-- A step of the body that performs no operation. -/
private theorem lift_step {α : Type} {final : Bool} {r : Except Exc α} {f : α → Prog K (Json K)}
    (h : ∀ a, r = .ok a →
      Follows (workerProtocol cfg role j q final) (Processed role) .working (f a)) :
    Follows (workerProtocol cfg role j q final) (Processed role) .working (lift r >>= f) :=
  Follows.lift_bind h fun _ => rfl

variable [Field K] [LinearOrder K] [FloorRing K]

theorem stem_follows (hdata : job.data = (q.stemFlow cfg j).root.data) :
    Follows (workerProtocol cfg .stem j q (isFinalAttempt job))
      (Settled .stem (isFinalAttempt job)) .working (StemHandler.call cfg job) := by
  refine handled_follows ?_ (by rw [hdata]; rfl)
  rw [StemHandler.process, hdata, Request.stemFlow, buildSeparateStemsJob,
    SeparateStemsJobPayload.modelValidate_modelDump, lift_ok_bind, markProcessing]
  refine Follows.silent_bind ⟨rfl, rfl⟩ (fun _ => rfl) (fun _ => ?_) fun _ => rfl
  refine silent_step rfl fun _ => silent_step rfl fun _ => lift_step fun _ _ => ?_
  refine silent_step rfl fun duration => silent_step rfl fun bpm => silent_step rfl fun _ => ?_
  refine lift_step fun _ _ => silent_step rfl fun _ => lift_step fun _ _ => ?_
  refine silent_step rfl fun _ => ?_
  exact Follows.perform_bind ⟨rfl, duration, bpm, rfl⟩ (fun _ => Follows.ret_iff.mpr rfl)
    (fun _ => rfl) fun _ _ => rfl

theorem kick_follows {p : DetectKickOnsetsJobPayload} (hdata : job.data = p.modelDump)
    (hj : p.jobId = j) : Follows (workerProtocol cfg .kick j q (isFinalAttempt job))
      (Settled .kick (isFinalAttempt job)) .working (KickHandler.call cfg job) := by
  refine handled_follows ?_ (by rw [hdata, ← hj]; rfl)
  rw [KickHandler.process, hdata, DetectKickOnsetsJobPayload.modelValidate_modelDump, lift_ok_bind]
  refine silent_step rfl fun _ => silent_step rfl fun _ => silent_step rfl fun _ => ?_
  refine lift_step fun _ _ => lift_step fun _ _ => silent_step rfl fun significant => ?_
  split
  · exact silent_step rfl fun _ => lift_step fun _ _ => Follows.ret_iff.mpr rfl
  · exact Follows.ret_iff.mpr rfl

theorem melody_follows {p : ExtractMelodyJobPayload} (hdata : job.data = p.modelDump)
    (hj : p.jobId = j) : Follows (workerProtocol cfg .melody j q (isFinalAttempt job))
      (Settled .melody (isFinalAttempt job)) .working (MelodyHandler.call cfg job) := by
  refine handled_follows ?_ (by rw [hdata, ← hj]; rfl)
  rw [MelodyHandler.process, hdata, ExtractMelodyJobPayload.modelValidate_modelDump, lift_ok_bind]
  refine silent_step rfl fun _ => silent_step rfl fun _ => lift_step fun _ _ => ?_
  exact silent_step rfl fun _ => silent_step rfl fun _ => Follows.ret_iff.mpr rfl

theorem beatmap_follows {p : OrchestrateBeatmapJobPayload} (hdata : job.data = p.modelDump)
    (hj : p.jobId = j) : Follows (workerProtocol cfg .root j q (isFinalAttempt job))
      (Settled .root (isFinalAttempt job)) .working (BeatmapHandler.call job) := by
  refine handled_follows ?_ (by rw [hdata, ← hj]; rfl)
  rw [BeatmapHandler.process, hdata, OrchestrateBeatmapJobPayload.modelValidate_modelDump,
    lift_ok_bind]
  refine silent_step rfl fun _ => lift_step fun results _ => ?_
  rw [finalizeBeatmap, Program.bind_assoc]
  refine Follows.perform_bind ⟨rfl, hj⟩ (fun b => ?_) (fun _ => rfl) fun _ _ => rfl
  rw [Program.bind_assoc]
  exact Follows.perform_bind ⟨rfl, hj, rfl⟩ (fun _ => Follows.ret_iff.mpr rfl) (fun _ => rfl)
    fun _ _ => rfl

def FlowOf (cfg : Config) (q : Request) (j : String) (role : Role) (spec : FlowSpec (Json K)) :
    Prop :=
  match role with
  | .stem => spec = q.stemFlow cfg j
  | _ => ∃ duration bpm, spec = q.songFlow cfg j duration bpm

def Role.child : Role → Option ℕ
  | .stem | .root => none
  | .kick => some 0
  | .melody => some 1

/-- Every attempt follows the protocol of its role. -/
theorem handlerOf_follows {flow : FlowSpec (Json K)} {spec : JobSpec (Json K)}
    {program : Prog K (Json K)} (hflow : FlowOf cfg q j role flow)
    (hspec : flow.job? role.child = some spec) (hqueue : job.queueName = spec.queueName)
    (hdata : job.data = spec.data) (hp : handlerOf cfg job = some program) :
    Follows (workerProtocol cfg role j q (isFinalAttempt job))
      (Settled role (isFinalAttempt job)) .working program := by
  cases role with
  | stem =>
    obtain rfl : flow = q.stemFlow cfg j := hflow
    obtain rfl := Option.some.inj hspec
    simp only [handlerOf, hqueue] at hp
    obtain rfl := Option.some.inj hp
    exact stem_follows hdata
  | root =>
    obtain ⟨duration, bpm, rfl⟩ := hflow
    obtain rfl := Option.some.inj hspec
    simp only [handlerOf, hqueue] at hp
    obtain rfl := Option.some.inj hp
    exact beatmap_follows hdata rfl
  | kick =>
    obtain ⟨duration, bpm, rfl⟩ := hflow
    obtain rfl := Option.some.inj hspec
    simp only [handlerOf, hqueue] at hp
    obtain rfl := Option.some.inj hp
    exact kick_follows hdata rfl
  | melody =>
    obtain ⟨duration, bpm, rfl⟩ := hflow
    obtain rfl := Option.some.inj hspec
    simp only [handlerOf, hqueue] at hp
    obtain rfl := Option.some.inj hp
    exact melody_follows hdata rfl

end Worker

section Creation

inductive CreationStage where
  | fresh
  | created (j : String)
  | enqueued (j : String)

/-- The request `q` creates one job and enqueues its stem separation at most once. -/
def creationProtocol (cfg : Config) (q : Request) : Protocol (Eff K) Ans Exc CreationStage where
  allow
    | .fresh, .insertMapJob _ => True
    | .created j, .setJobObjectKey j' _ => j' = j
    | .created j, .addFlow flow => flow = q.stemFlow cfg j
    | _, e => e.silent = true
  next
    | s, .insertMapJob _, r => match r with
      | .done j => .created j
      | _ => s
    | .created j, .addFlow _, r => match r with
      | .raised _ => .created j
      | _ => .enqueued j
    | s, _, _ => s

/-- A request that is answered has enqueued the job it names. -/
def Answered : CreationStage → Except Exc (Json K) → Prop
  | s, .ok v => ∃ j, s = .enqueued j ∧ v = MapJobCreateResponse.modelDump ⟨j, .queued⟩
  | _, .error _ => True

theorem createMap_follows (cfg : Config) (q : Request) :
    Follows (creationProtocol (K := K) cfg q) Answered .fresh
      (createMap cfg q.file q.laneCount) := by
  rw [createMap]
  refine Follows.lift_bind (fun _ _ => ?_) fun _ => trivial
  rw [createMapJob, Program.bind_assoc]
  refine Follows.lift_bind (fun _ _ => ?_) fun _ => trivial
  rw [Program.bind_assoc]
  refine Follows.silent_bind rfl (fun _ => rfl) (fun _ => ?_) fun _ => trivial
  rw [Program.bind_assoc]
  refine Follows.perform_bind trivial (fun j => ?_) (fun _ => trivial) fun _ _ => trivial
  rw [Program.bind_assoc]
  refine Follows.silent_bind rfl (fun _ => rfl) (fun _ => ?_) fun _ => trivial
  rw [Program.bind_assoc]
  refine Follows.silent_bind rfl (fun _ => rfl) (fun _ => ?_) fun _ => trivial
  rw [Program.bind_assoc]
  exact Follows.perform_bind rfl (fun _ => Follows.ret_iff.mpr ⟨j, rfl, rfl⟩) (fun _ => trivial)
    fun _ _ => trivial

end Creation

end Maps
