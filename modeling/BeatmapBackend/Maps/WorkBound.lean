import BeatmapBackend.Effects.Cost
import BeatmapBackend.Maps.Simulation
import BeatmapBackend.Queues.Budget

/-! The pipeline comes to rest: a run takes no more actions than its requests and its stalls
pay for, whatever raises or gets lost, and in whatever order the threads and queues move. -/
namespace Maps
open Effects Wire Queues Program

variable {K : Type}

def MapsJobConfig.work (c : MapsJobConfig) (price : ℕ) : ℕ := max 1 c.attempts.toNat * price

def songWork (cfg : Config) : ℕ :=
  cfg.beatmapOrchestration.work 7 + (cfg.kickOnset.work 9 + cfg.melodyExtraction.work 8)

def stemWork (cfg : Config) : ℕ := cfg.stemSeparation.work (songWork cfg + 13)

/-- The operations of one attempt and the three queue events around it. -/
def queuePrice (cfg : Config) (queueName : String) : ℕ :=
  if queueName = stemSeparationQueueName then songWork cfg + 13
  else if queueName = kickOnsetQueueName then 9
  else if queueName = melodyExtractionQueueName then 8
  else 7

def attemptPrice (cfg : Config) (spec : JobSpec (Json K)) : ℕ := queuePrice cfg spec.queueName

/-- An operation, and whatever it adds to the queues. -/
def Eff.price (cfg : Config) : Eff K → ℕ
  | .addFlow flow => flow.worth (attemptPrice cfg) + 1
  | _ => 1

section Prices

variable (cfg : Config)

theorem worth_stemJob (j key name : String) (lanes : ℤ) :
    (buildSeparateStemsJob (K := K) cfg j key name lanes).worth (attemptPrice cfg) =
      stemWork cfg := by
  simp [buildSeparateStemsJob, FlowSpec.worth, JobSpec.worth, MapsJobConfig.toBullmqOpts,
    attemptPrice, queuePrice, stemWork, MapsJobConfig.work]

theorem worth_songFlow (j key name : String) (lanes duration bpm : ℤ) :
    (buildGenerateBeatmapFlow (K := K) cfg j key name lanes duration bpm).worth
      (attemptPrice cfg) = songWork cfg := by
  have hkick : kickOnsetQueueName ≠ stemSeparationQueueName := by decide
  have hmelody : melodyExtractionQueueName ≠ stemSeparationQueueName := by decide
  have hmelody' : melodyExtractionQueueName ≠ kickOnsetQueueName := by decide
  have hroot : beatmapOrchestrationQueueName ≠ stemSeparationQueueName := by decide
  have hroot' : beatmapOrchestrationQueueName ≠ kickOnsetQueueName := by decide
  have hroot'' : beatmapOrchestrationQueueName ≠ melodyExtractionQueueName := by decide
  simp [buildGenerateBeatmapFlow, FlowSpec.worth, JobSpec.worth, MapsJobConfig.toBullmqOpts,
    attemptPrice, queuePrice, songWork, MapsJobConfig.work, hkick, hmelody, hmelody', hroot,
    hroot', hroot'']

theorem attemptPrice_le (spec : JobSpec (Json K)) :
    attemptPrice cfg spec ≤ songWork cfg + 13 := by
  unfold attemptPrice queuePrice
  split_ifs <;> omega

end Prices

section Handlers

variable {cfg : Config} {n : ℕ}

theorem handled_covers {job : JobView K} {process : Prog K (Json K)}
    (h : Covers (Eff.price cfg) n process) :
    Covers (Eff.price cfg) (n + 1) (handled job process) := by
  refine h.recover fun x => ?_
  split
  · exact Covers.lift_bind fun j _ => Covers.tick (n := 0) rfl fun _ => Covers.ret _
  · exact Covers.ret _

theorem createMap_covers (file : UploadFile) (laneCount : Option ℤ) :
    Covers (Eff.price cfg) (stemWork cfg + 5) (createMap (K := K) cfg file laneCount) := by
  rw [createMap]
  refine Covers.lift_bind fun _ _ => ?_
  rw [createMapJob, Program.bind_assoc]
  refine Covers.lift_bind fun _ _ => ?_
  rw [Program.bind_assoc]
  refine Covers.tick rfl fun _ => ?_
  rw [Program.bind_assoc]
  refine Covers.tick rfl fun j => ?_
  rw [Program.bind_assoc]
  refine Covers.tick rfl fun _ => ?_
  rw [Program.bind_assoc]
  refine Covers.tick rfl fun _ => ?_
  rw [Program.bind_assoc]
  have hprice (key name : String) (lanes : ℤ) : Eff.price cfg (.addFlow
      (buildSeparateStemsJob (K := K) cfg j key name lanes)) = stemWork cfg + 1 :=
    congrArg (· + 1) (worth_stemJob cfg _ _ _ _)
  rw [← hprice, ← Nat.zero_add (Eff.price cfg _)]
  exact Covers.perform_bind fun _ => Covers.ret _

variable [Field K] [LinearOrder K] [FloorRing K]

theorem stem_covers (job : JobView K) :
    Covers (Eff.price cfg) (songWork cfg + 10) (StemHandler.call cfg job) := by
  refine handled_covers (n := songWork cfg + 9) ?_
  rw [StemHandler.process]
  refine Covers.lift_bind fun p _ => Covers.tick rfl fun _ => Covers.tick rfl fun _ => ?_
  refine Covers.tick rfl fun _ => Covers.lift_bind fun _ _ => Covers.tick rfl fun duration => ?_
  refine Covers.tick rfl fun bpm => Covers.tick rfl fun _ => Covers.lift_bind fun _ _ => ?_
  refine Covers.tick rfl fun _ => Covers.lift_bind fun _ _ => Covers.tick rfl fun _ => ?_
  have hprice : Eff.price cfg (.addFlow (buildGenerateBeatmapFlow (K := K) cfg p.jobId p.objectKey
      p.originalFilename p.laneCount duration bpm)) = songWork cfg + 1 :=
    congrArg (· + 1) (worth_songFlow cfg _ _ _ _ _ _)
  rw [← hprice, ← Nat.zero_add (Eff.price cfg _)]
  exact Covers.perform_bind fun _ => Covers.ret _

theorem kick_covers (job : JobView K) : Covers (Eff.price cfg) 6 (KickHandler.call cfg job) := by
  refine handled_covers (n := 5) ?_
  rw [KickHandler.process]
  refine Covers.lift_bind fun p _ => Covers.tick rfl fun _ => Covers.tick rfl fun _ => ?_
  refine Covers.tick rfl fun _ => Covers.lift_bind fun _ _ => Covers.lift_bind fun _ _ => ?_
  refine Covers.tick rfl fun significant => ?_
  split
  · exact Covers.tick (n := 0) rfl fun _ => Covers.lift_bind fun _ _ => Covers.ret _
  · exact Covers.ret _

theorem melody_covers (job : JobView K) :
    Covers (Eff.price cfg) 5 (MelodyHandler.call cfg job) := by
  refine handled_covers (n := 4) ?_
  rw [MelodyHandler.process]
  refine Covers.lift_bind fun p _ => Covers.tick rfl fun _ => Covers.tick rfl fun _ => ?_
  refine Covers.lift_bind fun _ _ => Covers.tick rfl fun _ => ?_
  exact Covers.tick (n := 0) rfl fun _ => Covers.ret _

theorem beatmap_covers (job : JobView K) : Covers (Eff.price cfg) 4 (BeatmapHandler.call job) := by
  refine handled_covers (n := 3) ?_
  rw [BeatmapHandler.process]
  refine Covers.lift_bind fun p _ => Covers.tick rfl fun _ => Covers.lift_bind fun _ _ => ?_
  rw [finalizeBeatmap, Program.bind_assoc]
  refine Covers.tick rfl fun b => ?_
  rw [Program.bind_assoc]
  exact Covers.tick (n := 0) rfl fun _ => Covers.ret _

/-- One attempt costs less than its price by the queue events around it. -/
theorem handlerOf_covers {job : JobView K} {program : Prog K (Json K)}
    (h : handlerOf cfg job = some program) :
    ∃ n, n + 3 ≤ queuePrice cfg job.queueName ∧ Covers (Eff.price cfg) n program := by
  unfold handlerOf at h
  unfold queuePrice
  split at h
  next hq => exact ⟨_, (if_pos hq).ge, Option.some.inj h ▸ stem_covers job⟩
  next hq =>
    rw [if_neg hq]
    split at h
    next hq => exact ⟨_, (if_pos hq).ge, Option.some.inj h ▸ kick_covers job⟩
    next hq =>
      rw [if_neg hq]
      split at h
      next hq => exact ⟨_, (if_pos hq).ge, Option.some.inj h ▸ melody_covers job⟩
      next hq =>
        rw [if_neg hq]
        split at h
        next => exact ⟨_, Nat.le_refl 7, Option.some.inj h ▸ beatmap_covers job⟩
        next => cases h

end Handlers

/-! The whole system: what its threads and its queue jobs may still cost. -/

theorem forall₂_concat {α β : Type} {r : α → β → Prop} {l : List α} {b : List β}
    (h : List.Forall₂ r l b) {x : α} {y : β} (hxy : r x y) :
    List.Forall₂ r (l ++ [x]) (b ++ [y]) :=
  List.rel_append h (.cons hxy .nil)

/-- One element of the first list is exchanged, and its number in the second with it. -/
theorem forall₂_set {α : Type} {r : α → ℕ → Prop} {l : List α} {b : List ℕ}
    (h : List.Forall₂ r l b) {i : ℕ} {x : α} (hx : l[i]? = some x) :
    ∃ n, r x n ∧ ∀ y m, r y m →
      ∃ b', List.Forall₂ r (l.set i y) b' ∧ b'.sum + n = b.sum + m := by
  induction h generalizing i with
  | nil => cases hx
  | @cons a n l b han hrest ih =>
    cases i with
    | zero =>
      obtain rfl : a = x := by simpa using hx
      refine ⟨n, han, fun y m hy => ⟨m :: b, .cons hy hrest, ?_⟩⟩
      simp only [List.sum_cons]
      omega
    | succ i =>
      obtain ⟨k, hk, hset⟩ := ih (i := i) (by simpa using hx)
      refine ⟨k, hk, fun y m hy => ?_⟩
      obtain ⟨b', hb', hsum⟩ := hset y m hy
      refine ⟨n :: b', .cons han hb', ?_⟩
      simp only [List.sum_cons]
      omega

def Act.isRequest : Act K → Bool
  | .request _ _ => true
  | _ => false

def Act.isStall : Act K → Bool
  | .stall _ => true
  | _ => false

/-- What an action adds to the work of the system. -/
def Act.grant (cfg : Config) : Act K → ℕ
  | .request _ _ => stemWork cfg + 6
  | .stall _ => songWork cfg + 13
  | _ => 0

theorem sum_grant (cfg : Config) (acts : List (Act K)) : (acts.map (Act.grant cfg)).sum =
    acts.countP Act.isRequest * (stemWork cfg + 6) +
      acts.countP Act.isStall * (songWork cfg + 13) := by
  induction acts with
  | nil => simp
  | cons a acts ih =>
    simp only [List.map_cons, List.sum_cons, ih, List.countP_cons]
    cases a <;> simp [Act.grant, Act.isRequest, Act.isStall] <;> ring

def flowsWorth (cfg : Config) (flows : List (PipelineFlow K)) : ℕ :=
  (flows.map (Flow.worth (attemptPrice cfg))).sum

/-- The rest of every thread and the jobs in the queues cost `n` at most. -/
def Owes (cfg : Config) (w : World K) (n : ℕ) : Prop :=
  ∃ budgets, List.Forall₂ (fun th b => Covers (Eff.price cfg) b th.program) w.threads budgets ∧
    flowsWorth cfg w.shared.flows + budgets.sum ≤ n

theorem flowsWorth_set (cfg : Config) {flows : List (PipelineFlow K)} {n : ℕ}
    {F : PipelineFlow K} (hF : flows[n]? = some F) (F' : PipelineFlow K) :
    flowsWorth cfg (flows.set n F') + F.worth (attemptPrice cfg) =
      flowsWorth cfg flows + F'.worth (attemptPrice cfg) := by
  rw [List.set_eq_modify]
  exact sum_map_modify (Flow.worth (attemptPrice cfg)) (fun _ => F') hF

variable [Field K] [LinearOrder K] [FloorRing K] {cfg : Config}

/-- An operation is worth no more to the queues than its price. -/
theorem flowsWorth_perform (cfg : Config) {s u : Shared K} {i : ℕ} {task : Task K} {e : Eff K}
    {o : Outcome K} {r : Reply (Ans e) Exc} (h : s.perform i task e o = some (r, u)) :
    flowsWorth cfg u.flows + 1 ≤ flowsWorth cfg s.flows + e.price cfg := by
  have hpos : 1 ≤ e.price cfg := by cases e <;> simp [Eff.price]
  rcases perform_flows h with hsame | ⟨ids, flow, rfl, -, hadd⟩
  · rw [hsame]
    omega
  · have hw : (Flow.add ids flow : PipelineFlow K).worth (attemptPrice cfg) =
        flow.worth (attemptPrice cfg) := Flow.worth_add ids flow
    simp only [flowsWorth, hadd, List.map_append, List.sum_append, List.map_singleton,
      List.sum_singleton, Eff.price, hw]
    omega

namespace Owes

variable {w w' : World K} {n : ℕ}

omit [Field K] [LinearOrder K] [FloorRing K] in
theorem setFlow (h : Owes cfg w n) {k : ℕ} {F F' : PipelineFlow K} {spend grant : ℕ}
    (hF : w.shared.flows[k]? = some F) (hw : F'.worth (attemptPrice cfg) + spend ≤
      F.worth (attemptPrice cfg) + grant) :
    ∃ m, Owes cfg (w.setFlow k F') m ∧ m + spend ≤ n + grant := by
  obtain ⟨budgets, hcovers, hn⟩ := h
  have hset := flowsWorth_set cfg hF F'
  exact ⟨flowsWorth cfg (w.shared.flows.set k F') + budgets.sum,
    ⟨budgets, hcovers, le_refl _⟩, by omega⟩

omit [Field K] [LinearOrder K] [FloorRing K] in
theorem addThread (h : Owes cfg w n) {th : Thread K} {b : ℕ}
    (hth : Covers (Eff.price cfg) b th.program) : Owes cfg (w.addThread th) (n + b) := by
  obtain ⟨budgets, hcovers, hn⟩ := h
  refine ⟨budgets ++ [b], forall₂_concat hcovers hth, ?_⟩
  simp only [World.addThread, List.sum_append, List.sum_singleton]
  omega

/-- Every action but a request and a stall is paid for by what the system owes. -/
theorem act {a : Act K} (h : Owes cfg w n) (hact : w.act cfg a = some w') :
    ∃ m, Owes cfg w' m ∧ m + 1 ≤ n + a.grant cfg := by
  cases a with
  | request file laneCount =>
    obtain rfl := Option.some.inj hact
    exact ⟨_, h.addThread (createMap_covers file laneCount), le_refl _⟩
  | start ref =>
    obtain ⟨F, F', job, program, hF, hstart, hjob, hprogram, rfl⟩ := World.act_start hact
    obtain ⟨b, hb, hprogram⟩ := handlerOf_covers hprogram
    obtain ⟨m, hm, hle⟩ := h.setFlow hF (show F'.worth _ + (b + 1) ≤ F.worth _ + 0 from
      Flow.worth_start hjob hstart hb)
    exact ⟨m + b, hm.addThread hprogram, hle⟩
  | promote ref =>
    obtain ⟨F, F', hF, hpromote, rfl⟩ := World.onFlow_eq_some hact
    exact h.setFlow hF (Flow.worth_promote hpromote)
  | step i outcome =>
    obtain ⟨task, e, k, r, s, hth, hperform, rfl⟩ := World.act_step hact
    obtain ⟨budgets, hcovers, hn⟩ := h
    obtain ⟨b, hb, hset⟩ := forall₂_set hcovers hth
    obtain ⟨m, rfl, hrest⟩ := hb.op r.seen
    obtain ⟨budgets', hcovers', hsum⟩ := hset ⟨task, k r.seen⟩ m hrest
    have hflows := flowsWorth_perform cfg hperform
    exact ⟨flowsWorth cfg s.flows + budgets'.sum, ⟨budgets', hcovers', le_refl _⟩,
      by simp only [Act.grant]; omega⟩
  | finish i =>
    obtain ⟨view, r, F, job, hth, hF, hjob, hactive, rfl⟩ := World.act_finish hact
    refine h.setFlow hF ?_
    cases r with
    | ok v => exact Flow.worth_complete ⟨job, hjob, hactive⟩ v
    | error x => exact Flow.worth_fail ⟨job, hjob, hactive⟩
  | stall ref =>
    obtain ⟨F, F', hF, hstall, rfl⟩ := World.onFlow_eq_some hact
    obtain ⟨⟨t, job, hjob, -⟩, -⟩ := Flow.stall_eq_some.mp hstall
    refine h.setFlow hF ((Flow.worth_stall hjob hstall).trans ?_)
    exact Nat.add_le_add_left (attemptPrice_le cfg job.spec) _

end Owes

/-- A run spends no more than it had and was granted. -/
theorem World.run_budget {I : World K → ℕ → Prop} (spend grant : Act K → ℕ)
    (hstep : ∀ w a w' n, I w n → w.act cfg a = some w' →
      ∃ m, I w' m ∧ m + spend a ≤ n + grant a) {w w' : World K} {acts : List (Act K)} {n : ℕ}
    (hw : I w n) (h : w.run cfg acts = some w') :
    ∃ m, I w' m ∧ m + (acts.map spend).sum ≤ n + (acts.map grant).sum := by
  induction acts generalizing w n with
  | nil => exact ⟨n, Option.some.inj h ▸ hw, le_refl _⟩
  | cons a acts ih =>
    obtain ⟨v, hv, h⟩ := Option.bind_eq_some_iff.mp h
    obtain ⟨m, hm, hle⟩ := hstep w a v n hw hv
    obtain ⟨m', hm', hle'⟩ := ih hm h
    refine ⟨m', hm', ?_⟩
    simp only [List.map_cons, List.sum_cons]
    omega

/-- The requests and the stalls of a run bound its length. -/
theorem work_bounded {acts : List (Act K)} {w : World K}
    (hrun : World.empty.run cfg acts = some w) :
    acts.length ≤ acts.countP Act.isRequest * (stemWork cfg + 6) +
      acts.countP Act.isStall * (songWork cfg + 13) := by
  have hempty : Owes cfg (World.empty : World K) 0 := ⟨[], .nil, le_refl 0⟩
  obtain ⟨m, -, hle⟩ := World.run_budget (fun _ => 1) (Act.grant cfg)
    (fun w a w' n h hact => h.act hact) hempty hrun
  have hlen : (acts.map fun _ => 1).sum = acts.length := by simp
  rw [sum_grant, hlen] at hle
  omega

theorem work_bounded_sample : ∃ w, World.empty.run {} Sample.acts = some w ∧
    Sample.acts.length ≤ Sample.acts.countP Act.isRequest * (stemWork {} + 6) +
      Sample.acts.countP Act.isStall * (songWork {} + 13) := by
  obtain ⟨w, hw⟩ := Option.isSome_iff_exists.mp
    (show (World.empty.run {} Sample.acts).isSome = true by decide +kernel)
  exact ⟨w, hw, work_bounded hw⟩

end Maps
