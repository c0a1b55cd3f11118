import BeatmapBackend.Maps.WorkBound

/-! What the actions of the system do to a flow and to a thread: one action moves it by one
operation, or leaves it alone. -/
namespace Maps
open Effects Wire Queues

variable {K : Type}

/-- What an action may do to the flow `n`; the attempt that begins is the thread `t`. -/
inductive Moves (n t : ℕ) : Act K → PipelineFlow K → PipelineFlow K → Prop
  | idle {a F} (hstart : ∀ c, a ≠ .start ⟨n, c⟩) (hstall : ∀ c, a ≠ .stall ⟨n, c⟩) :
    Moves n t a F F
  | start {c F F'} (h : F.start c t = some F') : Moves n t (.start ⟨n, c⟩) F F'
  | promote {c F F'} (h : F.promote c = some F') : Moves n t (.promote ⟨n, c⟩) F F'
  | stall {c F F'} (h : F.stall c = some F') : Moves n t (.stall ⟨n, c⟩) F F'
  | complete {c i F} (h : F.Holds c i) (v : Json K) : Moves n t (.finish i) F (F.complete c v)
  | fail {c i F} (h : F.Holds c i) : Moves n t (.finish i) F (F.fail c)

theorem Moves.spec {n t : ℕ} {a : Act K} {F F' : PipelineFlow K} (h : Moves n t a F F') :
    F'.spec = F.spec := by
  cases h with
  | idle => rfl
  | start h => exact Flow.spec_start h
  | promote h => exact Flow.spec_promote h
  | stall h => exact Flow.spec_stall h
  | complete _ v => exact Flow.spec_complete _ _ v
  | fail => exact Flow.spec_fail _ _

variable [Field K] [LinearOrder K] [FloorRing K] {cfg : Config}

namespace World

variable {w w' : World K} {a : Act K} {n : ℕ} {F : PipelineFlow K}

omit [Field K] [LinearOrder K] [FloorRing K] in
/-- An operation on one flow, seen from every flow. -/
private theorem flow_setFlow_cases {m : ℕ} {G G' : PipelineFlow K}
    (hG : w.shared.flows[m]? = some G) (hF : w.shared.flows[n]? = some F) :
    (n ≠ m ∧ (w.setFlow m G').shared.flows[n]? = some F) ∨
      (n = m ∧ F = G ∧ (w.setFlow m G').shared.flows[n]? = some G') := by
  by_cases hnm : n = m
  · subst hnm
    exact Or.inr ⟨rfl, Option.some.inj (hF.symm.trans hG), w.flow_setFlow hG G'⟩
  · exact Or.inl ⟨hnm, (List.getElem?_set_ne (Ne.symm hnm)).trans hF⟩

/-- A flow that is there moves by what the action says. -/
theorem act_flow (hact : w.act cfg a = some w') (hF : w.shared.flows[n]? = some F) :
    ∃ F', w'.shared.flows[n]? = some F' ∧ Moves n w.threads.length a F F' := by
  cases a with
  | request file laneCount =>
    obtain rfl := Option.some.inj hact
    exact ⟨F, hF, .idle (fun _ => nofun) fun _ => nofun⟩
  | start ref =>
    obtain ⟨G, G', job, program, hG, hstart, -, -, rfl⟩ := act_start hact
    rcases flow_setFlow_cases hG hF with ⟨hne, hsame⟩ | ⟨rfl, rfl, hnew⟩
    · exact ⟨F, hsame, .idle (fun c hc => hne (by cases hc; rfl)) fun _ => nofun⟩
    · exact ⟨G', hnew, .start hstart⟩
  | promote ref =>
    obtain ⟨G, G', hG, hpromote, rfl⟩ := onFlow_eq_some hact
    rcases flow_setFlow_cases hG hF with ⟨-, hsame⟩ | ⟨rfl, rfl, hnew⟩
    · exact ⟨F, hsame, .idle (fun _ => nofun) fun _ => nofun⟩
    · exact ⟨G', hnew, .promote hpromote⟩
  | step i outcome =>
    obtain ⟨task, e, k, r, s, -, hperform, rfl⟩ := act_step hact
    refine ⟨F, ?_, .idle (fun _ => nofun) fun _ => nofun⟩
    rcases perform_flows hperform with hsame | ⟨ids, flow, -, -, hadd⟩
    · exact hsame ▸ hF
    · show s.flows[n]? = some F
      rw [hadd, List.getElem?_append_left (List.getElem?_eq_some_iff.mp hF).1, hF]
  | finish i =>
    obtain ⟨view, r, G, job, -, hG, hjob, hactive, rfl⟩ := act_finish hact
    rcases flow_setFlow_cases hG hF with ⟨-, hsame⟩ | ⟨rfl, rfl, hnew⟩
    · exact ⟨F, hsame, .idle (fun _ => nofun) fun _ => nofun⟩
    · refine ⟨_, hnew, ?_⟩
      cases r with
      | ok v => exact .complete ⟨job, hjob, hactive⟩ v
      | error x => exact .fail ⟨job, hjob, hactive⟩
  | stall ref =>
    obtain ⟨G, G', hG, hstall, rfl⟩ := onFlow_eq_some hact
    rcases flow_setFlow_cases hG hF with ⟨hne, hsame⟩ | ⟨rfl, rfl, hnew⟩
    · exact ⟨F, hsame, .idle (fun _ => nofun) fun c hc => hne (by cases hc; rfl)⟩
    · exact ⟨G', hnew, .stall hstall⟩

/-- A flow that was not there has just been added by an operation. -/
theorem act_newFlow (hact : w.act cfg a = some w') (hnone : w.shared.flows[n]? = none)
    (hF : w'.shared.flows[n]? = some F) :
    (∃ i outcome, a = .step i outcome) ∧ ∃ ids spec, F = .add ids spec := by
  have hset {m : ℕ} {G' : PipelineFlow K}
      (h : (w.setFlow m G').shared.flows[n]? = some F) : False := by
    have hlt := (List.getElem?_eq_some_iff.mp h).1
    simp only [setFlow, List.length_set] at hlt
    exact absurd (List.getElem?_eq_none_iff.mp hnone) (Nat.not_le.mpr hlt)
  cases a with
  | request file laneCount =>
    obtain rfl := Option.some.inj hact
    cases hnone.symm.trans hF
  | start ref =>
    obtain ⟨G, G', job, program, -, -, -, -, rfl⟩ := act_start hact
    exact (hset hF).elim
  | promote ref =>
    obtain ⟨G, G', -, -, rfl⟩ := onFlow_eq_some hact
    exact (hset hF).elim
  | step i outcome =>
    obtain ⟨task, e, k, r, s, -, hperform, rfl⟩ := act_step hact
    refine ⟨⟨i, outcome, rfl⟩, ?_⟩
    have hF' : s.flows[n]? = some F := hF
    rcases perform_flows hperform with hsame | ⟨ids, flow, -, -, hadd⟩
    · rw [hsame, hnone] at hF'
      cases hF'
    · rw [hadd] at hF'
      rcases getElem?_concat_cases hF' with hold | ⟨-, rfl⟩
      · rw [hnone] at hold
        cases hold
      · exact ⟨ids, flow, rfl⟩
  | finish i =>
    obtain ⟨view, r, G, job, -, -, -, -, rfl⟩ := act_finish hact
    exact (hset hF).elim
  | stall ref =>
    obtain ⟨G, G', -, -, rfl⟩ := onFlow_eq_some hact
    exact (hset hF).elim

end World

/-- What an action may do to the thread `i`: it is left alone, it performs an operation, or it
begins. -/
inductive ThreadMoves (cfg : Config) (w w' : World K) (i : ℕ) : Act K → Thread K → Prop
  | idle {a th} (h : w.threads[i]? = some th) : ThreadMoves cfg w w' i a th
  | step {task e k outcome r} (h : w.threads[i]? = some ⟨task, .op e k⟩)
      (hperform : w.shared.perform i task e outcome = some (r, w'.shared)) :
    ThreadMoves cfg w w' i (.step i outcome) ⟨task, k r.seen⟩
  | request (file : UploadFile) (laneCount : Option ℤ) :
    ThreadMoves cfg w w' i (.request file laneCount)
      ⟨.api file laneCount, createMap cfg file laneCount⟩
  | start {ref F F' job program} (hF : w.shared.flows[ref.flow]? = some F)
      (hF' : w'.shared.flows[ref.flow]? = some F')
      (hstart : F.start ref.child w.threads.length = some F')
      (hjob : F.job? ref.child = some job)
      (hprogram : handlerOf cfg (.ofJob ref job) = some program) :
    ThreadMoves cfg w w' i (.start ref) ⟨.worker (.ofJob ref job), program⟩

/-- Every thread was there before, or the action has started it. -/
theorem World.act_threadMoves {w w' : World K} {a : Act K} {i : ℕ} {th : Thread K}
    (hact : w.act cfg a = some w') (hth : w'.threads[i]? = some th) :
    ThreadMoves cfg w w' i a th := by
  cases a with
  | request file laneCount =>
    obtain rfl := Option.some.inj hact
    rcases getElem?_concat_cases hth with hold | ⟨-, rfl⟩
    · exact .idle hold
    · exact .request file laneCount
  | start ref =>
    obtain ⟨F, F', job, program, hF, hstart, hjob, hprogram, rfl⟩ := act_start hact
    rcases getElem?_concat_cases hth with hold | ⟨-, rfl⟩
    · exact .idle hold
    · exact .start hF (w.flow_setFlow hF F') hstart hjob hprogram
  | promote ref | stall ref =>
    obtain ⟨F, F', -, -, rfl⟩ := onFlow_eq_some hact
    exact .idle hth
  | step n outcome =>
    obtain ⟨task, e, k, r, s, hn, hperform, rfl⟩ := act_step hact
    rcases getElem?_set_cases hth with ⟨-, hold⟩ | ⟨rfl, rfl⟩
    · exact .idle hold
    · exact .step hn hperform
  | finish n =>
    obtain ⟨view, r, F, job, -, -, -, -, rfl⟩ := act_finish hact
    exact .idle hth

end Maps
