import BeatmapBackend.Maps.Endings
import BeatmapBackend.Maps.Moves
import BeatmapBackend.Queues.Blocking

/-! Nothing gets stuck. Where no thread and no queue can move, everything is over, and the
system gets there whatever goes wrong; a client that still polls then has its answer. -/
namespace Maps
open Effects Wire Queues

variable {K : Type}

/-- The system moves by itself: no client calls, and no lock expires. -/
def Act.internal : Act K → Bool
  | .request _ _ | .stall _ => false
  | _ => true

structure World.Over (w : World K) : Prop where
  threads : ∀ (i : ℕ) (th : Thread K), w.threads[i]? = some th → ∃ r, th.program = .ret r
  jobs : ∀ ref job, w.job? ref = some job → job.state.isOver = true

theorem Moves.waits {n t : ℕ} {a : Act K} {F F' : PipelineFlow K} (h : Moves n t a F F')
    (hF : F.Waits) : F'.Waits := by
  cases h with
  | idle => exact hF
  | start h => exact hF.start h
  | promote h => exact hF.promote h
  | stall h => exact hF.stall h
  | complete _ v => exact hF.complete _ v
  | fail => exact hF.fail _

/-- Only an attempt that begins takes a lock. -/
theorem Moves.holds {n t : ℕ} {a : Act K} {F F' : PipelineFlow K} (h : Moves n t a F F')
    {c : Option ℕ} {u : ℕ} (hu : F'.Holds c u) :
    (a = .start ⟨n, c⟩ ∧ u = t) ∨ F.Holds c u := by
  cases h with
  | idle => exact Or.inr hu
  | start h =>
    rcases Flow.holds_of_start h hu with ⟨rfl, rfl⟩ | hold
    · exact Or.inl ⟨rfl, rfl⟩
    · exact Or.inr hold
  | promote h => exact Or.inr (Flow.holds_of_promote h hu)
  | stall h => exact Or.inr (Flow.holds_of_stall h hu)
  | complete => exact Or.inr (Flow.holds_of_complete hu)
  | fail => exact Or.inr (Flow.holds_of_fail hu)

/-- Who holds a lock is an attempt at that job, and a blocked root waits for something. -/
structure Lively (w : World K) : Prop where
  waits : ∀ F ∈ w.shared.flows, F.Waits
  held : ∀ (n : ℕ) (F : PipelineFlow K) (c : Option ℕ) (t : ℕ), w.shared.flows[n]? = some F →
    F.Holds c t → ∃ (view : JobView K) (program : Prog K (Json K)),
      w.threads[t]? = some ⟨.worker view, program⟩ ∧ view.ref = ⟨n, c⟩

theorem lively_empty : Lively (World.empty : World K) := ⟨nofun, fun _ _ _ _ => nofun⟩

variable [Field K] [LinearOrder K] [FloorRing K] {cfg : Config} {P : Librosa K → Prop}

section Invariant

variable {w w' : World K} {a : Act K}

/-- A thread keeps its task. -/
theorem World.act_thread (hact : w.act cfg a = some w') {i : ℕ} {th : Thread K}
    (hth : w.threads[i]? = some th) : ∃ program, w'.threads[i]? = some ⟨th.task, program⟩ := by
  have hadd (th' : Thread K) : (w.threads ++ [th'])[i]? = some ⟨th.task, th.program⟩ :=
    (List.getElem?_append_left (List.getElem?_eq_some_iff.mp hth).1).trans hth
  cases a with
  | request file laneCount =>
    obtain rfl := Option.some.inj hact
    exact ⟨th.program, hadd _⟩
  | start ref =>
    obtain ⟨F, F', job, program, -, -, -, -, rfl⟩ := World.act_start hact
    exact ⟨th.program, hadd _⟩
  | promote ref =>
    obtain ⟨F, F', -, -, rfl⟩ := World.onFlow_eq_some hact
    exact ⟨th.program, hth⟩
  | step n outcome =>
    obtain ⟨task, e, k, r, s, hn, -, rfl⟩ := World.act_step hact
    by_cases hni : n = i
    · subst hni
      obtain rfl := Option.some.inj (hn.symm.trans hth)
      exact ⟨_, List.getElem?_set_self (List.getElem?_eq_some_iff.mp hth).1⟩
    · exact ⟨th.program, (List.getElem?_set_ne hni).trans hth⟩
  | finish n =>
    obtain ⟨view, r, F, job, -, -, -, -, rfl⟩ := World.act_finish hact
    exact ⟨th.program, hth⟩
  | stall ref =>
    obtain ⟨F, F', -, -, rfl⟩ := World.onFlow_eq_some hact
    exact ⟨th.program, hth⟩

/-- The attempt that begins is a thread of its own. -/
theorem World.act_started {ref : JobRef} (hact : w.act cfg (.start ref) = some w') :
    ∃ view program, w'.threads[w.threads.length]? = some ⟨.worker view, program⟩ ∧
      view.ref = ref := by
  obtain ⟨F, F', job, program, -, -, -, -, rfl⟩ := World.act_start hact
  exact ⟨_, program, List.getElem?_concat_length, rfl⟩

theorem Lively.act (h : Lively w) (hact : w.act cfg a = some w') : Lively w' := by
  refine ⟨fun F' hF' => ?_, fun n F' c t hF' hholds => ?_⟩
  · obtain ⟨n, hn⟩ := List.getElem?_of_mem hF'
    cases hF : w.shared.flows[n]? with
    | none =>
      obtain ⟨-, ids, spec, rfl⟩ := World.act_newFlow hact hF hn
      exact Flow.Waits.add ids spec
    | some F =>
      obtain ⟨G, hG, hmoves⟩ := World.act_flow hact hF
      obtain rfl := Option.some.inj (hG.symm.trans hn)
      exact hmoves.waits (h.waits F (List.mem_of_getElem? hF))
  · cases hF : w.shared.flows[n]? with
    | none =>
      obtain ⟨-, ids, spec, rfl⟩ := World.act_newFlow hact hF hF'
      exact (Flow.not_holds_add ids spec hholds).elim
    | some F =>
      obtain ⟨G, hG, hmoves⟩ := World.act_flow hact hF
      obtain rfl := Option.some.inj (hG.symm.trans hF')
      rcases hmoves.holds hholds with ⟨rfl, rfl⟩ | hold
      · exact World.act_started hact
      · obtain ⟨view, program, hth, href⟩ := h.held n F c t hF hold
        obtain ⟨program', hth'⟩ := World.act_thread hact hth
        exact ⟨view, program', hth', href⟩

end Invariant

section Enabled

variable {Q : World K → Act K → Bool} {w : World K} {ref : JobRef}
  {job : Job ℕ (Json K) (Json K)}

/-- The system permits nothing any more but a client call or an expired lock. -/
def World.AtRest (cfg : Config) (Q : World K → Act K → Bool) (w : World K) : Prop :=
  ∀ a : Act K, a.internal = true → Q w a = true → w.act cfg a = none

def Unhindered (Q : World K → Act K → Bool) : Prop :=
  ∀ w a, a.internal = true → (∀ i o, a ≠ .step i o) → Q w a = true

omit [Field K] [LinearOrder K] [FloorRing K] in
theorem unhindered_orderly (R : Rules) : Unhindered (World.orderly (K := K) R) := by
  intro w a ha hstep
  cases a with
  | request | stall => cases ha
  | step i o => exact (hstep i o rfl).elim
  | _ => rfl

theorem World.AtRest.not_delayed (h : w.AtRest cfg Q) (hQ : Unhindered Q)
    (hjob : w.job? ref = some job) : job.state ≠ .delayed := by
  intro hdelayed
  obtain ⟨F, hF, hj⟩ := Option.bind_eq_some_iff.mp hjob
  have hpromote := h (.promote ref) rfl (hQ w _ rfl fun _ _ => nofun)
  simp [World.act, World.onFlow, hF, Flow.promote, hj, hdelayed] at hpromote

theorem World.AtRest.not_waiting (h : w.AtRest cfg Q) (hQ : Unhindered Q)
    (hjob : w.job? ref = some job) {program : Prog K (Json K)}
    (hhandler : handlerOf cfg (.ofJob ref job) = some program) : job.state ≠ .waiting := by
  intro hwaiting
  obtain ⟨F, hF, hj⟩ := Option.bind_eq_some_iff.mp hjob
  have hstart := h (.start ref) rfl (hQ w _ rfl fun _ _ => nofun)
  simp [World.act, hjob, hhandler, World.onFlow, hF, Flow.start, hj, hwaiting] at hstart

/-- An attempt that holds a lock is not finished because it still runs. -/
theorem World.AtRest.not_active (h : w.AtRest cfg Q) (hQ : Unhindered Q) (hlively : Lively w)
    (hjob : w.job? ref = some job) (hreturned : ∀ t view program, job.state = .active t →
      w.threads[t]? = some ⟨.worker view, program⟩ → view.ref = ref → ∃ r, program = .ret r)
    (t : ℕ) : job.state ≠ .active t := by
  intro hactive
  obtain ⟨F, hF, hj⟩ := Option.bind_eq_some_iff.mp hjob
  obtain ⟨view, program, hth, href⟩ := hlively.held ref.flow F ref.child t hF ⟨job, hj, hactive⟩
  obtain ⟨r, rfl⟩ := hreturned t view program hactive hth href
  obtain rfl : view.ref = ref := href
  have hfinish := h (.finish t) rfl (hQ w _ rfl fun _ _ => nofun)
  simp [World.act, hth, hjob, hactive, World.onFlow, hF] at hfinish

end Enabled

/-- Every queue has a worker. -/
theorem handlerOf_isSome (cfg : Config) (job : JobView K) {role : Role}
    (h : job.queueName = role.queueName) : ∃ program, handlerOf cfg job = some program := by
  cases role <;> simp only [handlerOf, h, Role.queueName] <;> exact ⟨_, rfl⟩

section Rest

variable {Q : World K → Act K → Bool} {w : World K} {acts : List (Act K)}

/-- The queue jobs of a state at rest are over, if no attempt that holds a lock still runs. -/
theorem World.AtRest.jobs_over (h : w.AtRest cfg Q) (hQ : Unhindered Q) (hlively : Lively w)
    (hs : Legit cfg P w.shared) (hreturned : ∀ t view program,
      w.live view t = true → w.threads[t]? = some ⟨.worker view, program⟩ →
        ∃ r, program = .ret r) {ref : JobRef} {job : Job ℕ (Json K) (Json K)}
    (hjob : w.job? ref = some job) : job.state.isOver = true := by
  obtain ⟨F, hF, hj⟩ := Option.bind_eq_some_iff.mp hjob
  have hat (c : Option ℕ) (j : Job ℕ (Json K) (Json K)) (hc : F.job? c = some j) :
      w.job? ⟨ref.flow, c⟩ = some j := (w.job?_eq ⟨ref.flow, c⟩ hF).trans hc
  refine (hlively.waits F (List.mem_of_getElem? hF)).over (fun j hmem => ?_) (fun c j hc => ?_) hj
  · obtain ⟨i, hi⟩ := List.getElem?_of_mem hmem
    obtain ⟨q, id, role, -, -, hplaced⟩ :=
      hs.owner (show w.shared.flows[(⟨ref.flow, some i⟩ : JobRef).flow]? = some F from hF) hi
    refine failParentOnFailure_of_child hplaced ?_ hF hi
    rw [Role.isChild_eq, ← hplaced.1]
    rfl
  · obtain ⟨q, id, role, -, -, hplaced⟩ :=
      hs.owner (show w.shared.flows[(⟨ref.flow, c⟩ : JobRef).flow]? = some F from hF) hc
    have hqueue := (hplaced.jobOf (hat c j hc)).2.1
    obtain ⟨program, hprogram⟩ := handlerOf_isSome cfg (.ofJob ⟨ref.flow, c⟩ j) hqueue
    have hwaiting := h.not_waiting hQ (hat c j hc) hprogram
    have hdelayed := h.not_delayed hQ (hat c j hc)
    have hactive := h.not_active hQ hlively (hat c j hc) fun t view program hstate hth href =>
      hreturned t view program (by simp [World.live, href, hat c j hc, hstate]) hth
    cases hstate : j.state with
    | waiting => exact (hwaiting hstate).elim
    | delayed => exact (hdelayed hstate).elim
    | active t => exact (hactive t hstate).elim
    | _ => rfl

/-- A run in which everything is permitted. -/
theorem World.AtRest.over (h : w.AtRest cfg fun _ _ => true) (hlively : Lively w)
    (hs : Legit cfg P w.shared) : w.Over := by
  have hreturned {i : ℕ} {th : Thread K} (hth : w.threads[i]? = some th) :
      ∃ r, th.program = .ret r := by
    obtain ⟨task, program⟩ := th
    cases program with
    | ret r => exact ⟨r, rfl⟩
    | op e k =>
      have hstep := h (.step i (.raised ⟨.keyError, ""⟩)) rfl rfl
      simp [World.act, hth, Shared.perform] at hstep
  exact ⟨fun _ _ => hreturned, fun ref job => h.jobs_over (fun _ _ _ _ => rfl) hlively hs
    fun t view program _ hth => hreturned hth⟩

theorem World.Over.atRest (h : w.Over) : w.AtRest cfg Q := by
  intro a ha _
  by_contra hne
  obtain ⟨w', hact⟩ := Option.ne_none_iff_exists'.mp hne
  have hover {ref : JobRef} {F : PipelineFlow K} {job : Job ℕ (Json K) (Json K)}
      (hF : w.shared.flows[ref.flow]? = some F) (hjob : F.job? ref.child = some job) :
      job.state.isOver = true := h.jobs ref job ((w.job?_eq ref hF).trans hjob)
  cases a with
  | request | stall => cases ha
  | start ref =>
    obtain ⟨F, F', _, _, hF, hstart, -, -, -⟩ := World.act_start hact
    obtain ⟨⟨job, hjob, hstate⟩, -⟩ := Flow.start_eq_some.mp hstart
    simpa [hstate, JobState.isOver] using hover hF hjob
  | promote ref =>
    obtain ⟨F, F', hF, hpromote, -⟩ := World.onFlow_eq_some hact
    obtain ⟨⟨job, hjob, hstate⟩, -⟩ := Flow.promote_eq_some.mp hpromote
    simpa [hstate, JobState.isOver] using hover hF hjob
  | step i outcome =>
    obtain ⟨task, e, k, r, s, hth, -, -⟩ := World.act_step hact
    obtain ⟨r', hr'⟩ := h.threads i _ hth
    cases hr'
  | finish i =>
    obtain ⟨view, r, F, job, -, hF, hjob, hstate, -⟩ := World.act_finish hact
    simpa [hstate, JobState.isOver] using hover hF hjob

theorem lively_of_run (hrun : World.empty.run cfg acts = some w) : Lively w :=
  World.run_invariant (Q := fun _ => True) (fun _ _ _ h _ hact => h.act hact) lively_empty
    (fun _ _ => trivial) hrun

theorem over_of_run (hrun : World.empty.run cfg acts = some w)
    (hrest : w.AtRest cfg fun _ _ => true) : w.Over := by
  obtain ⟨hlegit, -⟩ := (worldLegit_empty (P := fun _ => True)).run
    (fun a _ => a.within_true) hrun
  exact hrest.over (lively_of_run hrun) hlegit.shared

/-- In a reachable state something can move unless everything is over. -/
theorem atRest_iff (hrun : World.empty.run cfg acts = some w) :
    w.AtRest cfg (fun _ _ => true) ↔ w.Over :=
  ⟨over_of_run hrun, World.Over.atRest⟩

theorem atRest_iff_sample : ∃ w, World.empty.run {} Sample.acts = some w ∧
    (w.AtRest {} (fun _ _ => true) ↔ w.Over) := by
  obtain ⟨w, hw⟩ := Option.isSome_iff_exists.mp
    (show (World.empty.run {} Sample.acts).isSome = true by decide +kernel)
  exact ⟨w, hw, atRest_iff hw⟩

theorem owes_of_run (hrun : World.empty.run cfg acts = some w) : ∃ n, Owes cfg w n := by
  obtain ⟨n, hn, -⟩ := World.run_budget (fun _ => 0) (Act.grant cfg)
    (fun w a w' n h hact => (h.act hact).imp fun m hm => ⟨hm.1, by omega⟩)
    (show Owes cfg (World.empty : World K) 0 from ⟨[], .nil, le_refl 0⟩) hrun
  exact ⟨n, hn⟩

omit [Field K] [LinearOrder K] [FloorRing K] in
theorem Act.grant_of_internal {a : Act K} (ha : a.internal = true) : a.grant cfg = 0 := by
  cases a <;> first | rfl | cases ha

/-- What is owed bounds the internal actions that can follow. -/
theorem Owes.length_le {n : ℕ} (h : Owes cfg w n) {more : List (Act K)} {w' : World K}
    (hmore : ∀ a ∈ more, a.internal = true) (hrun : w.run cfg more = some w') :
    more.length ≤ n := by
  induction more generalizing w n with
  | nil => exact Nat.zero_le n
  | cons a more ih =>
    obtain ⟨v, hv, hrun⟩ := Option.bind_eq_some_iff.mp hrun
    obtain ⟨m, hm, hle⟩ := h.act hv
    rw [Act.grant_of_internal (hmore a List.mem_cons_self)] at hle
    have hrest := ih hm (fun b hb => hmore b (List.mem_cons_of_mem _ hb)) hrun
    exact (Nat.succ_le_succ hrest).trans hle

/-- Taking permitted actions for as long as there are any leads to rest. -/
theorem Owes.exists_atRest {n : ℕ} (h : Owes cfg w n) (Q : World K → Act K → Bool) :
    ∃ more w', (∀ a ∈ more, a.internal = true) ∧ w.runIf cfg Q more = some w' ∧
      w'.AtRest cfg Q := by
  induction n using Nat.strong_induction_on generalizing w with
  | _ n ih =>
    by_cases hrest : w.AtRest cfg Q
    · exact ⟨[], w, nofun, rfl, hrest⟩
    · obtain ⟨a, ha, hQ, hne⟩ : ∃ a : Act K, a.internal = true ∧ Q w a = true ∧
          w.act cfg a ≠ none := by simpa [World.AtRest] using hrest
      obtain ⟨v, hv⟩ := Option.ne_none_iff_exists'.mp hne
      obtain ⟨m, hm, hle⟩ := h.act hv
      rw [Act.grant_of_internal ha] at hle
      obtain ⟨more, w', hmore, hrun, hw'⟩ := ih m hle hm
      exact ⟨a :: more, w', List.forall_mem_cons.mpr ⟨ha, hmore⟩,
        World.runIf_cons_eq_some.mpr ⟨hQ, v, hv, hrun⟩, hw'⟩

theorem World.run_of_runIf {w' : World K} (h : w.runIf cfg Q acts = some w') :
    w.run cfg acts = some w' := by
  induction acts generalizing w with
  | nil => exact h
  | cons a acts ih =>
    obtain ⟨-, v, hv, h⟩ := World.runIf_cons_eq_some.mp h
    rw [World.run, hv, Option.bind_some, ih h]

/-- From every reachable state only so many actions can follow, and some of them lead to a
state in which everything is over. -/
theorem settles (hrun : World.empty.run cfg acts = some w) :
    (∃ n, ∀ more w', (∀ a ∈ more, a.internal = true) → w.run cfg more = some w' →
      more.length ≤ n) ∧
    ∃ more w', (∀ a ∈ more, a.internal = true) ∧ w.run cfg more = some w' ∧ w'.Over := by
  obtain ⟨n, hn⟩ := owes_of_run hrun
  obtain ⟨more, w', hmore, hrun', hrest⟩ := hn.exists_atRest fun _ _ => true
  have hrun' := World.run_of_runIf hrun'
  exact ⟨⟨n, fun _ _ => hn.length_le⟩, more, w', hmore, hrun',
    over_of_run ((World.run_append hrun).trans hrun') hrest⟩

theorem settles_sample : ∃ w, World.empty.run {} Sample.creation = some w ∧
    (∃ n, ∀ more w', (∀ a ∈ more, a.internal = true) → w.run {} more = some w' →
      more.length ≤ n) ∧
    ∃ more w', (∀ a ∈ more, a.internal = true) ∧ w.run {} more = some w' ∧ w'.Over := by
  obtain ⟨w, hw⟩ := Option.isSome_iff_exists.mp
    (show (World.empty.run {} Sample.creation).isSome = true by decide +kernel)
  exact ⟨w, hw, settles hw⟩

end Rest
end Maps
