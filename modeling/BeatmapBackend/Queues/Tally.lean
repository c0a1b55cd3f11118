import BeatmapBackend.Queues.Budget

/-! How many deliveries of a job have begun: no more than its attempts and the stalls that the
queue puts up with, and no fewer than its attempts when it fails by itself, unless it stalled too
often. -/
namespace Queues

variable {T D V : Type}

namespace Job

def allowed (j : Job T D V) : ℕ := max 1 (j.spec.opts.attempts.getD 1).toNat

def running (j : Job T D V) : ℕ :=
  match j.state with
  | .active _ => 1
  | _ => 0

/-- The deliveries that are still to begin, those after a stall included. -/
def credit (j : Job T D V) : ℕ := j.pending + (maxStalledCount - j.stalls)

structure Tally (j : Job T D V) (begun : ℕ) : Prop where
  made : j.attemptsMade + j.running ≤ begun
  spent : begun + j.credit ≤ j.allowed + maxStalledCount

def Spent (j : Job T D V) (begun : ℕ) : Prop := j.allowed ≤ begun ∨ maxStalledCount < j.stalls

variable {j k : Job T D V} {begun : ℕ} {t : T}

theorem Tally.mono (h : j.Tally begun) (hspec : k.spec = j.spec)
    (hmade : k.attemptsMade + k.running ≤ j.attemptsMade + j.running)
    (hcredit : k.credit ≤ j.credit) : k.Tally begun := by
  have hspent := h.spent
  refine ⟨Nat.le_trans hmade h.made, ?_⟩
  rw [allowed, hspec, ← allowed]
  omega

theorem Tally.start (h : j.Tally begun) (hj : j.state = .waiting) (t : T) :
    ({ j with state := .active t } : Job T D V).Tally (begun + 1) := by
  have hp := pending_start hj t
  obtain ⟨hmade, hspent⟩ := h
  simp only [running, hj] at hmade
  refine ⟨?_, ?_⟩
  · simp only [running]
    omega
  · simp only [credit, allowed] at hspent ⊢
    omega

theorem Tally.promote (h : j.Tally begun) (hj : j.state = .delayed) :
    ({ j with state := .waiting } : Job T D V).Tally begun := by
  refine h.mono rfl ?_ ?_
  · simp only [running, hj]
    exact Nat.le_refl _
  · simp only [credit, pending_promote hj]
    exact Nat.le_refl _

/-- A root whose children are completed. -/
theorem Tally.release (h : j.Tally begun) (hj : j.state = .waitingChildren) :
    ({ j with state := .waiting } : Job T D V).Tally begun := by
  refine h.mono rfl ?_ ?_
  · simp only [running, hj]
    exact Nat.le_refl _
  · simp only [credit, pending, hj]
    exact Nat.le_refl _

/-- A job that is over. -/
theorem Tally.over (h : j.Tally begun) {state : JobState T V} (hstate : state.isOver = true) :
    ({ j with state := state } : Job T D V).Tally begun := by
  have hpending : ({ j with state := state } : Job T D V).pending = 0 := by
    cases state <;> first | rfl | cases hstate
  have hrunning : ({ j with state := state } : Job T D V).running = 0 := by
    cases state <;> first | rfl | cases hstate
  refine h.mono rfl ?_ ?_
  · rw [hrunning]
    exact Nat.le_add_right _ _
  · rw [credit, hpending]
    exact Nat.add_le_add_right (Nat.zero_le _) _

/-- A stall takes what the delivery after it needs. -/
theorem Tally.afterStall (h : j.Tally begun) (hj : j.state = .active t) :
    j.afterStall.Tally begun := by
  have hp := pending_afterStall hj
  have hstalls : j.afterStall.stalls = j.stalls + 1 := by
    unfold Job.afterStall
    split <;> rfl
  refine h.mono j.afterStall_spec ?_ ?_
  · unfold Job.afterStall
    split <;> exact Nat.add_le_add_left (Nat.zero_le _) _
  · simp only [credit, hstalls]
    split at hp <;> omega

theorem Tally.afterFailure (h : j.Tally begun) (hj : j.state = .active t) :
    j.afterFailure.Tally begun := by
  have hp := pending_afterFailure hj
  have hstalls : j.afterFailure.stalls = j.stalls := by
    unfold Job.afterFailure
    split <;> rfl
  refine h.mono j.afterFailure_spec ?_ ?_
  · simp only [running, hj]
    unfold Job.afterFailure
    split <;> simp
  · simp only [credit, hstalls]
    omega

theorem spent_afterStall (h : j.afterStall.state = .failed) : j.afterStall.Spent begun := by
  unfold afterStall at h ⊢
  split at h
  · cases h
  next hmax =>
    rw [if_neg hmax]
    exact Or.inr (Nat.lt_succ_of_le (Nat.not_lt.mp hmax))

theorem spent_afterFailure (htally : j.Tally begun) (hj : j.state = .active t)
    (h : j.afterFailure.state = .failed) : j.afterFailure.Spent begun := by
  have hmade := htally.made
  simp only [running, hj] at hmade
  unfold afterFailure at h ⊢
  split at h
  next hexhausted =>
    rw [if_pos hexhausted]
    have hlast := of_decide_eq_true hexhausted
    refine Or.inl ?_
    simp only [allowed]
    omega
  · cases h

end Job

namespace Flow

variable {F F' : Flow T D V} {c : Option ℕ} {j : Job T D V} {t : T} {begun : Option ℕ → ℕ}

/-- What the deliveries of each job say about it, where `begun` counts them. -/
structure Tallied (F : Flow T D V) (begun : Option ℕ → ℕ) : Prop where
  jobs : ∀ c j, F.job? c = some j → j.Tally (begun c)
  failed : ∀ c j, F.job? c = some j → j.state = .failed → j.Spent (begun c) ∨
    c = none ∧ ∃ (i : ℕ) (k : Job T D V), F.job? (some i) = some k ∧ k.state = .failed

namespace Tallied

theorem add (ids : ℕ → JobId) (s : FlowSpec D) :
    (Flow.add ids s : Flow T D V).Tallied fun _ => 0 := by
  have hnew {c : Option ℕ} {j : Job T D V} (hj : (Flow.add ids s).job? c = some j) :
      ∃ id spec state, j = ⟨id, spec, 0, 0, state⟩ ∧
        (state = .waiting ∨ state = .waitingChildren) := by
    cases c with
    | none =>
      obtain rfl := Option.some.inj hj
      refine ⟨_, _, _, rfl, ?_⟩
      split
      · exact Or.inl rfl
      · exact Or.inr rfl
    | some i =>
      have hi : (s.children.mapIdx fun i c => (⟨ids (i + 1), c, 0, 0, .waiting⟩ :
          Job T D V))[i]? = some j := hj
      rw [List.getElem?_mapIdx] at hi
      obtain ⟨spec, -, rfl⟩ := Option.map_eq_some_iff.mp hi
      exact ⟨_, _, _, rfl, Or.inl rfl⟩
  refine ⟨fun c j hj => ?_, fun c j hj hfailed => ?_⟩ <;>
    obtain ⟨id, spec, state, rfl, rfl | rfl⟩ := hnew hj
  · constructor <;> simp [Job.running, Job.credit, Job.pending, Job.left, Job.allowed]
  · constructor <;> simp [Job.running, Job.credit, Job.pending, Job.left, Job.allowed]
  · cases hfailed
  · cases hfailed

/-- One job of the flow changes, and with it how often it has begun. -/
private theorem modify (h : F.Tallied begun) (hj : F.job? c = some j) (hopen : j.state ≠ .failed)
    {f : Job T D V → Job T D V} {begun' : Option ℕ → ℕ} (hbegun : ∀ d, d ≠ c → begun' d = begun d)
    (hf : (f j).Tally (begun' c)) (hfailed : (f j).state = .failed → (f j).Spent (begun' c)) :
    (F.modify c f).Tallied begun' := by
  have hcases {d : Option ℕ} {k : Job T D V} (hk : (F.modify c f).job? d = some k) :
      (d = c ∧ k = f j) ∨ (d ≠ c ∧ F.job? d = some k) := by
    rw [job?_modify] at hk
    split at hk
    next hd =>
      rw [hd, hj, Option.map_some] at hk
      exact Or.inl ⟨hd, (Option.some.inj hk).symm⟩
    next hd => exact Or.inr ⟨hd, hk⟩
  refine ⟨fun d k hk => ?_, fun d k hk hover => ?_⟩
  · rcases hcases hk with ⟨rfl, rfl⟩ | ⟨hd, hold⟩
    · exact hf
    · exact hbegun d hd ▸ h.jobs d k hold
  · rcases hcases hk with ⟨rfl, rfl⟩ | ⟨hd, hold⟩
    · exact Or.inl (hfailed hover)
    · rw [hbegun d hd]
      refine (h.failed d k hold hover).imp_right fun ⟨hnone, i, l, hl, hlost⟩ => ?_
      refine ⟨hnone, i, l, ?_, hlost⟩
      rw [job?_modify, if_neg]
      · exact hl
      · rintro rfl
        exact hopen (Option.some.inj (hl.symm.trans hj) ▸ hlost)

theorem start (h : F.Tallied begun) (hs : F.start c t = some F') :
    F'.Tallied fun d => begun d + if d = c then 1 else 0 := by
  obtain ⟨⟨j, hj, hwaiting⟩, rfl⟩ := start_eq_some.mp hs
  refine h.modify hj (by simp [hwaiting]) (fun d hd => by rw [if_neg hd, Nat.add_zero]) ?_
    (fun h => by cases h)
  rw [if_pos rfl]
  exact (h.jobs c j hj).start hwaiting t

theorem promote (h : F.Tallied begun) (hs : F.promote c = some F') : F'.Tallied begun := by
  obtain ⟨⟨j, hj, hdelayed⟩, rfl⟩ := promote_eq_some.mp hs
  exact h.modify hj (by simp [hdelayed]) (fun _ _ => rfl) ((h.jobs c j hj).promote hdelayed)
    (fun h => by cases h)

private theorem release (h : F.Tallied begun) : F.release.Tallied begun := by
  by_cases hr : F.root.state = .waitingChildren ∧ ∀ j ∈ F.children, j.state.isCompleted = true
  · rw [release_of_ready hr.1 hr.2]
    exact h.modify (c := none) rfl (by simp [hr.1]) (fun _ _ => rfl)
      ((h.jobs none F.root rfl).release hr.1) (fun h => by cases h)
  · rwa [release_of_not hr]

theorem complete (h : F.Tallied begun) (hh : F.Holds c t) (v : V) :
    (F.complete c v).Tallied begun := by
  obtain ⟨j, hj, hactive⟩ := hh
  have hm : (F.modify c fun j => { j with state := .completed v }).Tallied begun :=
    h.modify hj (by simp [hactive]) (fun _ _ => rfl) ((h.jobs c j hj).over rfl)
      (fun h => by cases h)
  cases c with
  | none => exact hm
  | some i => exact hm.release

/-- The root fails with a child. -/
private theorem setback (h : F.Tallied begun) (hj : F.job? c = some j)
    (hactive : j.state = .active t) {f : Job T D V → Job T D V} (hf : (f j).Tally (begun c))
    (hfailed : (f j).state = .failed → (f j).Spent (begun c)) :
    (F.setback c f).Tallied begun := by
  have hm := h.modify hj (by simp [hactive]) (fun _ _ => rfl) hf hfailed
  rcases F.setback_cases c f with ⟨heq, -⟩ | ⟨heq, i, j', rfl, hj', hlost, -⟩ <;> rw [heq]
  · exact hm
  obtain rfl := Option.some.inj (hj.symm.trans hj')
  set G := F.modify (some i) f with hG
  have hchild : G.job? (some i) = some (f j) := by rw [hG, job?_modify_self, hj, Option.map_some]
  have hstate := JobState.isFailed_iff.mp hlost
  by_cases hr : G.root.state = .waitingChildren
  · rw [failParent_of_waiting hr]
    refine ⟨fun d k hk => ?_, fun d k hk hover => ?_⟩
    · cases d with
      | none =>
        obtain rfl := Option.some.inj hk
        exact (hm.jobs none _ rfl).over rfl
      | some n => exact hm.jobs (some n) k hk
    · cases d with
      | none => exact Or.inr ⟨rfl, i, f j, hchild, hstate⟩
      | some n => exact hm.failed (some n) k hk hover
  · rwa [failParent_of_not hr]

theorem stall (h : F.Tallied begun) (hs : F.stall c = some F') : F'.Tallied begun := by
  obtain ⟨⟨t, j, hj, hactive⟩, rfl⟩ := stall_eq_some.mp hs
  exact h.setback hj hactive ((h.jobs c j hj).afterStall hactive) Job.spent_afterStall

theorem fail (h : F.Tallied begun) (hh : F.Holds c t) : (F.fail c).Tallied begun := by
  obtain ⟨j, hj, hactive⟩ := hh
  have htally := h.jobs c j hj
  exact h.setback hj hactive (htally.afterFailure hactive) (Job.spent_afterFailure htally hactive)

end Tallied
end Flow
end Queues
