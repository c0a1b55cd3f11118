import BeatmapBackend.Queues.Flows
import Mathlib.Algebra.BigOperators.Group.List.Basic
import Mathlib.Algebra.GroupWithZero.Nat

/-! What a queue job still costs. `price` is what one attempt at a job costs, together with
the three queue events around it. A job is worth the attempts it has left, so every queue
operation but a stall is paid for by the worth it takes away. -/
namespace Queues

variable {T D V : Type}

namespace Job

/-- The attempts that have not failed yet; the first one is always made. -/
def left (j : Job T D V) : ℕ := max 1 (j.spec.opts.attempts.getD 1 - j.attemptsMade).toNat

def pending (j : Job T D V) : ℕ :=
  match j.state with
  | .waiting | .delayed | .waitingChildren => j.left
  | .active _ => j.left - 1
  | .completed _ | .failed => 0

/-- The queue events before the next attempt begins or the job is over. -/
def overhead (j : Job T D V) : ℕ :=
  match j.state with
  | .active _ => 2
  | .delayed => 1
  | _ => 0

def worth (price : JobSpec D → ℕ) (j : Job T D V) : ℕ := j.pending * price j.spec + j.overhead

variable {price : JobSpec D → ℕ} {j : Job T D V} {t : T}

theorem pending_start (hj : j.state = .waiting) (t : T) :
    ({ j with state := .active t } : Job T D V).pending + 1 = j.pending := by
  have hleft : 1 ≤ j.left := Nat.le_max_left _ _
  simp only [pending, hj]
  exact Nat.sub_add_cancel hleft

theorem pending_promote (hj : j.state = .delayed) :
    ({ j with state := .waiting } : Job T D V).pending = j.pending := by
  simp only [pending, hj]
  rfl

/-- A redelivered job has the attempt again that it lost. -/
theorem pending_afterStall (hj : j.state = .active t) :
    j.afterStall.pending ≤ j.pending + if j.stalls < maxStalledCount then 1 else 0 := by
  unfold afterStall
  split
  next =>
    simp only [pending, left, hj]
    omega
  next => exact Nat.zero_le _

/-- A failed attempt leaves what it had left, or nothing. -/
theorem pending_afterFailure (hj : j.state = .active t) :
    j.afterFailure.pending ≤ j.pending := by
  unfold afterFailure
  split
  next => exact Nat.zero_le _
  next hmore =>
    simp only [exhausted, decide_eq_true_eq] at hmore
    simp only [pending, left, hj]
    omega

theorem worth_start (hj : j.state = .waiting) (t : T) {n : ℕ} (hn : n + 3 ≤ price j.spec) :
    ({ j with state := .active t } : Job T D V).worth price + n + 1 ≤ j.worth price := by
  have hp := congrArg (· * price j.spec) (pending_start hj t)
  have hover : j.overhead = 0 := by simp only [overhead, hj]
  have hover' : ({ j with state := .active t } : Job T D V).overhead = 2 := rfl
  simp only [Nat.succ_mul] at hp
  simp only [worth, hover, hover']
  omega

variable (price) in
theorem worth_promote (hj : j.state = .delayed) :
    ({ j with state := .waiting } : Job T D V).worth price + 1 = j.worth price := by
  simp only [worth, pending_promote hj, overhead, hj]

variable (price) in
theorem worth_afterStall (hj : j.state = .active t) :
    j.afterStall.worth price + 1 ≤ j.worth price + price j.spec := by
  have hpending : j.afterStall.pending ≤ j.pending + 1 :=
    Nat.le_trans (pending_afterStall hj) (by split <;> omega)
  have hp := Nat.mul_le_mul_right (price j.spec) hpending
  have hover : j.overhead = 2 := by simp only [overhead, hj]
  have hover' : j.afterStall.overhead = 0 := by
    unfold afterStall
    split <;> rfl
  simp only [worth, afterStall_spec, hover, hover']
  rw [Nat.succ_mul] at hp
  omega

variable (price) in
theorem worth_complete (hj : j.state = .active t) (v : V) :
    ({ j with state := .completed v } : Job T D V).worth price + 1 ≤ j.worth price := by
  simp only [worth, pending, overhead, hj]
  omega

variable (price) in
theorem worth_afterFailure (hj : j.state = .active t) :
    j.afterFailure.worth price + 1 ≤ j.worth price := by
  have hp := Nat.mul_le_mul_right (price j.spec) (pending_afterFailure hj)
  have hover : j.overhead = 2 := by simp only [overhead, hj]
  have hover' : j.afterFailure.overhead ≤ 1 := by
    unfold afterFailure
    split
    · exact Nat.zero_le 1
    · exact Nat.le_refl 1
  simp only [worth, afterFailure_spec, hover]
  omega

end Job

/-- The attempts a job is given when it is added, counted by `price`. -/
def JobSpec.worth (price : JobSpec D → ℕ) (s : JobSpec D) : ℕ :=
  max 1 (s.opts.attempts.getD 1).toNat * price s

def FlowSpec.worth (price : JobSpec D → ℕ) (s : FlowSpec D) : ℕ :=
  s.root.worth price + (s.children.map (JobSpec.worth price)).sum

/-- A sum over a list of which one element is changed. -/
theorem sum_map_modify {α : Type} (m : α → ℕ) (f : α → α) {l : List α} {i : ℕ} {a : α}
    (ha : l[i]? = some a) :
    ((l.modify i f).map m).sum + m a = (l.map m).sum + m (f a) := by
  induction l generalizing i with
  | nil => cases ha
  | cons b l ih =>
    cases i with
    | zero =>
      obtain rfl : b = a := by simpa using ha
      simp only [List.modify_zero_cons, List.map_cons, List.sum_cons]
      omega
    | succ i =>
      have hl := ih (i := i) (by simpa using ha)
      simp only [List.modify_succ_cons, List.map_cons, List.sum_cons]
      omega

namespace Flow

variable {price : JobSpec D → ℕ} {F F' : Flow T D V} {c : Option ℕ} {j : Job T D V} {t : T}
  {spec : JobSpec D}

def worth (price : JobSpec D → ℕ) (F : Flow T D V) : ℕ :=
  F.root.worth price + (F.children.map (Job.worth price)).sum

theorem worth_add (ids : ℕ → JobId) (s : FlowSpec D) :
    (Flow.add ids s : Flow T D V).worth price = s.worth price := by
  have hnew (id : JobId) (spec : JobSpec D) (state : JobState T V)
      (hs : state = .waiting ∨ state = .waitingChildren) :
      (⟨id, spec, 0, 0, state⟩ : Job T D V).worth price = spec.worth price := by
    rcases hs with rfl | rfl <;> simp [Job.worth, Job.pending, Job.left, Job.overhead,
      JobSpec.worth]
  have hchildren : (s.children.mapIdx fun i c => (⟨ids (i + 1), c, 0, 0, .waiting⟩ :
      Job T D V)).map (Job.worth price) = s.children.map (JobSpec.worth price) := by
    refine List.ext_getElem? fun i => ?_
    rw [List.getElem?_map, List.getElem?_mapIdx, List.getElem?_map]
    cases s.children[i]? with
    | none => rfl
    | some c => exact congrArg some (hnew _ _ _ (Or.inl rfl))
  rw [worth, add, hchildren, FlowSpec.worth]
  congr 1
  refine hnew _ _ _ ?_
  split
  · exact Or.inl rfl
  · exact Or.inr rfl

variable (price) in
theorem worth_modify (hj : F.job? c = some j) (f : Job T D V → Job T D V) :
    (F.modify c f).worth price + j.worth price = F.worth price + (f j).worth price := by
  cases c with
  | none =>
    obtain rfl := Option.some.inj hj
    simp only [worth, modify]
    omega
  | some i =>
    have hsum := sum_map_modify (Job.worth price) f hj
    simp only [worth, modify]
    omega

theorem worth_release_le : F.release.worth price ≤ F.worth price := by
  by_cases h : F.root.state = .waitingChildren ∧ ∀ j ∈ F.children, j.state.isCompleted = true
  · rw [release_of_ready h.1 h.2]
    have hroot : ({ F.root with state := .waiting } : Job T D V).worth price =
        F.root.worth price := by
      simp only [Job.worth, Job.pending, Job.overhead, h.1]
      rfl
    have hm : _ + F.root.worth price = F.worth price + _ :=
      worth_modify price (c := none) rfl fun j => { j with state := .waiting }
    exact Nat.le_of_eq (Nat.add_right_cancel (hm.trans (congrArg (F.worth price + ·) hroot)))
  · exact Nat.le_of_eq (congrArg (·.worth price) (release_of_not h))

theorem worth_failParent_le : F.failParent.worth price ≤ F.worth price := by
  by_cases h : F.root.state = .waitingChildren
  · rw [failParent_of_waiting h]
    have hroot : ({ F.root with state := .failed } : Job T D V).worth price = 0 := by
      simp [Job.worth, Job.pending, Job.overhead]
    have hm : _ + F.root.worth price = F.worth price + _ :=
      worth_modify price (c := none) rfl fun j => { j with state := .failed }
    rw [hroot, Nat.add_zero] at hm
    exact hm ▸ Nat.le_add_right _ _
  · exact Nat.le_of_eq (congrArg (·.worth price) (failParent_of_not h))

/-- The worth an attempt takes with it when it begins. -/
theorem worth_start (hj : F.job? c = some j) (hs : F.start c t = some F') {n : ℕ}
    (hn : n + 3 ≤ price j.spec) : F'.worth price + n + 1 ≤ F.worth price := by
  obtain ⟨⟨j', hj', hwaiting⟩, rfl⟩ := start_eq_some.mp hs
  obtain rfl := Option.some.inj (hj.symm.trans hj')
  have hm := worth_modify price hj fun j => { j with state := .active t }
  have hw := Job.worth_start hwaiting t hn
  omega

theorem worth_promote (hs : F.promote c = some F') :
    F'.worth price + 1 ≤ F.worth price := by
  obtain ⟨⟨j, hj, hdelayed⟩, rfl⟩ := promote_eq_some.mp hs
  have hm := worth_modify price hj fun j => { j with state := .waiting }
  have hw := Job.worth_promote price hdelayed
  omega

theorem worth_setback_le (F : Flow T D V) (c : Option ℕ) (f : Job T D V → Job T D V) :
    (F.setback c f).worth price ≤ (F.modify c f).worth price := by
  rcases F.setback_cases c f with ⟨heq, -⟩ | ⟨heq, -⟩
  · exact Nat.le_of_eq (congrArg (worth price) heq)
  · rw [heq]
    exact worth_failParent_le

theorem worth_stall (hj : F.job? c = some j) (hs : F.stall c = some F') :
    F'.worth price + 1 ≤ F.worth price + price j.spec := by
  obtain ⟨⟨t, j', hj', hactive⟩, rfl⟩ := stall_eq_some.mp hs
  obtain rfl := Option.some.inj (hj.symm.trans hj')
  have hm := worth_modify price hj Job.afterStall
  have hw := Job.worth_afterStall price hactive
  have hle : (F.setback c Job.afterStall).worth price ≤ _ := F.worth_setback_le c Job.afterStall
  omega

theorem worth_complete (h : F.Holds c t) (v : V) :
    (F.complete c v).worth price + 1 ≤ F.worth price := by
  obtain ⟨j, hj, hactive⟩ := h
  have hm := worth_modify price hj fun j => { j with state := .completed v }
  have hw := Job.worth_complete price hactive v
  have hle : (F.complete c v).worth price ≤
      (F.modify c fun j => { j with state := .completed v }).worth price := by
    cases c with
    | none => exact Nat.le_refl _
    | some i => exact worth_release_le
  omega

theorem worth_fail (h : F.Holds c t) : (F.fail c).worth price + 1 ≤ F.worth price := by
  obtain ⟨j, hj, hactive⟩ := h
  have hm := worth_modify price hj Job.afterFailure
  have hw := Job.worth_afterFailure price hactive
  have hle : (F.fail c).worth price ≤ _ := F.worth_setback_le c Job.afterFailure
  omega

end Flow
end Queues
