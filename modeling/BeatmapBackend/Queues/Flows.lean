import Mathlib.Data.Int.Notation
import Mathlib.Data.List.Basic
import Mathlib.Tactic.Common

/-! A job queue with flows: a root job may wait for child jobs, an attempt that fails is
retried while attempts are left, and a stalled job is delivered again, but not too often. `T`
identifies a delivery, `D` is the data of a job and `V` its return value. -/
namespace Queues

section Entries

variable {α : Type} {l : List α} {a b : α} {i n : ℕ}

theorem getElem?_concat_cases (h : (l ++ [a])[n]? = some b) :
    l[n]? = some b ∨ (n = l.length ∧ b = a) := by
  rcases Nat.lt_trichotomy n l.length with hlt | heq | hgt
  · exact Or.inl (by rwa [List.getElem?_append_left hlt] at h)
  · subst heq
    exact Or.inr ⟨rfl, by simpa using h.symm⟩
  · rw [List.getElem?_eq_none (by simp; omega)] at h
    cases h

theorem getElem?_set_cases (h : (l.set i a)[n]? = some b) :
    (n ≠ i ∧ l[n]? = some b) ∨ (n = i ∧ b = a) := by
  rw [List.getElem?_set] at h
  split at h
  next hin =>
    split at h
    · exact Or.inr ⟨hin.symm, (Option.some.inj h).symm⟩
    · cases h
  next hin => exact Or.inl ⟨Ne.symm hin, h⟩

end Entries

/-- Queue-generated ids are UUIDs: hexadecimal digits and dashes. -/
structure JobId where
  text : String
  hex : ∀ c ∈ text.toList, c ∈ "0123456789abcdef-".toList

structure Backoff where
  type : String
  delay : ℤ
  deriving DecidableEq

structure JobOpts where
  attempts : Option ℤ
  backoff : Option Backoff
  failParentOnFailure : Bool
  deriving DecidableEq

structure JobSpec (D : Type) where
  name : String
  queueName : String
  data : D
  opts : JobOpts

structure FlowSpec (D : Type) where
  root : JobSpec D
  children : List (JobSpec D)

inductive JobState (T V : Type) where
  | waiting
  | delayed
  | waitingChildren
  | active (token : T)
  | completed (value : V)
  | failed

structure Job (T D V : Type) where
  id : JobId
  spec : JobSpec D
  attemptsMade : ℕ
  stalls : ℕ
  state : JobState T V

structure Flow (T D V : Type) where
  root : Job T D V
  children : List (Job T D V)

variable {T D V : Type}

def FlowSpec.job? {D : Type} (s : FlowSpec D) : Option ℕ → Option (JobSpec D)
  | none => some s.root
  | some i => s.children[i]?

namespace JobState

def value? : JobState T V → Option V
  | .completed v => some v
  | _ => none

def isCompleted : JobState T V → Bool
  | .completed _ => true
  | _ => false

def isOver : JobState T V → Bool
  | .completed _ => true
  | .failed => true
  | _ => false

def isFailed : JobState T V → Bool
  | .failed => true
  | _ => false

def heldBy [DecidableEq T] (t : T) : JobState T V → Bool
  | .active t' => decide (t' = t)
  | _ => false

@[simp] theorem heldBy_iff [DecidableEq T] {s : JobState T V} {t : T} :
    s.heldBy t = true ↔ s = .active t := by
  cases s <;> simp [heldBy]

theorem isFailed_iff {s : JobState T V} : s.isFailed = true ↔ s = .failed := by
  cases s <;> simp [isFailed]

theorem isCompleted_iff {s : JobState T V} : s.isCompleted = true ↔ ∃ v, s = .completed v := by
  cases s <;> simp [isCompleted]

end JobState

namespace Job

def exhausted (j : Job T D V) : Bool := decide (j.spec.opts.attempts.getD 1 ≤ j.attemptsMade + 1)

def afterFailure (j : Job T D V) : Job T D V :=
  if j.exhausted then { j with state := .failed }
  else { j with attemptsMade := j.attemptsMade + 1, state := .delayed }

/-- A worker's `maxStalledCount`, by default. -/
def maxStalledCount : ℕ := 1

/-- What happens to the job itself when its lock expires: it is delivered again as the same
attempt, or it has stalled too often and fails. -/
def afterStall (j : Job T D V) : Job T D V :=
  if j.stalls < maxStalledCount then { j with stalls := j.stalls + 1, state := .waiting }
  else { j with stalls := j.stalls + 1, state := .failed }

@[simp] theorem afterFailure_spec (j : Job T D V) : j.afterFailure.spec = j.spec := by
  unfold afterFailure; split <;> rfl

@[simp] theorem afterStall_spec (j : Job T D V) : j.afterStall.spec = j.spec := by
  unfold afterStall; split <;> rfl

/-- A job that an attempt left behind is free, and has no result. -/
structure Unfinished (j : Job T D V) : Prop where
  free : ∀ t, j.state ≠ .active t
  unblocked : j.state ≠ .waitingChildren
  unanswered : j.state.isCompleted = false

theorem unfinished_afterFailure (j : Job T D V) : j.afterFailure.Unfinished := by
  unfold afterFailure
  split <;> exact ⟨nofun, nofun, rfl⟩

theorem unfinished_afterStall (j : Job T D V) : j.afterStall.Unfinished := by
  unfold afterStall
  split <;> exact ⟨nofun, nofun, rfl⟩

theorem Unfinished.value?_eq_none {j : Job T D V} (h : j.Unfinished) : j.state.value? = none := by
  have hno := h.unanswered
  cases hs : j.state with
  | completed v => simp [hs, JobState.isCompleted] at hno
  | _ => rfl

end Job

namespace Flow

/-- A job added to its queue; a root with children waits for them. -/
def add (ids : ℕ → JobId) (s : FlowSpec D) : Flow T D V where
  root := ⟨ids 0, s.root, 0, 0, if s.children = [] then .waiting else .waitingChildren⟩
  children := s.children.mapIdx fun i c => ⟨ids (i + 1), c, 0, 0, .waiting⟩

def job? (F : Flow T D V) : Option ℕ → Option (Job T D V)
  | none => some F.root
  | some i => F.children[i]?

def modify (F : Flow T D V) (c : Option ℕ) (f : Job T D V → Job T D V) : Flow T D V :=
  match c with
  | none => { F with root := f F.root }
  | some i => { F with children := F.children.modify i f }

/-- What the flow was added as; no queue operation changes it. -/
def spec (F : Flow T D V) : FlowSpec D := ⟨F.root.spec, F.children.map Job.spec⟩

def value? (F : Flow T D V) (i : ℕ) : Option V := F.children[i]?.bind fun j => j.state.value?

/-- A waiting root starts waiting for a worker once all its children are completed. -/
def release (F : Flow T D V) : Flow T D V :=
  match F.root.state with
  | .waitingChildren =>
    if F.children.all fun j => j.state.isCompleted then
      { F with root := { F.root with state := .waiting } }
    else F
  | _ => F

/-- `failParentOnFailure`: a failed child fails the root that waits for it. -/
def failParent (F : Flow T D V) : Flow T D V :=
  match F.root.state with
  | .waitingChildren => { F with root := { F.root with state := .failed } }
  | _ => F

def start (F : Flow T D V) (c : Option ℕ) (t : T) : Option (Flow T D V) :=
  match (F.job? c).map Job.state with
  | some .waiting => some (F.modify c fun j => { j with state := .active t })
  | _ => none

def promote (F : Flow T D V) (c : Option ℕ) : Option (Flow T D V) :=
  match (F.job? c).map Job.state with
  | some .delayed => some (F.modify c fun j => { j with state := .waiting })
  | _ => none

/-- An attempt goes wrong, which does `f` to its job. A child that fails over it fails the root
that waits for it, where its options say so. -/
def setback (F : Flow T D V) (c : Option ℕ) (f : Job T D V → Job T D V) : Flow T D V :=
  let F' := F.modify c f
  match c, F.job? c with
  | some _, some j =>
    if (f j).state.isFailed && j.spec.opts.failParentOnFailure then F'.failParent else F'
  | _, _ => F'

def stall (F : Flow T D V) (c : Option ℕ) : Option (Flow T D V) :=
  match (F.job? c).map Job.state with
  | some (.active _) => some (F.setback c Job.afterStall)
  | _ => none

def complete (F : Flow T D V) (c : Option ℕ) (v : V) : Flow T D V :=
  let F' := F.modify c fun j => { j with state := .completed v }
  match c with
  | none => F'
  | some _ => F'.release

def fail (F : Flow T D V) (c : Option ℕ) : Flow T D V := F.setback c Job.afterFailure

def Holds (F : Flow T D V) (c : Option ℕ) (t : T) : Prop :=
  ∃ j, F.job? c = some j ∧ j.state = .active t

/-! What each operation does to the single jobs. -/

theorem job?_modify (F : Flow T D V) (c d : Option ℕ) (f : Job T D V → Job T D V) :
    (F.modify c f).job? d = if d = c then (F.job? d).map f else F.job? d := by
  cases c with
  | none => cases d <;> simp [modify, job?]
  | some i =>
    cases d with
    | none => simp [modify, job?]
    | some k =>
      simp only [modify, job?, List.getElem?_modify, Option.some.injEq]
      by_cases h : i = k
      · simp [h]
      · have hne : ¬ k = i := fun he => h he.symm
        simp [h, hne]

@[simp] theorem job?_modify_self (F : Flow T D V) (c : Option ℕ) (f : Job T D V → Job T D V) :
    (F.modify c f).job? c = (F.job? c).map f := by
  simp [job?_modify]

@[simp] theorem spec_add (ids : ℕ → JobId) (s : FlowSpec D) :
    (Flow.add ids s : Flow T D V).spec = s := by
  have h : (s.children.mapIdx fun i c => (⟨ids (i + 1), c, 0, 0, .waiting⟩ : Job T D V)).map
      Job.spec = s.children := by
    refine List.ext_getElem? fun i => ?_
    rw [List.getElem?_map, List.getElem?_mapIdx]
    cases s.children[i]? <;> rfl
  simp only [add, spec, h]

@[simp] theorem value?_add (ids : ℕ → JobId) (s : FlowSpec D) (i : ℕ) :
    (Flow.add ids s : Flow T D V).value? i = none := by
  simp only [add, value?, List.getElem?_mapIdx]
  cases s.children[i]? <;> rfl

theorem job?_spec (F : Flow T D V) (c : Option ℕ) :
    F.spec.job? c = (F.job? c).map Job.spec := by
  cases c <;> simp [spec, FlowSpec.job?, job?]

theorem spec_modify (F : Flow T D V) (c : Option ℕ) {f : Job T D V → Job T D V}
    (hspec : ∀ j, (f j).spec = j.spec) : (F.modify c f).spec = F.spec := by
  cases c with
  | none => simp [modify, spec, hspec]
  | some i =>
    have h : (F.children.modify i f).map Job.spec = F.children.map Job.spec := by
      refine List.ext_getElem? fun k => ?_
      rw [List.getElem?_map, List.getElem?_modify, List.getElem?_map]
      cases F.children[k]? <;> by_cases hik : i = k <;> simp [hik, hspec]
    simp [modify, spec, h]

theorem value?_modify (F : Flow T D V) (c : Option ℕ) (f : Job T D V → Job T D V) (i : ℕ) :
    (F.modify c f).value? i =
      if c = some i then (F.children[i]?.map f).bind fun j => j.state.value? else F.value? i := by
  cases c with
  | none => simp [modify, value?]
  | some k =>
    simp only [modify, value?, List.getElem?_modify, Option.some.injEq]
    by_cases h : k = i <;> simp [h]

@[simp] theorem spec_release (F : Flow T D V) : F.release.spec = F.spec := by
  unfold release
  split
  · split <;> rfl
  · rfl

@[simp] theorem value?_release (F : Flow T D V) (i : ℕ) : F.release.value? i = F.value? i := by
  unfold release
  split
  · split <;> rfl
  · rfl

@[simp] theorem spec_failParent (F : Flow T D V) : F.failParent.spec = F.spec := by
  unfold failParent
  split <;> rfl

@[simp] theorem value?_failParent (F : Flow T D V) (i : ℕ) :
    F.failParent.value? i = F.value? i := by
  unfold failParent
  split <;> rfl

theorem release_of_ready {F : Flow T D V} (h : F.root.state = .waitingChildren)
    (hall : ∀ j ∈ F.children, j.state.isCompleted = true) :
    F.release = F.modify none fun j => { j with state := .waiting } := by
  have hall' : (F.children.all fun j => j.state.isCompleted) = true := List.all_eq_true.mpr hall
  simp only [release, h, hall', if_true, modify]

theorem release_of_not {F : Flow T D V} (h : ¬ (F.root.state = .waitingChildren ∧
    ∀ j ∈ F.children, j.state.isCompleted = true)) : F.release = F := by
  unfold release
  split
  next hroot =>
    split
    next hall => exact (h ⟨hroot, List.all_eq_true.mp hall⟩).elim
    next => rfl
  next => rfl

theorem failParent_of_waiting {F : Flow T D V} (h : F.root.state = .waitingChildren) :
    F.failParent = F.modify none fun j => { j with state := .failed } := by
  simp only [failParent, h, modify]

theorem failParent_of_not {F : Flow T D V} (h : F.root.state ≠ .waitingChildren) :
    F.failParent = F := by
  unfold failParent
  split
  next hroot => exact (h hroot).elim
  next => rfl

/-- A setback changes its job, and may fail the parent of a job that it fails. -/
theorem setback_cases (F : Flow T D V) (c : Option ℕ) (f : Job T D V → Job T D V) :
    (F.setback c f = F.modify c f ∧ ∀ i j, c = some i → F.job? c = some j →
      (f j).state.isFailed = true → j.spec.opts.failParentOnFailure = false) ∨
      F.setback c f = (F.modify c f).failParent ∧ ∃ i j, c = some i ∧ F.job? c = some j ∧
        (f j).state.isFailed = true ∧ j.spec.opts.failParentOnFailure = true := by
  unfold setback
  dsimp only
  split
  next i j hj =>
    split
    next h => exact Or.inr ⟨rfl, i, j, rfl, hj, Bool.and_eq_true_iff.mp h⟩
    next h =>
      refine Or.inl ⟨rfl, fun _ j' _ hj' hfailed => ?_⟩
      obtain rfl := Option.some.inj (hj.symm.trans hj')
      simpa [hfailed] using h
  next hnone => exact Or.inl ⟨rfl, fun i j hi hj => (hnone i j hi hj).elim⟩

theorem setback_of_not_failed (F : Flow T D V) {c : Option ℕ} {j : Job T D V}
    {f : Job T D V → Job T D V} (hj : F.job? c = some j) (h : (f j).state.isFailed = false) :
    F.setback c f = F.modify c f := by
  rcases F.setback_cases c f with ⟨heq, -⟩ | ⟨-, i, j', -, hj', hfailed, -⟩
  · exact heq
  · rw [Option.some.inj (hj.symm.trans hj'), hfailed] at h
    cases h

theorem start_eq_some {F F' : Flow T D V} {c : Option ℕ} {t : T} :
    F.start c t = some F' ↔ (∃ j, F.job? c = some j ∧ j.state = .waiting) ∧
      F' = F.modify c fun j => { j with state := .active t } := by
  unfold start
  cases hj : F.job? c with
  | none => simp
  | some j => cases hs : j.state <;> simp [hs, eq_comm]

theorem promote_eq_some {F F' : Flow T D V} {c : Option ℕ} :
    F.promote c = some F' ↔ (∃ j, F.job? c = some j ∧ j.state = .delayed) ∧
      F' = F.modify c fun j => { j with state := .waiting } := by
  unfold promote
  cases hj : F.job? c with
  | none => simp
  | some j => cases hs : j.state <;> simp [hs, eq_comm]

theorem stall_eq_some {F F' : Flow T D V} {c : Option ℕ} :
    F.stall c = some F' ↔ (∃ t, F.Holds c t) ∧ F' = F.setback c Job.afterStall := by
  unfold stall Holds
  cases hj : F.job? c with
  | none => simp
  | some j => cases hs : j.state <;> simp [hs, eq_comm]

@[simp] theorem spec_complete (F : Flow T D V) (c : Option ℕ) (v : V) :
    (F.complete c v).spec = F.spec := by
  have h := F.spec_modify c (f := fun j => { j with state := .completed v }) fun _ => rfl
  cases c <;> simpa [complete] using h

theorem spec_setback (F : Flow T D V) (c : Option ℕ) {f : Job T D V → Job T D V}
    (hf : ∀ j, (f j).spec = j.spec) : (F.setback c f).spec = F.spec := by
  have h := F.spec_modify c hf
  rcases F.setback_cases c f with ⟨heq, -⟩ | ⟨heq, -⟩ <;> simpa [heq] using h

@[simp] theorem spec_fail (F : Flow T D V) (c : Option ℕ) : (F.fail c).spec = F.spec :=
  F.spec_setback c Job.afterFailure_spec

theorem spec_start {F F' : Flow T D V} {c : Option ℕ} {t : T}
    (h : F.start c t = some F') : F'.spec = F.spec := by
  obtain ⟨-, rfl⟩ := start_eq_some.mp h
  exact spec_modify _ _ fun _ => rfl

theorem spec_promote {F F' : Flow T D V} {c : Option ℕ}
    (h : F.promote c = some F') : F'.spec = F.spec := by
  obtain ⟨-, rfl⟩ := promote_eq_some.mp h
  exact spec_modify _ _ fun _ => rfl

theorem spec_stall {F F' : Flow T D V} {c : Option ℕ}
    (h : F.stall c = some F') : F'.spec = F.spec := by
  obtain ⟨-, rfl⟩ := stall_eq_some.mp h
  exact spec_setback _ _ Job.afterStall_spec

/-! Results of children: only `complete` adds one. -/

private theorem value?_of_modify {F : Flow T D V} {c : Option ℕ} {f : Job T D V → Job T D V}
    (hf : ∀ j, (f j).state.value? = none) {i : ℕ} {v : V}
    (h : (F.modify c f).value? i = some v) : F.value? i = some v := by
  rw [value?_modify] at h
  split at h
  · cases hj : F.children[i]? with
    | none => simp [hj] at h
    | some j => simp [hj, hf] at h
  · exact h

theorem value?_start {F F' : Flow T D V} {c : Option ℕ} {t : T} (hs : F.start c t = some F')
    {i : ℕ} {v : V} (h : F'.value? i = some v) : F.value? i = some v := by
  obtain ⟨-, rfl⟩ := start_eq_some.mp hs
  exact value?_of_modify (fun _ => rfl) h

theorem value?_promote {F F' : Flow T D V} {c : Option ℕ} (hs : F.promote c = some F')
    {i : ℕ} {v : V} (h : F'.value? i = some v) : F.value? i = some v := by
  obtain ⟨-, rfl⟩ := promote_eq_some.mp hs
  exact value?_of_modify (fun _ => rfl) h

theorem value?_setback {F : Flow T D V} {c : Option ℕ} {f : Job T D V → Job T D V}
    (hf : ∀ j, (f j).Unfinished) {i : ℕ} {v : V} (h : (F.setback c f).value? i = some v) :
    F.value? i = some v := by
  refine value?_of_modify (fun j => (hf j).value?_eq_none) (c := c) ?_
  rcases F.setback_cases c f with ⟨heq, -⟩ | ⟨heq, -⟩ <;> simpa [heq] using h

theorem value?_stall {F F' : Flow T D V} {c : Option ℕ} (hs : F.stall c = some F')
    {i : ℕ} {v : V} (h : F'.value? i = some v) : F.value? i = some v := by
  obtain ⟨-, rfl⟩ := stall_eq_some.mp hs
  exact value?_setback Job.unfinished_afterStall h

theorem value?_fail {F : Flow T D V} {c : Option ℕ} {i : ℕ} {v : V}
    (h : (F.fail c).value? i = some v) : F.value? i = some v :=
  value?_setback Job.unfinished_afterFailure h

theorem value?_complete {F : Flow T D V} {c : Option ℕ} {v w : V} {i : ℕ}
    (h : (F.complete c v).value? i = some w) :
    (c = some i ∧ w = v) ∨ F.value? i = some w := by
  have hm : (F.modify c fun j => { j with state := .completed v }).value? i = some w := by
    cases c <;> simpa [complete] using h
  rw [value?_modify] at hm
  split at hm
  next hc =>
    left
    cases hj : F.children[i]? with
    | none => simp [hj] at hm
    | some j =>
      simp only [hj, Option.map_some, Option.bind_some, JobState.value?,
        Option.some.injEq] at hm
      exact ⟨hc, hm.symm⟩
  next => exact Or.inr hm

/-! Locks: only a stall or the end of its own attempt takes a lock from a delivery. -/

theorem Holds.modify {F : Flow T D V} {c d : Option ℕ} {t : T} (h : F.Holds c t) (hne : c ≠ d)
    (f : Job T D V → Job T D V) : (F.modify d f).Holds c t := by
  obtain ⟨j, hj, hactive⟩ := h
  exact ⟨j, by rw [job?_modify, if_neg hne, hj], hactive⟩

theorem Holds.modify_waiting {F : Flow T D V} {c d : Option ℕ} {t : T} (h : F.Holds c t)
    (hd : ∀ j, F.job? d = some j → ∀ u, j.state ≠ .active u) (f : Job T D V → Job T D V) :
    (F.modify d f).Holds c t := by
  refine h.modify ?_ f
  rintro rfl
  obtain ⟨j, hj, hactive⟩ := h
  exact hd j hj t hactive

theorem Holds.start {F F' : Flow T D V} {c d : Option ℕ} {t u : T} (h : F.Holds c t)
    (hs : F.start d u = some F') : F'.Holds c t := by
  obtain ⟨⟨j, hj, hwaiting⟩, rfl⟩ := start_eq_some.mp hs
  refine h.modify_waiting (fun j' hj' u hactive => ?_) _
  obtain rfl := Option.some.inj (hj.symm.trans hj')
  rw [hwaiting] at hactive
  cases hactive

theorem Holds.promote {F F' : Flow T D V} {c d : Option ℕ} {t : T} (h : F.Holds c t)
    (hs : F.promote d = some F') : F'.Holds c t := by
  obtain ⟨⟨j, hj, hdelayed⟩, rfl⟩ := promote_eq_some.mp hs
  refine h.modify_waiting (fun j' hj' u hactive => ?_) _
  obtain rfl := Option.some.inj (hj.symm.trans hj')
  rw [hdelayed] at hactive
  cases hactive

theorem Holds.release {F : Flow T D V} {c : Option ℕ} {t : T} (h : F.Holds c t) :
    F.release.Holds c t := by
  by_cases hc : F.root.state = .waitingChildren ∧ ∀ j ∈ F.children, j.state.isCompleted = true
  · rw [release_of_ready hc.1 hc.2]
    refine h.modify_waiting (fun j' hj' u hactive => ?_) _
    obtain rfl := Option.some.inj hj'
    rw [hc.1] at hactive
    cases hactive
  · rwa [release_of_not hc]

theorem Holds.failParent {F : Flow T D V} {c : Option ℕ} {t : T} (h : F.Holds c t) :
    F.failParent.Holds c t := by
  by_cases hc : F.root.state = .waitingChildren
  · rw [failParent_of_waiting hc]
    refine h.modify_waiting (fun j' hj' u hactive => ?_) _
    obtain rfl := Option.some.inj hj'
    rw [hc] at hactive
    cases hactive
  · rwa [failParent_of_not hc]

theorem Holds.complete {F : Flow T D V} {c d : Option ℕ} {t : T} (h : F.Holds c t) (hne : c ≠ d)
    (v : V) : (F.complete d v).Holds c t := by
  have hm := h.modify hne fun j => { j with state := .completed v }
  cases d with
  | none => exact hm
  | some i => exact hm.release

theorem Holds.fail {F : Flow T D V} {c d : Option ℕ} {t : T} (h : F.Holds c t) (hne : c ≠ d) :
    (F.fail d).Holds c t := by
  have hm := h.modify hne Job.afterFailure
  rw [Flow.fail]
  rcases F.setback_cases d Job.afterFailure with ⟨heq, -⟩ | ⟨heq, -⟩ <;> rw [heq]
  · exact hm
  · exact hm.failParent

end Flow
end Queues
