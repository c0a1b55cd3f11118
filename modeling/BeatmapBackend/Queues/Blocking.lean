import BeatmapBackend.Queues.Flows

/-! Nothing waits in vain: a root that waits for its children still has a child to wait for,
and has not been failed by one. Who holds a lock has taken it, and has not let it go. -/
namespace Queues

variable {T D V : Type}

/-- Nothing moves a job in this state but an event at another job. -/
def JobState.still : JobState T V → Bool
  | .waitingChildren | .completed _ | .failed => true
  | _ => false

namespace Flow

variable {F F' : Flow T D V} {c d : Option ℕ} {t u : T} {f : Job T D V → Job T D V}

/-- A blocked root has an open child, and no failed child that would have failed it. -/
structure Waits (F : Flow T D V) : Prop where
  children : ∀ j ∈ F.children, j.state ≠ .waitingChildren
  opened : F.root.state = .waitingChildren → ∃ j ∈ F.children, j.state.isCompleted = false
  alive : F.root.state = .waitingChildren → ∀ j ∈ F.children,
    j.spec.opts.failParentOnFailure = true → j.state ≠ .failed

theorem Waits.add (ids : ℕ → JobId) (s : FlowSpec D) : (Flow.add ids s : Flow T D V).Waits := by
  have hnew {j : Job T D V} (hj : j ∈ (Flow.add ids s).children) : j.state = .waiting := by
    obtain ⟨i, hi, rfl⟩ := List.mem_mapIdx.mp hj
    rfl
  refine ⟨fun j hj => by simp [hnew hj], fun hroot => ?_, fun _ j hj _ => by simp [hnew hj]⟩
  cases hs : s.children with
  | nil => simp [Flow.add, hs] at hroot
  | cons a l => exact ⟨⟨ids 1, a, 0, 0, .waiting⟩, by simp [Flow.add, hs], rfl⟩

/-- A child of the changed flow is an old one or the changed one. -/
private theorem mem_children_modify {i : ℕ} {j : Job T D V}
    (hj : j ∈ (F.modify (some i) f).children) :
    j ∈ F.children ∨ ∃ j₀, F.job? (some i) = some j₀ ∧ j = f j₀ := by
  obtain ⟨k, hk⟩ := List.getElem?_of_mem hj
  have hk' : (F.modify (some i) f).job? (some k) = some j := hk
  rw [job?_modify] at hk'
  split at hk'
  next hki =>
    obtain ⟨j₀, hj₀, rfl⟩ := Option.map_eq_some_iff.mp hk'
    exact Or.inr ⟨j₀, hki ▸ hj₀, rfl⟩
  next => exact Or.inl (List.mem_of_getElem? hk')

/-- A root that moves is not blocked afterwards. -/
private theorem Waits.modify_root (h : F.Waits)
    (hf : (f F.root).state ≠ .waitingChildren) : (F.modify none f).Waits :=
  ⟨h.children, fun hr => (hf hr).elim, fun hr => (hf hr).elim⟩

/-- A child that moves stays one to wait for. -/
private theorem Waits.modify_child (h : F.Waits) {i : ℕ} {j : Job T D V}
    (hj : F.job? (some i) = some j)
    (hblocked : (f j).state ≠ .waitingChildren) (hopen : (f j).state.isCompleted = false)
    (halive : (f j).spec.opts.failParentOnFailure = true → (f j).state ≠ .failed) :
    (F.modify (some i) f).Waits := by
  have hmem {j' : Job T D V} (hj' : j' ∈ (F.modify (some i) f).children) :
      j' ∈ F.children ∨ j' = f j := by
    rcases mem_children_modify hj' with hold | ⟨j₀, hj₀, rfl⟩
    · exact Or.inl hold
    · exact Or.inr (by rw [Option.some.inj (hj₀.symm.trans hj)])
  have hself : (F.modify (some i) f).job? (some i) = some (f j) := by
    rw [job?_modify_self, hj, Option.map_some]
  refine ⟨fun j' hj' => ?_, fun _ => ⟨f j, List.mem_of_getElem? hself, hopen⟩,
    fun hr j' hj' hfp => ?_⟩
  · rcases hmem hj' with hold | rfl
    · exact h.children j' hold
    · exact hblocked
  · rcases hmem hj' with hold | rfl
    · exact h.alive hr j' hold hfp
    · exact halive hfp

/-- A job that is set to a state in which nothing has been decided. -/
private theorem Waits.modify_open (h : F.Waits) {j : Job T D V}
    (hj : F.job? c = some j) (hblocked : (f j).state ≠ .waitingChildren)
    (hopen : (f j).state.isCompleted = false) (hfailed : (f j).state ≠ .failed) :
    (F.modify c f).Waits := by
  cases c with
  | none =>
    obtain rfl := Option.some.inj hj
    exact h.modify_root hblocked
  | some i => exact h.modify_child hj hblocked hopen fun _ => hfailed

theorem Waits.start (h : F.Waits) (hs : F.start c t = some F') : F'.Waits := by
  obtain ⟨⟨j, hj, -⟩, rfl⟩ := start_eq_some.mp hs
  exact h.modify_open hj nofun rfl nofun

theorem Waits.promote (h : F.Waits) (hs : F.promote c = some F') : F'.Waits := by
  obtain ⟨⟨j, hj, -⟩, rfl⟩ := promote_eq_some.mp hs
  exact h.modify_open hj nofun rfl nofun

/-- The last child to complete releases the root. -/
theorem Waits.complete (h : F.Waits) (c : Option ℕ) (v : V) : (F.complete c v).Waits := by
  cases c with
  | none =>
    have hroot : ({ F.root with state := .completed v } : Job T D V).state ≠ .waitingChildren :=
      nofun
    exact h.modify_root (f := fun j => { j with state := .completed v }) hroot
  | some i =>
    set G := F.modify (some i) fun j => { j with state := .completed v } with hG
    have hmem {j : Job T D V} (hj : j ∈ G.children) :
        j ∈ F.children ∨ ∃ j₀ : Job T D V, j = { j₀ with state := .completed v } := by
      rcases mem_children_modify hj with hold | ⟨j₀, -, hj₀⟩
      · exact Or.inl hold
      · exact Or.inr ⟨j₀, hj₀⟩
    have hchildren : ∀ j ∈ G.children, j.state ≠ .waitingChildren := by
      intro j hj
      rcases hmem hj with hold | ⟨j₀, rfl⟩
      · exact h.children j hold
      · nofun
    show G.release.Waits
    by_cases hr : G.root.state = .waitingChildren ∧ ∀ j ∈ G.children, j.state.isCompleted = true
    · rw [release_of_ready hr.1 hr.2]
      exact ⟨hchildren, nofun, nofun⟩
    · rw [release_of_not hr]
      refine ⟨hchildren, fun hroot => ?_, fun hroot j hj hfp => ?_⟩
      · by_contra hno
        refine hr ⟨hroot, fun j hj => ?_⟩
        by_contra hopen
        exact hno ⟨j, hj, Bool.not_eq_true _ ▸ hopen⟩
      · rcases hmem hj with hold | ⟨j₀, rfl⟩
        · exact h.alive hroot j hold hfp
        · nofun

/-- A child that fails fails the root, unless its options say otherwise. -/
private theorem Waits.setback (h : F.Waits) (c : Option ℕ) (hspec : ∀ j, (f j).spec = j.spec)
    (hf : ∀ j, (f j).Unfinished) : (F.setback c f).Waits := by
  rcases F.setback_cases c f with ⟨heq, hpolicy⟩ | ⟨heq, i, j, rfl, -⟩ <;> rw [heq]
  · cases c with
    | none => exact h.modify_root (hf F.root).unblocked
    | some i =>
      cases hj : F.job? (some i) with
      | none =>
        have hi : F.children.length ≤ i := List.getElem?_eq_none_iff.mp hj
        rwa [show F.modify (some i) f = F by simp [modify, List.modify_eq_self hi]]
      | some j =>
        refine h.modify_child hj (hf j).unblocked (hf j).unanswered fun hfp hfailed => ?_
        have hno := hpolicy i j rfl hj (by rw [hfailed]; rfl)
        rw [hspec, hno] at hfp
        cases hfp
  · have hchildren : ∀ j' ∈ (F.modify (some i) f).children, j'.state ≠ .waitingChildren := by
      intro j' hj'
      rcases mem_children_modify hj' with hold | ⟨j₀, -, rfl⟩
      · exact h.children j' hold
      · exact (hf j₀).unblocked
    by_cases hr : (F.modify (some i) f).root.state = .waitingChildren
    · rw [failParent_of_waiting hr]
      exact ⟨hchildren, fun hroot => (by cases hroot), fun hroot => (by cases hroot)⟩
    · rw [failParent_of_not hr]
      exact ⟨hchildren, fun hroot => (hr hroot).elim, fun hroot => (hr hroot).elim⟩

theorem Waits.stall (h : F.Waits) (hs : F.stall c = some F') : F'.Waits := by
  obtain ⟨-, rfl⟩ := stall_eq_some.mp hs
  exact h.setback c Job.afterStall_spec Job.unfinished_afterStall

theorem Waits.fail (h : F.Waits) (c : Option ℕ) : (F.fail c).Waits :=
  h.setback c Job.afterFailure_spec Job.unfinished_afterFailure

/-! Locks after an operation were held before it, but for the one that `start` takes. -/

private theorem holds_of_modify (h : (F.modify c f).Holds d u)
    (hf : ∀ j : Job T D V, ∀ u, (f j).state ≠ .active u) : F.Holds d u := by
  obtain ⟨j, hj, hactive⟩ := h
  rw [job?_modify] at hj
  split at hj
  · obtain ⟨j₀, -, rfl⟩ := Option.map_eq_some_iff.mp hj
    exact (hf j₀ u hactive).elim
  · exact ⟨j, hj, hactive⟩

theorem not_holds_add (ids : ℕ → JobId) (s : FlowSpec D) :
    ¬ (Flow.add ids s : Flow T D V).Holds c t := by
  rintro ⟨j, hj, hactive⟩
  cases c with
  | none =>
    obtain rfl := Option.some.inj hj
    simp only [add] at hactive
    split at hactive <;> cases hactive
  | some i =>
    have hi : (s.children.mapIdx fun i c => (⟨ids (i + 1), c, 0, 0, .waiting⟩ : Job T D V))[i]? =
        some j := hj
    rw [List.getElem?_mapIdx] at hi
    obtain ⟨spec, -, rfl⟩ := Option.map_eq_some_iff.mp hi
    cases hactive

theorem holds_of_start (hs : F.start c t = some F') (h : F'.Holds d u) :
    (d = c ∧ u = t) ∨ F.Holds d u := by
  obtain ⟨⟨j, hj, -⟩, rfl⟩ := start_eq_some.mp hs
  obtain ⟨j', hj', hactive⟩ := h
  rw [job?_modify] at hj'
  split at hj'
  next hdc =>
    obtain ⟨j₀, -, rfl⟩ := Option.map_eq_some_iff.mp hj'
    exact Or.inl ⟨hdc, (JobState.active.inj hactive).symm⟩
  next => exact Or.inr ⟨j', hj', hactive⟩

theorem holds_of_promote (hs : F.promote c = some F') (h : F'.Holds d u) : F.Holds d u := by
  obtain ⟨-, rfl⟩ := promote_eq_some.mp hs
  exact holds_of_modify h fun _ _ => nofun

private theorem holds_of_release (h : F.release.Holds d u) : F.Holds d u := by
  by_cases hr : F.root.state = .waitingChildren ∧ ∀ j ∈ F.children, j.state.isCompleted = true
  · rw [release_of_ready hr.1 hr.2] at h
    exact holds_of_modify h fun _ _ => nofun
  · rwa [release_of_not hr] at h

private theorem holds_of_failParent (h : F.failParent.Holds d u) : F.Holds d u := by
  by_cases hr : F.root.state = .waitingChildren
  · rw [failParent_of_waiting hr] at h
    exact holds_of_modify h fun _ _ => nofun
  · rwa [failParent_of_not hr] at h

theorem holds_of_complete {v : V} (h : (F.complete c v).Holds d u) : F.Holds d u := by
  have hm : (F.modify c fun j => { j with state := .completed v }).Holds d u := by
    cases c with
    | none => exact h
    | some i => exact holds_of_release h
  exact holds_of_modify hm fun _ _ => nofun

private theorem holds_of_setback (hf : ∀ j, (f j).Unfinished) (h : (F.setback c f).Holds d u) :
    F.Holds d u := by
  rcases F.setback_cases c f with ⟨heq, -⟩ | ⟨heq, -⟩ <;> rw [heq] at h
  · exact holds_of_modify h fun j => (hf j).free
  · exact holds_of_modify (holds_of_failParent h) fun j => (hf j).free

theorem holds_of_stall (hs : F.stall c = some F') (h : F'.Holds d u) : F.Holds d u := by
  obtain ⟨-, rfl⟩ := stall_eq_some.mp hs
  exact holds_of_setback Job.unfinished_afterStall h

theorem holds_of_fail (h : (F.fail c).Holds d u) : F.Holds d u :=
  holds_of_setback Job.unfinished_afterFailure h

/-- Where nothing moves by itself and children fail their root, everything is over. -/
theorem Waits.over (h : F.Waits)
    (hpolicy : ∀ j ∈ F.children, j.spec.opts.failParentOnFailure = true)
    (hstill : ∀ c j, F.job? c = some j → j.state.still = true) {j : Job T D V}
    (hj : F.job? c = some j) : j.state.isOver = true := by
  have hchild {j : Job T D V} (hj : j ∈ F.children) : j.state.isOver = true := by
    obtain ⟨i, hi⟩ := List.getElem?_of_mem hj
    have hs := hstill (some i) j hi
    cases hstate : j.state <;> simp [hstate, JobState.still] at hs <;>
      first | rfl | exact absurd hstate (h.children j hj)
  cases c with
  | some i => exact hchild (List.mem_of_getElem? hj)
  | none =>
    obtain rfl := Option.some.inj hj
    have hs := hstill none _ rfl
    cases hroot : F.root.state with
    | waitingChildren =>
      obtain ⟨j, hmem, hopen⟩ := h.opened hroot
      have hno := h.alive hroot j hmem (hpolicy j hmem)
      have hover := hchild hmem
      cases hstate : j.state <;> simp_all [JobState.isOver, JobState.isCompleted]
    | completed v => rfl
    | failed => rfl
    | _ => simp [hroot, JobState.still] at hs

end Flow
end Queues
