import BeatmapBackend.Queues.Flows

/-! Nothing runs too early: a root that neither waits for its children nor was failed has
only completed children, and a completed child stays so. -/
namespace Queues

variable {T D V : Type}

namespace Flow

variable {F F' : Flow T D V} {c : Option ℕ} {t : T} {j : Job T D V}

def AllDone (F : Flow T D V) : Prop := ∀ j ∈ F.children, j.state.isCompleted = true

def Released (F : Flow T D V) : Prop :=
  F.root.state ≠ .waitingChildren → F.root.state ≠ .failed → F.AllDone

theorem Released.add (ids : ℕ → JobId) (s : FlowSpec D) :
    (Flow.add ids s : Flow T D V).Released := by
  intro hroot _ j hj
  cases hs : s.children with
  | nil => simp [Flow.add, hs] at hj
  | cons a l => simp [Flow.add, hs] at hroot

/-- An event at a job that is not completed is an event at the root. -/
theorem AllDone.root_of_open (h : F.AllDone) (hj : F.job? c = some j)
    (hopen : j.state.isCompleted = false) : c = none := by
  cases c with
  | none => rfl
  | some i =>
    have hdone := h j (List.mem_of_getElem? hj)
    simp [hopen] at hdone

theorem AllDone.modify (h : F.AllDone) (hj : F.job? c = some j)
    (hopen : j.state.isCompleted = false) (f : Job T D V → Job T D V) : (F.modify c f).AllDone := by
  obtain rfl := h.root_of_open hj hopen
  exact h

theorem AllDone.start (h : F.AllDone) (hs : F.start c t = some F') : F'.AllDone := by
  obtain ⟨⟨j, hj, hstate⟩, rfl⟩ := start_eq_some.mp hs
  exact h.modify hj (by rw [hstate]; rfl) _

theorem AllDone.promote (h : F.AllDone) (hs : F.promote c = some F') : F'.AllDone := by
  obtain ⟨⟨j, hj, hstate⟩, rfl⟩ := promote_eq_some.mp hs
  exact h.modify hj (by rw [hstate]; rfl) _

theorem AllDone.complete (h : F.AllDone) (hh : F.Holds c t) (v : V) : (F.complete c v).AllDone := by
  obtain ⟨j, hj, hstate⟩ := hh
  obtain rfl := h.root_of_open hj (by rw [hstate]; rfl)
  exact h

private theorem AllDone.setback (h : F.AllDone) (hh : F.Holds c t)
    (f : Job T D V → Job T D V) : (F.setback c f).AllDone := by
  obtain ⟨j, hj, hstate⟩ := hh
  obtain rfl := h.root_of_open hj (by rw [hstate]; rfl)
  exact h

theorem AllDone.stall (h : F.AllDone) (hs : F.stall c = some F') : F'.AllDone := by
  obtain ⟨⟨t, hh⟩, rfl⟩ := stall_eq_some.mp hs
  exact h.setback hh _

theorem AllDone.fail (h : F.AllDone) (hh : F.Holds c t) : (F.fail c).AllDone := h.setback hh _

/-- While the root waits a child may do anything; afterwards only the root moves. -/
private theorem Released.modify (h : F.Released) (hj : F.job? c = some j)
    (hroot : c = none → j.state ≠ .waitingChildren ∧ j.state ≠ .failed)
    (hopen : j.state.isCompleted = false) (f : Job T D V → Job T D V) :
    (F.modify c f).Released := by
  cases c with
  | none =>
    obtain rfl := Option.some.inj hj
    intro _ _
    exact h (hroot rfl).1 (hroot rfl).2
  | some i =>
    intro hwait hfail
    exact (h hwait hfail).modify hj hopen f

theorem Released.start (h : F.Released) (hs : F.start c t = some F') : F'.Released := by
  obtain ⟨⟨j, hj, hstate⟩, rfl⟩ := start_eq_some.mp hs
  exact h.modify hj (fun _ => by simp [hstate]) (by rw [hstate]; rfl) _

theorem Released.promote (h : F.Released) (hs : F.promote c = some F') : F'.Released := by
  obtain ⟨⟨j, hj, hstate⟩, rfl⟩ := promote_eq_some.mp hs
  exact h.modify hj (fun _ => by simp [hstate]) (by rw [hstate]; rfl) _

theorem Released.complete (h : F.Released) (hh : F.Holds c t) (v : V) :
    (F.complete c v).Released := by
  obtain ⟨j, hj, hstate⟩ := hh
  have hm := h.modify hj (fun _ => by simp [hstate]) (by rw [hstate]; rfl)
    fun j => { j with state := .completed v }
  cases c with
  | none => exact hm
  | some i =>
    show (Flow.modify F (some i) _).release.Released
    by_cases hr : (F.modify (some i) fun j => { j with state := .completed v }).root.state =
        .waitingChildren ∧ (F.modify (some i) fun j => { j with state := .completed v }).AllDone
    · rw [release_of_ready hr.1 hr.2]
      exact fun _ _ => hr.2
    · rwa [release_of_not hr]

private theorem Released.setback (h : F.Released) (hh : F.Holds c t)
    (f : Job T D V → Job T D V) : (F.setback c f).Released := by
  obtain ⟨j, hj, hstate⟩ := hh
  have hm := h.modify hj (fun _ => by simp [hstate]) (by rw [hstate]; rfl) f
  rcases F.setback_cases c f with ⟨heq, -⟩ | ⟨heq, -⟩ <;> rw [heq]
  · exact hm
  · by_cases hr : (F.modify c f).root.state = .waitingChildren
    · rw [failParent_of_waiting hr]
      exact fun _ hfail => (hfail rfl).elim
    · rwa [failParent_of_not hr]

theorem Released.stall (h : F.Released) (hs : F.stall c = some F') : F'.Released := by
  obtain ⟨⟨t, hh⟩, rfl⟩ := stall_eq_some.mp hs
  exact h.setback hh _

theorem Released.fail (h : F.Released) (hh : F.Holds c t) : (F.fail c).Released := h.setback hh _

/-- An attempt at the root finds its children completed. -/
theorem Released.of_waiting (h : F.Released) (hroot : F.root.state = .waiting) : F.AllDone :=
  h (by simp [hroot]) (by simp [hroot])

end Flow
end Queues
