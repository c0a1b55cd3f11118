import BeatmapBackend.Collections.Journal
import BeatmapBackend.Queues.Flows
import Mathlib.Logic.Relation

/-! Workers that share a journal without a lock. Each looks once which tasks are entered, skips
those, and enters the others one by one as they are done. One that would enter a task another has
entered in the meantime gives up. -/
namespace Queues
open Collections

inductive Fate where
  | idle
  | working
  | finished
  /-- Another worker has entered the task first. -/
  | overtaken
  | crashed
  deriving DecidableEq

structure Worker (α : Type) where
  done : List α
  todo : List α
  /-- What it has entered itself. -/
  entered : List α
  /-- What it saw entered, before it looks what was entered when it joined. -/
  known : List α
  fate : Fate

structure Ledger (α : Type) where
  journal : List α
  workers : List (Worker α)
  last : Option ℕ

variable {α : Type}

namespace Worker

def fresh (journal tasks : List α) : Worker α := ⟨[], tasks, [], journal, .idle⟩

def look (W : Worker α) (known : List α) : Worker α := { W with known := known, fate := .working }

def pass (W : Worker α) (t : α) (todo : List α) : Worker α :=
  { W with done := W.done ++ [t], todo := todo }

def enter (W : Worker α) (t : α) (todo : List α) (fate : Fate) : Worker α :=
  { W with done := W.done ++ [t], todo := todo, entered := W.entered ++ [t], fate := fate }

def stop (W : Worker α) (fate : Fate) : Worker α := { W with fate := fate }

/-- Why a worker has ended. -/
def Accounted (journal : List α) (W : Worker α) : Prop :=
  match W.fate with
  | .finished => W.todo = []
  | .overtaken => ∃ t, W.todo.head? = some t ∧ t ∈ journal ∧ t ∉ W.known
  | _ => True

end Worker

namespace Ledger

inductive Step : Ledger α → Ledger α → Prop
  | join {L : Ledger α} (tasks : List α) :
      Step L { L with workers := L.workers ++ [.fresh L.journal tasks] }
  | look {L : Ledger α} {i : ℕ} {W : Worker α} {known : List α} (hW : L.workers[i]? = some W)
      (hfate : W.fate = .idle) (hold : W.known ⊆ known) (hknown : known ⊆ L.journal) :
      Step L { L with workers := L.workers.set i (W.look known) }
  | skip {L : Ledger α} {i : ℕ} {W : Worker α} {t : α} {todo : List α}
      (hW : L.workers[i]? = some W) (hfate : W.fate = .working) (htodo : W.todo = t :: todo)
      (ht : t ∈ W.known) : Step L { L with workers := L.workers.set i (W.pass t todo) }
  | enter {L : Ledger α} {i : ℕ} {W : Worker α} {t : α} {todo : List α} {fate : Fate}
      (hW : L.workers[i]? = some W) (hfate : W.fate = .working) (htodo : W.todo = t :: todo)
      (ht : t ∉ L.journal) (hnext : fate = .working ∨ fate = .crashed) :
      Step L ⟨L.journal ++ [t], L.workers.set i (W.enter t todo fate), some i⟩
  | overtaken {L : Ledger α} {i : ℕ} {W : Worker α} {t : α} {todo : List α}
      (hW : L.workers[i]? = some W) (hfate : W.fate = .working) (htodo : W.todo = t :: todo)
      (ht : t ∈ L.journal) (hknown : t ∉ W.known) :
      Step L { L with workers := L.workers.set i (W.stop .overtaken) }
  | crash {L : Ledger α} {i : ℕ} {W : Worker α} (hW : L.workers[i]? = some W)
      (hfate : W.fate = .idle ∨ W.fate = .working) :
      Step L { L with workers := L.workers.set i (W.stop .crashed) }
  | finish {L : Ledger α} {i : ℕ} {W : Worker α} (hW : L.workers[i]? = some W)
      (hfate : W.fate = .working) (htodo : W.todo = []) :
      Step L { L with workers := L.workers.set i (W.stop .finished) }

/-- A worker and the journal, where `start` is what the journal held at first. -/
structure Fits (start journal : List α) (W : Worker α) : Prop where
  saw : start ⊆ W.known
  known : W.known ⊆ journal
  done : W.done ⊆ journal
  entered : W.entered.Sublist W.done
  fresh : start.Disjoint W.entered
  accounted : W.Accounted journal

/-- What holds of every ledger, whatever tasks its workers have. -/
structure Sound (start : List α) (L : Ledger α) : Prop where
  grown : start <+: L.journal
  fits : ∀ W ∈ L.workers, Fits start L.journal W
  /-- Every entry has been made by a worker. -/
  covered : ∀ t ∈ L.journal, t ∈ start ∨ ∃ W ∈ L.workers, t ∈ W.entered
  /-- No task is entered by two workers. -/
  apart : ∀ (i j : ℕ) (V W : Worker α), L.workers[i]? = some V → L.workers[j]? = some W → i ≠ j →
    V.entered.Disjoint W.entered

namespace Fits

variable {start journal : List α} {V W : Worker α}

theorem mono (h : Fits start journal W) {journal' : List α} (hgrown : journal ⊆ journal') :
    Fits start journal' W := by
  refine ⟨h.saw, List.Subset.trans h.known hgrown, List.Subset.trans h.done hgrown, h.entered,
    h.fresh, ?_⟩
  have haccounted := h.accounted
  unfold Worker.Accounted at haccounted ⊢
  split at haccounted
  · exact haccounted
  · obtain ⟨t, ht, hmem, hknown⟩ := haccounted
    exact ⟨t, ht, hgrown hmem, hknown⟩
  · trivial

theorem stop (h : Fits start journal W) {fate : Fate} (ha : (W.stop fate).Accounted journal) :
    Fits start journal (W.stop fate) :=
  ⟨h.saw, h.known, h.done, h.entered, h.fresh, ha⟩

end Fits

namespace Sound

variable {start journal : List α} {L L' : Ledger α} {i : ℕ} {V W : Worker α}

theorem empty (start : List α) : Sound start ⟨start, [], none⟩ := by
  constructor
  · exact List.prefix_refl start
  · simp
  · exact fun t ht => Or.inl ht
  · simp

/-- One worker has gone on, and may have entered something new. -/
theorem set (h : Sound start L) (hW : L.workers[i]? = some W) (last : Option ℕ)
    (hgrown : L.journal <+: journal) (hfits : Fits start journal V)
    (hentered : W.entered ⊆ V.entered) (hnew : ∀ t ∈ V.entered, t ∈ W.entered ∨ t ∉ L.journal)
    (hcovered : ∀ t ∈ journal, t ∈ L.journal ∨ t ∈ V.entered) :
    Sound start ⟨journal, L.workers.set i V, last⟩ := by
  have hfitsW := h.fits W (List.mem_of_getElem? hW)
  have hset : V ∈ L.workers.set i V := by
    have hi := (List.getElem?_eq_some_iff.mp hW).1
    exact List.mem_iff_getElem?.mpr ⟨i, List.getElem?_set_self hi⟩
  have hapart {j : ℕ} {U : Worker α} (hj : j ≠ i) (hU : L.workers[j]? = some U) :
      V.entered.Disjoint U.entered := by
    intro t htV htU
    have hfitsU := h.fits U (List.mem_of_getElem? hU)
    rcases hnew t htV with htW | hfresh
    · exact h.apart i j W U hW hU (Ne.symm hj) htW htU
    · exact hfresh (hfitsU.done (hfitsU.entered.subset htU))
  constructor
  case grown => exact h.grown.trans hgrown
  case fits =>
    intro U hU
    rcases List.mem_or_eq_of_mem_set hU with hU | rfl
    · exact (h.fits U hU).mono hgrown.subset
    · exact hfits
  case covered =>
    intro t ht
    rcases hcovered t ht with hold | hV
    · rcases h.covered t hold with hstart | ⟨U, hU, htU⟩
      · exact Or.inl hstart
      · obtain ⟨j, hj⟩ := List.mem_iff_getElem?.mp hU
        by_cases hji : j = i
        · subst hji
          obtain rfl : U = W := Option.some.inj (hj.symm.trans hW)
          exact Or.inr ⟨V, hset, hentered htU⟩
        · have hU' : (L.workers.set i V)[j]? = some U := by
            rw [List.getElem?_set_ne (Ne.symm hji)]
            exact hj
          exact Or.inr ⟨U, List.mem_of_getElem? hU', htU⟩
    · exact Or.inr ⟨V, hset, hV⟩
  case apart =>
    intro a b X Y hX hY hab
    rcases getElem?_set_cases hX with ⟨ha, hX'⟩ | ⟨rfl, rfl⟩
    · rcases getElem?_set_cases hY with ⟨-, hY'⟩ | ⟨rfl, rfl⟩
      · exact h.apart a b X Y hX' hY' hab
      · exact fun t htX htY => hapart ha hX' htY htX
    · rcases getElem?_set_cases hY with ⟨hb, hY'⟩ | ⟨rfl, -⟩
      · exact hapart hb hY'
      · exact (hab rfl).elim

/-- One worker has gone on, and the journal is as it was. -/
theorem setQuiet (h : Sound start L) (hW : L.workers[i]? = some W)
    (hfits : Fits start L.journal V) (hentered : V.entered = W.entered) :
    Sound start { L with workers := L.workers.set i V } :=
  h.set hW L.last (List.prefix_refl _) hfits (hentered ▸ List.Subset.refl _)
    (fun _ ht => Or.inl (hentered ▸ ht)) fun _ ht => Or.inl ht

theorem join (h : Sound start L) (tasks : List α) :
    Sound start { L with workers := L.workers ++ [.fresh L.journal tasks] } := by
  have hfresh : Fits start L.journal (.fresh L.journal tasks) := by
    refine ⟨h.grown.subset, List.Subset.refl _, List.nil_subset _, List.Sublist.refl _, ?_, trivial⟩
    exact List.disjoint_nil_right start
  constructor
  case grown => exact h.grown
  case fits =>
    intro V hV
    rcases List.mem_append.mp hV with hV | hV
    · exact h.fits V hV
    · exact List.mem_singleton.mp hV ▸ hfresh
  case covered =>
    intro t ht
    rcases h.covered t ht with hstart | ⟨W, hW, htW⟩
    · exact Or.inl hstart
    · exact Or.inr ⟨W, List.mem_append_left _ hW, htW⟩
  case apart =>
    intro i j V W hV hW hij
    rcases getElem?_concat_cases hV with hV' | ⟨-, rfl⟩
    · rcases getElem?_concat_cases hW with hW' | ⟨-, rfl⟩
      · exact h.apart i j V W hV' hW' hij
      · exact List.disjoint_nil_right V.entered
    · exact List.disjoint_nil_left W.entered

theorem step (h : Sound start L) (hstep : Step L L') : Sound start L' := by
  have hfits {i : ℕ} {W : Worker α} (hW : L.workers[i]? = some W) : Fits start L.journal W :=
    h.fits W (List.mem_of_getElem? hW)
  cases hstep with
  | join tasks => exact h.join tasks
  | look hW hfate hold hknown =>
    have hf := hfits hW
    have hsaw : start ⊆ _ := List.Subset.trans hf.saw hold
    exact h.setQuiet hW ⟨hsaw, hknown, hf.done, hf.entered, hf.fresh, trivial⟩ rfl
  | @skip i W t todo hW hfate htodo ht =>
    have hf := hfits hW
    have hdone : W.done ++ [t] ⊆ L.journal := by
      apply List.append_subset.mpr ⟨hf.done, ?_⟩
      exact List.cons_subset.mpr ⟨hf.known ht, List.nil_subset _⟩
    refine h.setQuiet hW ⟨hf.saw, hf.known, hdone, ?_, hf.fresh, ?_⟩ rfl
    · exact hf.entered.trans (List.sublist_append_left _ _)
    · simp only [Worker.Accounted, Worker.pass, hfate]
  | @enter i W t todo fate hW hfate htodo ht hnext =>
    have hf := (hfits hW).mono (List.subset_append_left L.journal [t])
    have hdone : W.done ++ [t] ⊆ L.journal ++ [t] := by
      apply List.append_subset.mpr ⟨hf.done, ?_⟩
      exact List.subset_append_right _ _
    have hfresh : start.Disjoint (W.entered ++ [t]) := by
      apply List.disjoint_append_right.mpr ⟨hf.fresh, ?_⟩
      exact List.disjoint_singleton.mpr fun hstart => ht (h.grown.subset hstart)
    refine h.set hW _ (List.prefix_append _ _)
      ⟨hf.saw, hf.known, hdone, hf.entered.append (List.Sublist.refl _), hfresh, ?_⟩
      (List.subset_append_left _ _) ?_ ?_
    · rcases hnext with rfl | rfl <;> trivial
    · intro u hu
      rcases List.mem_append.mp hu with hu | hu
      · exact Or.inl hu
      · exact Or.inr (List.mem_singleton.mp hu ▸ ht)
    · intro u hu
      rcases List.mem_append.mp hu with hu | hu
      · exact Or.inl hu
      · exact Or.inr (List.mem_append_right _ hu)
  | @overtaken i W t todo hW hfate htodo ht hknown =>
    refine h.setQuiet hW ((hfits hW).stop ⟨t, ?_, ht, hknown⟩) rfl
    rw [Worker.stop, htodo, List.head?_cons]
  | crash hW hfate => exact h.setQuiet hW ((hfits hW).stop trivial) rfl
  | finish hW hfate htodo => exact h.setQuiet hW ((hfits hW).stop htodo) rfl

end Sound

section Aligned

variable [DecidableEq α]

/-- All workers have the same tasks, and nobody overtakes the one that entered last. -/
structure Aligned (start tasks : List α) (L : Ledger α) : Prop where
  tasks : ∀ W ∈ L.workers, W.done ++ W.todo = tasks
  unled : L.last = none → L.journal = start ∧ ∀ W ∈ L.workers, W.fate ≠ .overtaken
  led : ∀ i, L.last = some i → ∃ W, L.workers[i]? = some W ∧ W.fate ≠ .overtaken ∧
    L.journal = start ++ pending start W.done

omit [DecidableEq α] in
/-- What a worker has entered of its tasks is not before it. -/
theorem not_mem_done {tasks todo : List α} {W : Worker α} {t : α} (hnodup : tasks.Nodup)
    (htasks : W.done ++ W.todo = tasks) (htodo : W.todo = t :: todo) : t ∉ W.done := by
  rw [← htasks, htodo] at hnodup
  intro ht
  exact (List.nodup_append'.mp hnodup).2.2 ht List.mem_cons_self

namespace Aligned

variable {start tasks journal : List α} {L L' : Ledger α} {i : ℕ} {V W : Worker α}

theorem empty (start tasks : List α) : Aligned start tasks ⟨start, [], none⟩ := by
  constructor <;> simp

/-- The journal is what its start lacks of the tasks, up to some point. -/
theorem journal_eq (h : Aligned start tasks L) :
    ∃ done, done <+: tasks ∧ L.journal = start ++ pending start done := by
  cases hlast : L.last with
  | none => exact ⟨[], List.nil_prefix, by simpa [pending] using (h.unled hlast).1⟩
  | some i =>
    obtain ⟨W, hW, -, hjournal⟩ := h.led i hlast
    exact ⟨W.done, ⟨W.todo, h.tasks W (List.mem_of_getElem? hW)⟩, hjournal⟩

/-- A worker can only enter a task if it has done all that the journal holds. -/
theorem journal_eq_of_enter (h : Aligned start tasks L) (hsound : Sound start L)
    (hnodup : tasks.Nodup) (hW : L.workers[i]? = some W) {t : α} {todo : List α}
    (htodo : W.todo = t :: todo) (ht : t ∉ L.journal) :
    L.journal = start ++ pending start W.done := by
  have hmem := List.mem_of_getElem? hW
  have htasks := h.tasks W hmem
  obtain ⟨done, hdone, hjournal⟩ := h.journal_eq
  have hstart : t ∉ start := fun hstart => ht (hsound.grown.subset hstart)
  rw [hjournal]
  rcases List.prefix_or_prefix_of_prefix hdone ⟨W.todo, htasks⟩ with ⟨rest, hrest⟩ | ⟨rest, hrest⟩
  · have hskipped : pending start rest = [] := by
      apply List.filter_eq_nil_iff.mpr
      intro u hu
      have hu' : u ∈ L.journal := (hsound.fits W hmem).done (hrest ▸ List.mem_append_right _ hu)
      have hnew : u ∉ done := by
        have hsub : (done ++ rest).Nodup :=
          hnodup.sublist (htasks ▸ hrest ▸ List.sublist_append_left _ _)
        exact fun hold => (List.nodup_append'.mp hsub).2.2 hold hu
      rw [hjournal, List.mem_append] at hu'
      rcases hu' with hu' | hu'
      · simpa using hu'
      · exact (hnew (List.mem_filter.mp hu').1).elim
    rw [← hrest, pending, pending, List.filter_append]
    rw [show rest.filter (fun t => decide (t ∉ start)) = [] from hskipped, List.append_nil]
  · cases rest with
    | nil => rw [← hrest, List.append_nil]
    | cons u rest =>
      obtain ⟨after, hafter⟩ := hdone
      have hnext : u = t := by
        rw [← hrest, List.append_assoc, ← htasks, htodo] at hafter
        exact (List.cons.inj (List.append_cancel_left hafter)).1
      have hu : u ∈ pending start done := by
        apply List.mem_filter.mpr
        exact ⟨hrest ▸ List.mem_append_right _ List.mem_cons_self, by simpa [hnext] using hstart⟩
      exact (ht (hjournal ▸ hnext ▸ List.mem_append_right _ hu)).elim

/-- One worker has gone on, and the journal is as it was. -/
theorem set (h : Aligned start tasks L) (hW : L.workers[i]? = some W)
    (htasks : V.done ++ V.todo = tasks)
    (hpending : L.last = some i → pending start V.done = pending start W.done)
    (hovertaken : V.fate = .overtaken → ∃ k, L.last = some k ∧ k ≠ i) :
    Aligned start tasks { L with workers := L.workers.set i V } := by
  have hi := (List.getElem?_eq_some_iff.mp hW).1
  constructor
  case tasks =>
    intro U hU
    rcases List.mem_or_eq_of_mem_set hU with hU | rfl
    · exact h.tasks U hU
    · exact htasks
  case unled =>
    intro hlast
    refine ⟨(h.unled hlast).1, fun U hU => ?_⟩
    rcases List.mem_or_eq_of_mem_set hU with hU | rfl
    · exact (h.unled hlast).2 U hU
    · intro hfate
      obtain ⟨k, hk, -⟩ := hovertaken hfate
      cases hlast.symm.trans hk
  case led =>
    intro k hk
    obtain ⟨U, hU, hfate, hjournal⟩ := h.led k hk
    by_cases hki : k = i
    · subst hki
      obtain rfl : U = W := Option.some.inj (hU.symm.trans hW)
      refine ⟨V, List.getElem?_set_self hi, ?_, ?_⟩
      · intro hV
        obtain ⟨k', hk', hne⟩ := hovertaken hV
        exact hne (Option.some.inj (hk'.symm.trans hk))
      · rw [hpending hk]
        exact hjournal
    · exact ⟨U, (List.getElem?_set_ne (Ne.symm hki)).trans hU, hfate, hjournal⟩

/-- A task that the last worker finds entered was entered before any worker came. -/
theorem mem_start (h : Aligned start tasks L) (hnodup : tasks.Nodup)
    (hW : L.workers[i]? = some W) (hlast : L.last = some i) {t : α} {todo : List α}
    (htodo : W.todo = t :: todo) (ht : t ∈ L.journal) : t ∈ start := by
  obtain ⟨U, hU, -, hjournal⟩ := h.led i hlast
  obtain rfl : U = W := Option.some.inj (hU.symm.trans hW)
  rw [hjournal, List.mem_append] at ht
  rcases ht with ht | ht
  · exact ht
  · have hdone := not_mem_done hnodup (h.tasks U (List.mem_of_getElem? hW)) htodo
    exact (hdone (List.mem_filter.mp ht).1).elim

theorem step (h : Aligned start tasks L) (hsound : Sound start L) (hnodup : tasks.Nodup)
    (hstep : Step L L') (hsame : ∀ W ∈ L'.workers, W.done ++ W.todo = tasks) :
    Aligned start tasks L' := by
  have htasks {i : ℕ} {W : Worker α} (hW : L.workers[i]? = some W) : W.done ++ W.todo = tasks :=
    h.tasks W (List.mem_of_getElem? hW)
  cases hstep with
  | join own =>
    refine ⟨hsame, fun hlast => ⟨(h.unled hlast).1, fun W hW => ?_⟩, fun i hi => ?_⟩
    · rcases List.mem_append.mp hW with hW | hW
      · exact (h.unled hlast).2 W hW
      · rw [List.mem_singleton.mp hW]
        exact Fate.noConfusion
    · obtain ⟨W, hW, hrest⟩ := h.led i hi
      have hlt := (List.getElem?_eq_some_iff.mp hW).1
      exact ⟨W, (List.getElem?_append_left hlt).trans hW, hrest⟩
  | look hW =>
    have hall := htasks hW
    exact h.set hW hall (fun _ => rfl) Fate.noConfusion
  | @skip i W t todo hW hfate htodo ht =>
    refine h.set hW ?_ (fun hlast => ?_) fun hovertaken =>
      Fate.noConfusion (hfate.symm.trans hovertaken)
    · rw [← htasks hW, htodo]
      simp [Worker.pass]
    · have hknown := (hsound.fits W (List.mem_of_getElem? hW)).known ht
      have hstart := h.mem_start hnodup hW hlast htodo hknown
      simp [Worker.pass, pending, List.filter_append, hstart]
  | @enter i W t todo fate hW hfate htodo ht hnext =>
    have hjournal := h.journal_eq_of_enter hsound hnodup hW htodo ht
    have hstart : t ∉ start := fun hstart => ht (hsound.grown.subset hstart)
    refine ⟨hsame, fun hlast => ?_, fun k hk => ?_⟩
    · cases hlast
    · obtain rfl : i = k := Option.some.inj hk
      have hi := (List.getElem?_eq_some_iff.mp hW).1
      refine ⟨_, List.getElem?_set_self hi, ?_, ?_⟩
      · intro hovertaken
        rcases hnext with rfl | rfl <;> cases hovertaken
      · rw [hjournal]
        simp [Worker.enter, pending, List.filter_append, hstart]
  | @overtaken i W t todo hW hfate htodo ht hknown =>
    have hall := htasks hW
    refine h.set hW hall (fun _ => rfl) fun _ => ?_
    have hstart : t ∉ start := fun hstart =>
      hknown ((hsound.fits W (List.mem_of_getElem? hW)).saw hstart)
    cases hlast : L.last with
    | none => exact (hstart ((h.unled hlast).1 ▸ ht)).elim
    | some k =>
      refine ⟨k, rfl, fun hki => ?_⟩
      subst hki
      exact hstart (h.mem_start hnodup hW hlast htodo ht)
  | crash hW | finish hW =>
    have hall := htasks hW
    exact h.set hW hall (fun _ => rfl) Fate.noConfusion

/-- If no worker crashes, one of them finishes, and all tasks are entered. -/
theorem finished (h : Aligned start tasks L) (hsound : Sound start L) (hne : L.workers ≠ [])
    (hended : ∀ W ∈ L.workers, W.fate = .finished ∨ W.fate = .overtaken) :
    ∃ W ∈ L.workers, W.fate = .finished ∧ L.journal = start ++ pending start tasks := by
  have hdone {W : Worker α} (hW : W ∈ L.workers) (hfate : W.fate = .finished) :
      W.done = tasks := by
    have haccounted := (hsound.fits W hW).accounted
    simp only [Worker.Accounted, hfate] at haccounted
    rw [← h.tasks W hW, haccounted, List.append_nil]
  cases hlast : L.last with
  | none =>
    obtain ⟨hjournal, hnone⟩ := h.unled hlast
    obtain ⟨W, hW⟩ := List.exists_mem_of_ne_nil _ hne
    have hfate := (hended W hW).resolve_right (hnone W hW)
    have hall : pending start tasks = [] := by
      apply List.filter_eq_nil_iff.mpr
      intro t ht
      have hmem := (hsound.fits W hW).done (hdone hW hfate ▸ ht)
      simpa [hjournal] using hmem
    exact ⟨W, hW, hfate, by rw [hall, List.append_nil, hjournal]⟩
  | some i =>
    obtain ⟨W, hi, hnot, hjournal⟩ := h.led i hlast
    have hW := List.mem_of_getElem? hi
    have hfate := (hended W hW).resolve_right hnot
    exact ⟨W, hW, hfate, hdone hW hfate ▸ hjournal⟩

end Aligned
end Aligned
end Ledger
end Queues
