import Mathlib.Data.List.Nodup
import Mathlib.Data.List.Basic
import Mathlib.Data.List.Sort
import Mathlib.Tactic.Common

/-! Collections of documents keyed by a unique id, with the three operations on one
document (find it, insert it under a fresh id, update it in place) and the sorted query. -/
namespace Collections

/-- Two sorted lists agree on the order of what `r` tells apart. -/
theorem sublist_of_pairwise {α : Type} {r : α → α → Prop} {l l' : List α} (h : l.Pairwise r)
    (h' : l'.Pairwise r) (hsub : l ⊆ l') {a b : α} (hab : [a, b].Sublist l)
    (htold : ¬ (r a b ∧ r b a)) : [a, b].Sublist l' := by
  have hrel : r a b := List.rel_of_pairwise_cons (h.sublist hab) (List.mem_singleton_self b)
  have ha : a ∈ l' := hsub (hab.subset List.mem_cons_self)
  have hb : b ∈ l' := hsub (hab.subset (List.mem_cons_of_mem a (List.mem_singleton_self b)))
  obtain ⟨before, after, rfl⟩ := List.append_of_mem ha
  have hafter : b ∈ after := by
    rcases List.mem_append.mp hb with hb | hb
    · exact absurd ((List.pairwise_append.mp h').2.2 b hb a List.mem_cons_self)
        fun hba => htold ⟨hrel, hba⟩
    · rcases List.mem_cons.mp hb with rfl | hb
      · exact absurd ⟨hrel, hrel⟩ htold
      · exact hb
  exact ((List.singleton_sublist.mpr hafter).cons_cons a).trans (List.sublist_append_right _ _)

/-- Documents in insertion order. Uniqueness of the ids is part of the value. -/
structure Collection (Id Doc : Type) where
  entries : List (Id × Doc)
  nodup : (entries.map Prod.fst).Nodup

namespace Collection

variable {Id Doc : Type}

def empty : Collection Id Doc := ⟨[], List.nodup_nil⟩

@[simp] theorem empty_entries : (empty : Collection Id Doc).entries = [] := rfl

@[ext] theorem ext {c d : Collection Id Doc} (h : c.entries = d.entries) : c = d := by
  cases c; cases d; cases h; rfl

def select (c : Collection Id Doc) (p : Doc → Bool) : List (Id × Doc) :=
  c.entries.filter fun e => p e.2

@[simp] theorem select_empty (p : Doc → Bool) : (empty : Collection Id Doc).select p = [] := rfl

/-- What a sorted query may return: documents that `r` does not tell apart come in any order. -/
structure SortedBy (c : Collection Id Doc) (r : Doc → Doc → Prop) (found : List (Id × Doc)) :
    Prop where
  perm : found.Perm c.entries
  sorted : found.Pairwise fun e e' => r e.2 e'.2

theorem exists_sortedBy (c : Collection Id Doc) (r : Doc → Doc → Prop) [DecidableRel r]
    [Std.Total r] [IsTrans Doc r] : ∃ found, c.SortedBy r found := by
  let r' (e e' : Id × Doc) : Prop := r e.2 e'.2
  have : DecidableRel r' := fun e e' => inferInstanceAs (Decidable (r e.2 e'.2))
  have : Std.Total r' := ⟨fun e e' => Std.Total.total e.2 e'.2⟩
  have : IsTrans (Id × Doc) r' := ⟨fun _ _ _ h h' => IsTrans.trans _ _ _ h h'⟩
  exact ⟨c.entries.insertionSort r', List.perm_insertionSort r' _, List.pairwise_insertionSort r' _⟩

variable [DecidableEq Id]

def findOne (c : Collection Id Doc) (id : Id) : Option Doc :=
  (c.entries.find? fun e => e.1 = id).map Prod.snd

@[simp] theorem findOne_empty (id : Id) : (empty : Collection Id Doc).findOne id = none := rfl

theorem findOne_eq_none {c : Collection Id Doc} {id : Id} :
    c.findOne id = none ↔ id ∉ c.entries.map Prod.fst := by
  simp only [findOne, Option.map_eq_none_iff, List.find?_eq_none, decide_eq_true_eq]
  constructor
  · intro h hmem
    obtain ⟨e, he, hid⟩ := List.mem_map.mp hmem
    exact h e he hid
  · intro h e he hid
    exact h (List.mem_map.mpr ⟨e, he, hid⟩)

private theorem find_of_mem {l : List (Id × Doc)} (hl : (l.map Prod.fst).Nodup) {id : Id}
    {d : Doc} (h : (id, d) ∈ l) : l.find? (fun e => e.1 = id) = some (id, d) := by
  induction l with
  | nil => cases h
  | cons e l ih =>
    obtain ⟨hnot, hrest⟩ := List.nodup_cons.mp hl
    rcases List.mem_cons.mp h with rfl | hmem
    · simp
    · have hne : e.1 ≠ id := fun he => hnot (he ▸ List.mem_map_of_mem (f := Prod.fst) hmem)
      rw [List.find?_cons_of_neg (by simpa using hne)]
      exact ih hrest hmem

theorem mem_entries {c : Collection Id Doc} {id : Id} {d : Doc} :
    (id, d) ∈ c.entries ↔ c.findOne id = some d := by
  constructor
  · intro h
    simp [findOne, find_of_mem c.nodup h]
  · intro h
    obtain ⟨e, he, rfl⟩ := Option.map_eq_some_iff.mp h
    have hid : e.1 = id := by simpa using List.find?_some he
    have hmem := List.mem_of_find?_eq_some he
    rwa [← hid]

/-- `insert_one`: refused when the id is already used. -/
def insertOne (c : Collection Id Doc) (id : Id) (d : Doc) : Option (Collection Id Doc) :=
  if h : id ∈ c.entries.map Prod.fst then none
  else some ⟨c.entries ++ [(id, d)], by
    rw [List.map_append, List.map_singleton]
    exact List.Nodup.append c.nodup (List.nodup_singleton _)
      (List.disjoint_singleton.mpr h)⟩

theorem insertOne_eq_some {c c' : Collection Id Doc} {id : Id} {d : Doc} :
    c.insertOne id d = some c' ↔
      c.findOne id = none ∧ c'.entries = c.entries ++ [(id, d)] := by
  rw [findOne_eq_none, insertOne]
  split
  next h => simp [h]
  next h =>
    simp only [Option.some.injEq, h, not_false_eq_true, true_and]
    exact ⟨fun he => he ▸ rfl, fun he => ext he.symm⟩

theorem insertOne_isSome {c : Collection Id Doc} {id : Id} (h : c.findOne id = none) (d : Doc) :
    ∃ c', c.insertOne id d = some c' := by
  rw [findOne_eq_none] at h
  exact ⟨_, dif_neg h⟩

theorem findOne_insertOne {c c' : Collection Id Doc} {id : Id} {d : Doc}
    (h : c.insertOne id d = some c') (i : Id) :
    c'.findOne i = if i = id then some d else c.findOne i := by
  obtain ⟨hfresh, he⟩ := insertOne_eq_some.mp h
  unfold findOne at hfresh ⊢
  rw [he, List.find?_append]
  by_cases hi : i = id
  · subst hi
    rw [Option.map_eq_none_iff.mp hfresh]
    simp
  · have hne : ¬ id = i := fun h => hi h.symm
    simp [hi, hne]

theorem select_insertOne {c c' : Collection Id Doc} {id : Id} {d : Doc}
    (h : c.insertOne id d = some c') (p : Doc → Bool) :
    c'.select p = c.select p ++ if p d then [(id, d)] else [] := by
  rw [select, (insertOne_eq_some.mp h).2, List.filter_append, select]
  cases hp : p d <;> simp [hp]

/-- `update_one`: nothing happens when no document has this id. -/
def updateOne (c : Collection Id Doc) (id : Id) (f : Doc → Doc) : Collection Id Doc where
  entries := c.entries.map fun e => if e.1 = id then (e.1, f e.2) else e
  nodup := by
    have : (fun e : Id × Doc => (if e.1 = id then (e.1, f e.2) else e).1) = Prod.fst := by
      funext e; split <;> rfl
    rw [List.map_map]
    simpa only [Function.comp_def, this] using c.nodup

theorem findOne_updateOne (c : Collection Id Doc) (id : Id) (f : Doc → Doc) (i : Id) :
    (c.updateOne id f).findOne i = if i = id then (c.findOne i).map f else c.findOne i := by
  have hkey : (fun e : Id × Doc => decide ((if e.1 = id then (e.1, f e.2) else e).1 = i)) =
      fun e => decide (e.1 = i) := by
    funext e; split <;> rfl
  simp only [findOne, updateOne, List.find?_map, Function.comp_def, hkey]
  cases hf : c.entries.find? (fun e => decide (e.1 = i)) with
  | none => simp
  | some e =>
    have hid : e.1 = i := by simpa using List.find?_some hf
    by_cases hi : i = id <;> simp [hid, hi]

@[simp] theorem findOne_updateOne_self (c : Collection Id Doc) (id : Id) (f : Doc → Doc) :
    (c.updateOne id f).findOne id = (c.findOne id).map f := by
  simp [findOne_updateOne]

theorem findOne_updateOne_ne (c : Collection Id Doc) {id i : Id} (f : Doc → Doc) (h : i ≠ id) :
    (c.updateOne id f).findOne i = c.findOne i := by
  simp [findOne_updateOne, h]

/-- Updating a document that was just inserted. -/
theorem entries_updateOne_insertOne {c c' : Collection Id Doc} {id : Id} {d : Doc}
    (h : c.insertOne id d = some c') (f : Doc → Doc) :
    (c'.updateOne id f).entries = c.entries ++ [(id, f d)] := by
  obtain ⟨hfresh, he⟩ := insertOne_eq_some.mp h
  have hold : (c.entries.map fun e => if e.1 = id then (e.1, f e.2) else e) = c.entries := by
    conv_rhs => rw [← List.map_id c.entries]
    refine List.map_congr_left fun e hmem => if_neg fun hid => ?_
    exact findOne_eq_none.mp hfresh (hid ▸ List.mem_map_of_mem (f := Prod.fst) hmem)
  show c'.entries.map (fun e => if e.1 = id then (e.1, f e.2) else e) = _
  rw [he, List.map_append, hold]
  simp

end Collection
end Collections
