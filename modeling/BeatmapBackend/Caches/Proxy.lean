import Mathlib.Data.List.Basic
import Mathlib.Data.Nat.Notation
import Mathlib.Tactic.Common

/-! A caching proxy. It keeps answers of its origin and serves them again, for however long and
whatever the origin has become in the meantime. -/
namespace Caches

inductive Answer (B : Type) where
  | ok (body : B)
  | notFound
  | forbidden
  /-- No answer of the origin, or one that reports a failure of it. -/
  | failed
  deriving DecidableEq

def Answer.kept {B : Type} : Answer B → Bool
  | .ok _ => true
  | .notFound => true
  | _ => false

structure Proxy (U B : Type) where
  kept : List (U × Answer B)
  /-- Answers on their way from the origin. -/
  asked : List (U × Answer B)
  /-- All that clients have been served. -/
  served : List (U × Answer B)

inductive Act (U B : Type) where
  | ask (uri : U) (answer : Answer B)
  | arrive (i : ℕ)
  /-- What is kept is served, be it fresh or stale. -/
  | reuse (i : ℕ)
  | drop (i : ℕ)

variable {U B : Type}

/-- What the origin may answer, where `origin` is what it has for anyone to read. -/
def Possible (origin : U → Option B) (uri : U) : Answer B → Prop
  | .ok body => origin uri = some body
  | .failed => True
  | _ => origin uri = none

instance [DecidableEq B] (origin : U → Option B) (uri : U) (answer : Answer B) :
    Decidable (Possible origin uri answer) := by
  unfold Possible
  split <;> infer_instance

namespace Proxy

def empty : Proxy U B := ⟨[], [], []⟩

section Acts

variable [DecidableEq U] [DecidableEq B]

/-- An answer arrives: it replaces what is kept for its request, and it is served. -/
def receive (p : Proxy U B) (x : U × Answer B) (asked : List (U × Answer B)) : Proxy U B where
  kept := if x.2.kept then x :: p.kept.filter (fun y => decide (y.1 ≠ x.1)) else p.kept
  asked := asked
  served := p.served ++ [x]

def act (origin : U → Option B) (p : Proxy U B) : Act U B → Option (Proxy U B)
  | .ask uri answer =>
    if Possible origin uri answer then some { p with asked := p.asked ++ [(uri, answer)] } else none
  | .arrive i => p.asked[i]?.map fun x => p.receive x (p.asked.eraseIdx i)
  | .reuse i => p.kept[i]?.map fun x => { p with served := p.served ++ [x] }
  | .drop i => if i < p.kept.length then some { p with kept := p.kept.eraseIdx i } else none

end Acts

/-- What is on its way to a client, or may still be served. -/
def pool (p : Proxy U B) : List (U × Answer B) := p.kept ++ p.asked

section Steps

variable [DecidableEq U] [DecidableEq B] {origin origin' : U → Option B} {p p' : Proxy U B}
variable {a : Act U B} {x : U × Answer B}

/-- Nothing comes into the pool but possible answers, and nothing is served but from it. -/
theorem act_cases (h : p.act origin a = some p') :
    (∀ x ∈ p'.pool, x ∈ p.pool ∨ Possible origin x.1 x.2) ∧
      ∃ new, p'.served = p.served ++ new ∧ ∀ x ∈ new, x ∈ p.pool := by
  cases a with
  | ask uri answer =>
    simp only [act] at h
    split at h
    next hpossible =>
      cases h
      refine ⟨fun x hx => ?_, [], by simp, by simp⟩
      simp only [pool, List.mem_append, List.mem_singleton] at hx ⊢
      rcases hx with hx | hx | rfl
      · exact Or.inl (Or.inl hx)
      · exact Or.inl (Or.inr hx)
      · exact Or.inr hpossible
    next => cases h
  | arrive i =>
    obtain ⟨x, hx, rfl⟩ := Option.map_eq_some_iff.mp h
    have hmem : x ∈ p.pool := List.mem_append_right _ (List.mem_of_getElem? hx)
    refine ⟨fun y hy => Or.inl ?_, [x], rfl, by simpa using hmem⟩
    rcases List.mem_append.mp hy with hy | hy
    · simp only [receive] at hy
      split at hy
      · rcases List.mem_cons.mp hy with rfl | hy
        · exact hmem
        · exact List.mem_append_left _ (List.mem_filter.mp hy).1
      · exact List.mem_append_left _ hy
    · exact List.mem_append_right _ (List.mem_of_mem_eraseIdx hy)
  | reuse i =>
    obtain ⟨x, hx, rfl⟩ := Option.map_eq_some_iff.mp h
    have hmem : x ∈ p.pool := List.mem_append_left _ (List.mem_of_getElem? hx)
    exact ⟨fun y hy => Or.inl hy, [x], rfl, by simpa using hmem⟩
  | drop i =>
    simp only [act] at h
    split at h
    next =>
      cases h
      refine ⟨fun x hx => Or.inl ?_, [], by simp, by simp⟩
      rcases List.mem_append.mp hx with hx | hx
      · exact List.mem_append_left _ (List.mem_of_mem_eraseIdx hx)
      · exact List.mem_append_right _ hx
    next => cases h

def Honest (origin : U → Option B) (p : Proxy U B) : Prop :=
  ∀ x ∈ p.pool ++ p.served, ∀ body, x.2 = .ok body → origin x.1 = some body

omit [DecidableEq U] [DecidableEq B] in
theorem honest_empty (origin : U → Option B) : Honest origin (empty : Proxy U B) := by
  simp [Honest, empty, pool]

omit [DecidableEq U] [DecidableEq B] in
/-- An origin that never changes what it has may be cached for good. -/
theorem Honest.mono (h : Honest origin p)
    (hstable : ∀ uri body, origin uri = some body → origin' uri = some body) :
    Honest origin' p := fun x hx body hbody => hstable x.1 body (h x hx body hbody)

theorem Honest.act (h : Honest origin p) (hact : p.act origin a = some p') :
    Honest origin p' := by
  obtain ⟨hpool, new, hserved, hnew⟩ := act_cases hact
  intro x hx body hbody
  rcases List.mem_append.mp hx with hx | hx
  · rcases hpool x hx with hold | hpossible
    · exact h x (List.mem_append_left _ hold) body hbody
    · rw [hbody] at hpossible
      exact hpossible
  · rw [hserved] at hx
    rcases List.mem_append.mp hx with hold | hx
    · exact h x (List.mem_append_right _ hold) body hbody
    · exact h x (List.mem_append_left _ (hnew x hx)) body hbody

/-- No answer is left from when the origin did not have what is asked for. -/
def Warm (uri : U) (body : B) (p : Proxy U B) : Prop :=
  ∀ x ∈ p.pool, x.1 = uri → x.2 = .ok body ∨ x.2 = .failed

theorem Warm.act {uri : U} {body : B} (h : Warm uri body p) (horigin : origin uri = some body)
    (hact : p.act origin a = some p') : Warm uri body p' ∧ ∃ new, p'.served = p.served ++ new ∧
      ∀ x ∈ new, x.1 = uri → x.2 = .ok body ∨ x.2 = .failed := by
  obtain ⟨hpool, new, hserved, hnew⟩ := act_cases hact
  refine ⟨fun x hx huri => ?_, new, hserved, fun x hx => h x (hnew x hx)⟩
  rcases hpool x hx with hold | hpossible
  · exact h x hold huri
  · rw [huri] at hpossible
    cases hx2 : x.2 with
    | ok b =>
      rw [hx2] at hpossible
      exact Or.inl (congrArg Answer.ok (Option.some.inj (hpossible.symm.trans horigin)))
    | failed => exact Or.inr rfl
    | notFound | forbidden =>
      rw [hx2] at hpossible
      cases hpossible.symm.trans horigin

end Steps
end Proxy
end Caches
