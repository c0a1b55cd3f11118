import BeatmapBackend.Effects.Program

/-! Safety of one program among others that share its state. A contract says which
states are valid, how the shared state may grow, what one operation does and what must
hold before it. A safe program keeps the contract in every state the others may reach, and
what it returns satisfies its postcondition. -/
namespace Effects

structure Contract (E : Type) (R : E → Type) (X S : Type) where
  valid : S → Prop
  grows : S → S → Prop
  step : (e : E) → S → Reply (R e) X → S → Prop
  pre : E → S → Prop
  refl : ∀ s, grows s s
  trans : ∀ {s t u}, grows s t → grows t u → grows s u

variable {E : Type} {R : E → Type} {X S α β : Type}

/-- One operation performed under its precondition keeps the state valid. -/
def Contract.Sound (c : Contract E R X S) : Prop :=
  ∀ ⦃e s r u⦄, c.valid s → c.pre e s → c.step e s r u → c.valid u ∧ c.grows s u

/-- Each operation meets its precondition in any grown state and is followed by a safe
rest, whatever happens to it. A program that raises owes nothing more. Irreducible below, as
unfolding it would run the program. -/
def Safe (c : Contract E R X S) (post : α → S → Prop) : Program E R X α → S → Prop
  | .ret (.ok a), s => ∀ t, c.valid t → c.grows s t → post a t
  | .ret (.error _), _ => True
  | .op e k, s => ∀ t, c.valid t → c.grows s t → c.pre e t ∧
      ∀ r u, c.step e t r u → Safe c post (k r.seen) u

namespace Safe

variable {c : Contract E R X S} {post : α → S → Prop}

theorem mono {p : Program E R X α} {s t : S} (h : Safe c post p s) (hg : c.grows s t) :
    Safe c post p t := by
  match p with
  | .ret (.ok a) => exact fun u hu htu => h u hu (c.trans hg htu)
  | .ret (.error x) => trivial
  | .op e k => exact fun u hu htu => h u hu (c.trans hg htu)

theorem ok {a : α} {s : S} (h : ∀ t, c.valid t → c.grows s t → post a t) :
    Safe c post (.ret (.ok a)) s := h

theorem error {x : X} {s : S} : Safe c post (.ret (.error x)) s := trivial

theorem imp {post' : α → S → Prop} {p : Program E R X α} {s : S} (hc : c.Sound)
    (hs : c.valid s) (h : Safe c post p s)
    (himp : ∀ a t, c.valid t → c.grows s t → post a t → post' a t) : Safe c post' p s := by
  induction p generalizing s with
  | ret r =>
    cases r with
    | ok a => exact fun t ht hst => himp a t ht hst (h t ht hst)
    | error x => exact error
  | op e k ih =>
    intro t ht hst
    obtain ⟨hpre, hstep⟩ := h t ht hst
    refine ⟨hpre, fun r u hu => ?_⟩
    obtain ⟨hv, hg⟩ := hc ht hpre hu
    exact ih r.seen hv (hstep r u hu) fun a w hw hg' =>
      himp a w hw (c.trans hst (c.trans hg hg'))

theorem bind {mid : β → S → Prop} {p : Program E R X β} {f : β → Program E R X α} {s : S}
    (hc : c.Sound) (hs : c.valid s) (h : Safe c mid p s)
    (hf : ∀ a t, c.valid t → c.grows s t → mid a t → Safe c post (f a) t) :
    Safe c post (p >>= f) s := by
  induction p generalizing s with
  | ret r =>
    cases r with
    | ok a => exact hf a s hs (c.refl s) (h s hs (c.refl s))
    | error x => exact error
  | op e k ih =>
    intro t ht hst
    obtain ⟨hpre, hstep⟩ := h t ht hst
    refine ⟨hpre, fun r u hu => ?_⟩
    obtain ⟨hv, hg⟩ := hc ht hpre hu
    exact ih r.seen hv (hstep r u hu) fun a w hw hg' =>
      hf a w hw (c.trans hst (c.trans hg hg'))

/-- An `except` clause only knows that the state is valid and has grown. -/
theorem recover {p : Program E R X α} {h : X → Program E R X α} {s : S} (hc : c.Sound)
    (hs : c.valid s) (hp : Safe c post p s)
    (hh : ∀ x t, c.valid t → c.grows s t → Safe c post (h x) t) :
    Safe c post (p.recover h) s := by
  induction p generalizing s with
  | ret r =>
    cases r with
    | ok a => exact hp
    | error x => exact hh x s hs (c.refl s)
  | op e k ih =>
    intro t ht hst
    obtain ⟨hpre, hstep⟩ := hp t ht hst
    refine ⟨hpre, fun r u hu => ?_⟩
    obtain ⟨hv, hg⟩ := hc ht hpre hu
    exact ih r.seen hv (hstep r u hu) fun x w hw hg' => hh x w hw (c.trans hst (c.trans hg hg'))

/-- The rule for `perform e >>= f`: `f` goes on from the state after the answer. -/
theorem perform_bind {e : E} {f : R e → Program E R X α} {s : S} (hc : c.Sound)
    (hpre : ∀ t, c.valid t → c.grows s t → c.pre e t)
    (hf : ∀ t a u, c.valid t → c.step e t (.done a) u → c.valid u → c.grows s t →
      c.grows s u → Safe c post (f a) u) :
    Safe c post (Program.perform e >>= f) s := by
  intro t ht hst
  refine ⟨hpre t ht hst, fun r u hu => ?_⟩
  obtain ⟨hv, hg⟩ := hc ht (hpre t ht hst) hu
  cases r with
  | done a => exact hf t a u ht hu hv hst (c.trans hst hg)
  | raised x => exact error
  | lost a x => exact error

/-- A computation without operations. -/
theorem lift_bind {r : Except X β} {f : β → Program E R X α} {s : S}
    (h : ∀ b, r = .ok b → Safe c post (f b) s) :
    Safe c post (Program.lift r >>= f) s := by
  cases r with
  | ok b => exact h b rfl
  | error x => exact error

/-- A safe program performs its next operation under its precondition. -/
theorem of_op {e : E} {k : Except X (R e) → Program E R X α} {s : S} (hs : c.valid s)
    (h : Safe c post (.op e k) s) :
    c.pre e s ∧ ∀ r u, c.step e s r u → Safe c post (k r.seen) u := h s hs (c.refl s)

theorem of_ok {a : α} {s : S} (hs : c.valid s) (h : Safe c post (.ret (.ok a)) s) : post a s :=
  h s hs (c.refl s)

end Safe

attribute [irreducible] Safe

end Effects
