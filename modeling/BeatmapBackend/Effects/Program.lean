import Mathlib.Control.Basic

/-! Programs over a set of operations of an environment. A program returns, raises,
or performs one operation and goes on with what it observed, so that an interleaving
of several programs is a choice of whose next operation is performed. -/
namespace Effects

/-- `R e` is what operation `e` answers and `X` is what may be raised. -/
inductive Program (E : Type) (R : E → Type) (X α : Type) where
  | ret (r : Except X α)
  | op (e : E) (k : Except X (R e) → Program E R X α)

/-- What happened to one operation. A lost operation has taken effect and answered,
but its caller only sees an exception. -/
inductive Reply (A X : Type) where
  | done (a : A)
  | raised (x : X)
  | lost (a : A) (x : X)

namespace Reply

variable {A X : Type}

def seen : Reply A X → Except X A
  | .done a => .ok a
  | .raised x => .error x
  | .lost _ x => .error x

def applied : Reply A X → Option A
  | .done a => some a
  | .raised _ => none
  | .lost a _ => some a

@[simp] theorem seen_done (a : A) : (.done a : Reply A X).seen = .ok a := rfl
@[simp] theorem seen_raised (x : X) : (.raised x : Reply A X).seen = .error x := rfl
@[simp] theorem seen_lost (a : A) (x : X) : (.lost a x : Reply A X).seen = .error x := rfl
@[simp] theorem applied_done (a : A) : (.done a : Reply A X).applied = some a := rfl
@[simp] theorem applied_raised (x : X) : (.raised x : Reply A X).applied = none := rfl
@[simp] theorem applied_lost (a : A) (x : X) : (.lost a x : Reply A X).applied = some a := rfl

end Reply

namespace Program

variable {E : Type} {R : E → Type} {X α β : Type}

def bind : Program E R X α → (α → Program E R X β) → Program E R X β
  | .ret (.ok a), f => f a
  | .ret (.error x), _ => .ret (.error x)
  | .op e k, f => .op e fun r => (k r).bind f

/-- `try: p except Exception as x: h x`. -/
def recover : Program E R X α → (X → Program E R X α) → Program E R X α
  | .ret (.ok a), _ => .ret (.ok a)
  | .ret (.error x), h => h x
  | .op e k, h => .op e fun r => (k r).recover h

instance : Monad (Program E R X) where
  pure a := .ret (.ok a)
  bind := bind

def perform (e : E) : Program E R X (R e) := .op e .ret

def raise (x : X) : Program E R X α := .ret (.error x)

def lift (r : Except X α) : Program E R X α := .ret r

@[simp] theorem bind_ok (a : α) (f : α → Program E R X β) : (.ret (.ok a) >>= f) = f a := rfl

@[simp] theorem bind_error (x : X) (f : α → Program E R X β) :
    ((.ret (.error x) : Program E R X α) >>= f) = .ret (.error x) := rfl

@[simp] theorem bind_op (e : E) (k : Except X (R e) → Program E R X α)
    (f : α → Program E R X β) : (.op e k >>= f) = .op e fun r => k r >>= f := rfl

@[simp] theorem lift_ok_bind (a : α) (f : α → Program E R X β) :
    (lift (.ok a) >>= f) = f a := rfl

theorem bind_assoc {γ : Type} (p : Program E R X α) (f : α → Program E R X β)
    (g : β → Program E R X γ) : (p >>= f) >>= g = p >>= fun a => f a >>= g := by
  induction p with
  | ret r => cases r <;> rfl
  | op e k ih => exact congrArg (Program.op e) (funext fun r => ih r)

@[simp] theorem pure_eq (a : α) : (pure a : Program E R X α) = .ret (.ok a) := rfl

@[simp] theorem recover_ok (a : α) (h : X → Program E R X α) :
    (.ret (.ok a) : Program E R X α).recover h = .ret (.ok a) := rfl

@[simp] theorem recover_error (x : X) (h : X → Program E R X α) :
    (.ret (.error x) : Program E R X α).recover h = h x := rfl

@[simp] theorem recover_op (e : E) (k : Except X (R e) → Program E R X α)
    (h : X → Program E R X α) :
    (.op e k : Program E R X α).recover h = .op e fun r => (k r).recover h := rfl

/-- A program performed alone: `perf` performs one operation, or refuses it. -/
def solo {S : Type} (perf : (e : E) → S → Option (Reply (R e) X × S)) :
    Program E R X α → S → Option (Except X α × S)
  | .ret r, s => some (r, s)
  | .op e k, s => match perf e s with
    | none => none
    | some (r, s') => (k r.seen).solo perf s'

theorem solo_op {S : Type} {perf : (e : E) → S → Option (Reply (R e) X × S)} {e : E}
    {k : Except X (R e) → Program E R X α} {s s' : S} {r : Reply (R e) X}
    (h : perf e s = some (r, s')) :
    (.op e k : Program E R X α).solo perf s = (k r.seen).solo perf s' := by
  simp only [solo, h]

section Solo

variable {S : Type} {perf : (e : E) → S → Option (Reply (R e) X × S)} {s s' : S}

theorem solo_perform_bind {e : E} {f : R e → Program E R X α} {a : R e}
    (h : perf e s = some (.done a, s')) : (perform e >>= f).solo perf s = (f a).solo perf s' :=
  solo_op h

theorem solo_perform_raised {e : E} {f : R e → Program E R X α} {x : X}
    (h : perf e s = some (.raised x, s')) :
    (perform e >>= f).solo perf s = some (.error x, s') := solo_op h

/-- An `except` clause is not entered when nothing is raised. -/
theorem solo_recover_ok {p : Program E R X α} {h : X → Program E R X α} {a : α}
    (hp : p.solo perf s = some (.ok a, s')) : (p.recover h).solo perf s = some (.ok a, s') := by
  induction p generalizing s with
  | ret r =>
    obtain ⟨rfl, rfl⟩ := Prod.mk.inj (Option.some.inj hp)
    rfl
  | op e k ih =>
    cases he : perf e s with
    | none => simp [solo, he] at hp
    | some out =>
      rw [solo_op he] at hp
      rw [recover_op, solo_op he]
      exact ih _ hp

end Solo

/-- Some execution of the program performs `e`. -/
def Performs (e : E) : Program E R X α → Prop
  | .ret _ => False
  | .op e' k => e' = e ∨ ∃ r, (k r).Performs e

@[simp] theorem performs_ret {e : E} {r : Except X α} :
    (.ret r : Program E R X α).Performs e ↔ False := Iff.rfl

theorem performs_perform_bind {e e' : E} {f : R e' → Program E R X α} :
    (perform e' >>= f).Performs e ↔ e' = e ∨ ∃ a, (f a).Performs e := by
  constructor
  · rintro (h | ⟨r, hr⟩)
    · exact Or.inl h
    · cases r with
      | ok a => exact Or.inr ⟨a, hr⟩
      | error x => exact hr.elim
  · rintro (h | ⟨a, ha⟩)
    · exact Or.inl h
    · exact Or.inr ⟨.ok a, ha⟩

theorem performs_lift_bind {e : E} {r : Except X β} {f : β → Program E R X α} :
    (lift r >>= f).Performs e ↔ ∃ b, r = .ok b ∧ (f b).Performs e := by
  cases r with
  | ok b => simp
  | error x => simp [lift]

theorem performs_recover {e : E} {p : Program E R X α} {h : X → Program E R X α}
    (hh : ∀ x, ¬ (h x).Performs e) : (p.recover h).Performs e ↔ p.Performs e := by
  induction p with
  | ret r =>
    cases r with
    | ok a => rfl
    | error x => simpa using hh x
  | op e' k ih =>
    rw [recover_op]
    exact or_congr Iff.rfl (exists_congr fun r => ih r)

/-- Some execution in which every answer is one that `ok` allows performs `e`. -/
def PerformsWhen (ok : (e : E) → Except X (R e) → Prop) (e : E) : Program E R X α → Prop
  | .ret _ => False
  | .op e' k => e' = e ∨ ∃ r, ok e' r ∧ (k r).PerformsWhen ok e

section When

variable {ok : (e : E) → Except X (R e) → Prop}

@[simp] theorem performsWhen_ret {e : E} {r : Except X α} :
    (.ret r : Program E R X α).PerformsWhen ok e ↔ False := Iff.rfl

theorem performsWhen_perform_bind {e e' : E} {f : R e' → Program E R X α} :
    (perform e' >>= f).PerformsWhen ok e ↔
      e' = e ∨ ∃ a, ok e' (.ok a) ∧ (f a).PerformsWhen ok e := by
  constructor
  · rintro (h | ⟨r, hok, hr⟩)
    · exact Or.inl h
    · cases r with
      | ok a => exact Or.inr ⟨a, hok, hr⟩
      | error x => exact hr.elim
  · rintro (h | ⟨a, hok, ha⟩)
    · exact Or.inl h
    · exact Or.inr ⟨.ok a, hok, ha⟩

theorem performsWhen_lift_bind {e : E} {r : Except X β} {f : β → Program E R X α} :
    (lift r >>= f).PerformsWhen ok e ↔ ∃ b, r = .ok b ∧ (f b).PerformsWhen ok e := by
  cases r with
  | ok b => simp
  | error x => simp [lift]

theorem performsWhen_recover {e : E} {p : Program E R X α} {h : X → Program E R X α}
    (hh : ∀ x, ¬ (h x).PerformsWhen ok e) :
    (p.recover h).PerformsWhen ok e ↔ p.PerformsWhen ok e := by
  induction p with
  | ret r =>
    cases r with
    | ok a => rfl
    | error x => simpa using hh x
  | op e' k ih =>
    rw [recover_op]
    exact or_congr Iff.rfl (exists_congr fun r => and_congr_right fun _ => ih r)

end When

end Program
end Effects
