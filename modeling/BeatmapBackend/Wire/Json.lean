import Mathlib.Algebra.Order.Floor.Ring
import Mathlib.Data.List.Basic
import Mathlib.Tactic.Common

/-! JSON values whose floats lie in `K`, and readers that validate a value and convert
it. A reader answers `none` for a value it does not accept. -/
namespace Wire

inductive Json (K : Type) where
  | null
  | bool (b : Bool)
  | int (z : ℤ)
  | float (x : K)
  | str (s : String)
  | arr (items : List (Json K))
  | obj (fields : List (String × Json K))

namespace Json

variable {K α β : Type}

def get? (j : Json K) (name : String) : Option (Json K) :=
  match j with
  | .obj fields => fields.lookup name
  | _ => none

def str? : Json K → Option String
  | .str s => some s
  | _ => none

def list? (read : Json K → Option α) : Json K → Option (List α)
  | .arr items => items.mapM read
  | _ => none

/-- A two-element array read as a pair. -/
def pair? (read : Json K → Option α) : Json K → Option (α × α)
  | .arr [a, b] => do return (← read a, ← read b)
  | _ => none

def nullable? (read : Json K → Option α) : Json K → Option (Option α)
  | .null => some none
  | j => (read j).map some

def field? (j : Json K) (name : String) (read : Json K → Option α) : Option α :=
  (j.get? name).bind read

def fieldD? (j : Json K) (name : String) (read : Json K → Option α) (default : α) : Option α :=
  match j.get? name with
  | none => some default
  | some v => read v

def ofOption (write : α → Json K) : Option α → Json K
  | none => .null
  | some a => write a

section Numbers

variable [Ring K]

def float? : Json K → Option K
  | .float x => some x
  | .int z => some z
  | .bool b => some (if b then 1 else 0)
  | _ => none

@[simp] theorem float?_float (x : K) : (.float x : Json K).float? = some x := rfl

variable [LinearOrder K] [FloorRing K]

/-- Integers, booleans and floats without a fractional part. -/
def int? : Json K → Option ℤ
  | .int z => some z
  | .bool b => some (if b then 1 else 0)
  | .float x => if x = ⌊x⌋ then some ⌊x⌋ else none
  | _ => none

@[simp] theorem int?_int (z : ℤ) : (.int z : Json K).int? = some z := rfl
@[simp] theorem nullable?_int (z : ℤ) :
    (.int z : Json K).nullable? Json.int? = some (some z) := rfl

@[simp] theorem nullable?_ofOption_int (z : Option ℤ) :
    (ofOption Json.int z : Json K).nullable? Json.int? = some z := by
  cases z <;> rfl

end Numbers

@[simp] theorem str?_str (s : String) : (.str s : Json K).str? = some s := rfl

@[simp] theorem get?_obj (fields : List (String × Json K)) (name : String) :
    (.obj fields : Json K).get? name = fields.lookup name := rfl

theorem field?_cons (n : String) (v : Json K) (fields : List (String × Json K)) (name : String)
    (read : Json K → Option α) : (.obj ((n, v) :: fields) : Json K).field? name read =
      if name = n then read v else (.obj fields : Json K).field? name read := by
  by_cases h : name = n
  · simp [field?, h]
  · have hb : (name == n) = false := by simpa using h
    simp [field?, List.lookup_cons, h, hb]

theorem fieldD?_cons (n : String) (v : Json K) (fields : List (String × Json K)) (name : String)
    (read : Json K → Option α) (d : α) : (.obj ((n, v) :: fields) : Json K).fieldD? name read d =
      if name = n then read v else (.obj fields : Json K).fieldD? name read d := by
  by_cases h : name = n
  · simp [fieldD?, h]
  · have hb : (name == n) = false := by simpa using h
    simp [fieldD?, List.lookup_cons, h, hb]

theorem mapM_map {γ : Type} {read : γ → Option α} {write : β → γ} {f : β → α} (l : List β)
    (h : ∀ b, read (write b) = some (f b)) : (l.map write).mapM read = some (l.map f) := by
  induction l with
  | nil => rfl
  | cons b l ih => simp [List.mapM_cons, h, ih]

theorem list?_arr {read : Json K → Option α} {write : β → Json K} {f : β → α} (l : List β)
    (h : ∀ b, read (write b) = some (f b)) :
    (.arr (l.map write) : Json K).list? read = some (l.map f) := mapM_map l h

end Json
end Wire
