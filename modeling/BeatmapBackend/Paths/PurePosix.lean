import Mathlib.Data.List.Basic
import Mathlib.Tactic.Common

/-! Pure POSIX paths: parsing a path, joining a client string onto a directory, the final
component and its stem, and where a path leads once `..` components are resolved. -/
namespace Paths

/-- `root` is empty for a relative path; empty and `.` components are never kept. -/
structure PurePath where
  root : String
  parts : List String
  deriving DecidableEq

def splitSlash : List Char → List (List Char)
  | [] => [[]]
  | c :: cs =>
    if c = '/' then [] :: splitSlash cs
    else match splitSlash cs with
      | [] => [[c]]
      | part :: rest => (c :: part) :: rest

def rsplitDot (s : String) : String :=
  let chars := s.toList
  if '.' ∈ chars then
    String.ofList (chars.take (chars.length - ((chars.reverse.takeWhile (· ≠ '.')).length + 1)))
  else s

def components (s : String) : List String :=
  ((splitSlash s.toList).map String.ofList).filter fun part => part ≠ "" ∧ part ≠ "."

/-- Exactly two leading slashes are a root of their own. -/
def rootOf (s : String) : String :=
  match s.toList with
  | '/' :: '/' :: '/' :: _ => "/"
  | '/' :: '/' :: _ => "//"
  | '/' :: _ => "/"
  | _ => ""

/-- A name of a file in a directory: one component, which is kept as it is. -/
def Plain (s : String) : Prop := s ≠ "" ∧ s ≠ "." ∧ s ≠ ".." ∧ '/' ∉ s.toList

instance (s : String) : Decidable (Plain s) := by
  unfold Plain
  infer_instance

theorem splitSlash_of_notMem {cs : List Char} (h : '/' ∉ cs) : splitSlash cs = [cs] := by
  induction cs with
  | nil => rfl
  | cons c cs ih =>
    rw [List.mem_cons, not_or] at h
    rw [splitSlash, if_neg (Ne.symm h.1), ih h.2]

theorem rootOf_of_notMem {s : String} (h : '/' ∉ s.toList) : rootOf s = "" := by
  unfold rootOf
  split
  next hs => simp [hs] at h
  next hs => simp [hs] at h
  next hs => simp [hs] at h
  next => rfl

namespace PurePath

def ofString (s : String) : PurePath := ⟨rootOf s, components s⟩

/-- `p / s`: an absolute right operand replaces the left one. -/
def join (p : PurePath) (s : String) : PurePath :=
  if rootOf s = "" then ⟨p.root, p.parts ++ components s⟩ else ofString s

def joinPath (p q : PurePath) : PurePath :=
  if q.root = "" then ⟨p.root, p.parts ++ q.parts⟩ else q

theorem joinPath_join (p : PurePath) (s : String) :
    p.joinPath (join ⟨"", []⟩ s) = p.join s := by
  unfold joinPath join
  by_cases h : rootOf s = "" <;> simp [h, ofString]

theorem join_plain (p : PurePath) {s : String} (h : Plain s) :
    p.join s = ⟨p.root, p.parts ++ [s]⟩ := by
  obtain ⟨hempty, hdot, -, hslash⟩ := h
  rw [join, if_pos (rootOf_of_notMem hslash), components, splitSlash_of_notMem hslash]
  simp [hempty, hdot]

def name (p : PurePath) : String := p.parts.getLastD ""

/-- The name without its suffix; a dot in front or at the end starts no suffix. -/
def stem (p : PurePath) : String :=
  let chars := p.name.toList
  let suffix := chars.reverse.takeWhile (· ≠ '.')
  let before := chars.length - (suffix.length + 1)
  if '.' ∈ chars ∧ 0 < before ∧ suffix ≠ [] then String.ofList (chars.take before) else p.name

/-- One component followed on a resolved directory; the root is its own parent. -/
def push (dir : List String) (part : String) : List String :=
  if part = ".." then dir.dropLast else dir ++ [part]

/-- The components of the place an absolute path leads to. -/
def resolve (p : PurePath) : List String := p.parts.foldl push []

def StrictlyInside (dir p : PurePath) : Prop :=
  p.root = dir.root ∧ ∃ rest, rest ≠ [] ∧ p.resolve = dir.resolve ++ rest

end PurePath

/-- Follow the components at `depth` directories below a starting point; `none` once
they climb above it. -/
def descend : ℕ → List String → Option ℕ
  | depth, [] => some depth
  | depth, part :: rest =>
    if part = ".." then
      match depth with
      | 0 => none
      | d + 1 => descend d rest
    else descend (depth + 1) rest

/-- A relative path that never climbs above the directory it is joined onto and does not
end there. -/
def Confined (s : String) : Prop :=
  rootOf s = "" ∧ ∃ depth, descend 0 (components s) = some depth ∧ 0 < depth

instance (s : String) : Decidable (Confined s) := by
  unfold Confined
  cases descend 0 (components s) with
  | none => exact isFalse (by simp)
  | some d => exact decidable_of_iff (rootOf s = "" ∧ 0 < d) (by simp)

/-- While the walk stays below, its directory keeps the starting point as a prefix. -/
theorem foldl_push_of_descend {parts : List String} {base below : List String} {depth : ℕ}
    (h : descend below.length parts = some depth) :
    ∃ rest, parts.foldl PurePath.push (base ++ below) = base ++ rest ∧ rest.length = depth := by
  induction parts generalizing below with
  | nil => exact ⟨below, rfl, by simpa [descend] using h⟩
  | cons part parts ih =>
    by_cases hup : part = ".."
    · rcases List.eq_nil_or_concat below with rfl | ⟨below', last, rfl⟩
      · simp [descend, hup] at h
      · simp only [List.concat_eq_append, descend, hup, ↓reduceIte, List.length_append,
          List.length_singleton] at h
        have hstep : PurePath.push (base ++ (below' ++ [last])) part = base ++ below' := by
          simp [PurePath.push, hup, ← List.append_assoc]
        simpa only [List.concat_eq_append, List.foldl_cons, hstep] using ih h
    · simp only [descend, hup, ↓reduceIte] at h
      have hstep : PurePath.push (base ++ below) part = base ++ (below ++ [part]) := by
        simp [PurePath.push, hup]
      rw [List.foldl_cons, hstep]
      exact ih (by simpa using h)

/-- A walk that climbs above its starting point forgets the name of that directory. -/
theorem foldl_push_of_escape {parts : List String} {base below : List String}
    (h : descend below.length parts = none) :
    ∃ dir, ∀ name, parts.foldl PurePath.push (base ++ [name] ++ below) = dir := by
  induction parts generalizing below with
  | nil => simp [descend] at h
  | cons part parts ih =>
    by_cases hup : part = ".."
    · rcases List.eq_nil_or_concat below with rfl | ⟨below', last, rfl⟩
      · exact ⟨parts.foldl PurePath.push base, fun name => by simp [PurePath.push, hup]⟩
      · simp only [List.concat_eq_append, descend, hup, ↓reduceIte, List.length_append,
          List.length_singleton] at h
        obtain ⟨dir, hdir⟩ := ih h
        refine ⟨dir, fun name => ?_⟩
        have hstep : PurePath.push (base ++ [name] ++ (below' ++ [last])) part =
            base ++ [name] ++ below' := by
          simp [PurePath.push, hup, ← List.append_assoc]
        rw [List.concat_eq_append, List.foldl_cons, hstep]
        exact hdir name
    · simp only [descend, hup, ↓reduceIte] at h
      obtain ⟨dir, hdir⟩ := @ih (below ++ [part]) (by simpa using h)
      refine ⟨dir, fun name => ?_⟩
      have hstep : PurePath.push (base ++ [name] ++ below) part =
          base ++ [name] ++ (below ++ [part]) := by
        simp [PurePath.push, hup]
      rw [List.foldl_cons, hstep]
      exact hdir name

namespace PurePath

def Resolved (p : PurePath) : Prop := ".." ∉ p.parts

theorem resolve_of_resolved {p : PurePath} (h : p.Resolved) : p.resolve = p.parts := by
  have key (parts acc : List String) (hp : ".." ∉ parts) :
      parts.foldl push acc = acc ++ parts := by
    induction parts generalizing acc with
    | nil => simp
    | cons part parts ih =>
      obtain ⟨hne, hrest⟩ := List.ne_and_not_mem_of_not_mem_cons hp
      rw [List.foldl_cons, push, if_neg hne.symm, ih _ hrest, List.append_assoc,
        List.singleton_append]
  simpa [resolve] using key p.parts [] h

/-- Joining `s` onto every directory of one parent lands strictly inside each of them
exactly when `s` is confined. Two candidate names are enough. -/
theorem join_strictlyInside_iff (root : String) {base : List String} {P : String → Prop}
    (hbase : ".." ∉ base) (hP : ∀ name, P name → name ≠ "..") {n₁ n₂ : String}
    (h₁ : P n₁) (h₂ : P n₂) (hne : n₁ ≠ n₂) (s : String) :
    (∀ name, P name → StrictlyInside ⟨root, base ++ [name]⟩ (join ⟨root, base ++ [name]⟩ s)) ↔
      Confined s := by
  have hdir (name : String) (hn : P name) :
      (⟨root, base ++ [name]⟩ : PurePath).resolve = base ++ [name] := by
    apply resolve_of_resolved
    have hup : ¬ ".." = name := fun he => hP name hn he.symm
    simpa [Resolved, hup] using hbase
  have hclash (dir : List String) (h : ∀ name, P name → ∃ rest, rest ≠ [] ∧
      dir = base ++ [name] ++ rest) : False := by
    obtain ⟨r₁, -, hr₁⟩ := h n₁ h₁
    obtain ⟨r₂, -, hr₂⟩ := h n₂ h₂
    rw [hr₁, List.append_assoc, List.append_assoc, List.append_cancel_left_eq] at hr₂
    exact hne (List.cons.inj hr₂).1
  constructor
  · intro h
    by_cases hroot : rootOf s = ""
    · refine ⟨hroot, ?_⟩
      have hfold (name : String) (hn : P name) :
          (join ⟨root, base ++ [name]⟩ s).resolve =
            (components s).foldl push (base ++ [name] ++ []) := by
        have h0 := hdir name hn
        simp only [resolve] at h0 ⊢
        rw [join, if_pos hroot, List.foldl_append, h0, List.append_nil]
      cases hd : descend 0 (components s) with
      | none =>
        obtain ⟨dir, hesc⟩ := @foldl_push_of_escape (components s) base [] hd
        refine (hclash dir fun name hn => ?_).elim
        obtain ⟨-, rest, hne, hr⟩ := h name hn
        rw [hfold name hn, hesc name, hdir name hn] at hr
        exact ⟨rest, hne, hr⟩
      | some depth =>
        refine ⟨depth, rfl, ?_⟩
        obtain ⟨rest, hrest, hlen⟩ :=
          @foldl_push_of_descend (components s) (base ++ [n₁]) [] depth hd
        obtain ⟨-, rest', hne', hr⟩ := h n₁ h₁
        rw [hfold n₁ h₁, hrest, hdir n₁ h₁, List.append_cancel_left_eq] at hr
        rw [← hlen, hr]
        exact List.length_pos_iff.mpr hne'
    · refine (hclash (ofString s).resolve fun name hn => ?_).elim
      obtain ⟨-, rest, hne, hr⟩ := h name hn
      rw [join, if_neg hroot, hdir name hn] at hr
      exact ⟨rest, hne, hr⟩
  · rintro ⟨hroot, depth, hd, hpos⟩ name hn
    obtain ⟨rest, hrest, hlen⟩ :=
      @foldl_push_of_descend (components s) (base ++ [name]) [] depth hd
    refine ⟨by simp [join, hroot], rest, ?_, ?_⟩
    · rintro rfl
      simp at hlen
      omega
    · rw [hdir name hn, ← hrest]
      have h0 := hdir name hn
      simp only [resolve] at h0 ⊢
      rw [join, if_pos hroot, List.foldl_append, h0, List.append_nil]

end PurePath
end Paths
