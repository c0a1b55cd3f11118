import Mathlib.Algebra.Order.Field.Basic
import Mathlib.Algebra.Order.Floor.Ring
import Mathlib.Algebra.Order.Floor.Semiring
import Mathlib.Algebra.BigOperators.Group.List.Basic
import Mathlib.Data.List.Sort
import Mathlib.Order.Bounds.Basic

/-! One- and two-dimensional arrays over an ordered field, with the order statistics and
the filters that signal processing asks of them. -/
namespace Numerics

/-- A two-dimensional array; entries outside its shape carry no meaning. -/
structure Grid (K : Type) where
  rows : ℕ
  cols : ℕ
  entry : ℕ → ℕ → K

namespace Grid

variable {K : Type}

def zeros [Zero K] (rows cols : ℕ) : Grid K := ⟨rows, cols, fun _ _ => 0⟩

def map (f : K → K) (g : Grid K) : Grid K := { g with entry := fun i j => f (g.entry i j) }

/-- Row `i` restricted to the columns from `start` up to `stop`, clipped to the shape. -/
def rowSlice (g : Grid K) (i start stop : ℕ) : List K :=
  (List.range (min stop g.cols - start)).map fun k => g.entry i (start + k)

/-- `g[start:stop, col] = values`, clipped to the shape. -/
def setColumnSlice (g : Grid K) (start stop col : ℕ) (values : List K) : Grid K :=
  { g with entry := fun i j =>
      if j = col ∧ start ≤ i ∧ i < stop then values.getD (i - start) (g.entry i j)
      else g.entry i j }

end Grid

section Order

variable {K : Type} [LinearOrder K]

/-- The first position of a sorted array whose entry is at least `x`. -/
def searchsortedLeft (xs : List K) (x : K) : ℕ := xs.findIdx fun y => decide (x ≤ y)

/-- The first position of a sorted array whose entry is above `x`. -/
def searchsortedRight (xs : List K) (x : K) : ℕ := xs.findIdx fun y => decide (x < y)

/-- The bin of `x` among increasing edges; the lower edge belongs to its bin. -/
def digitize (x : K) (edges : List K) : ℕ := searchsortedRight edges x

theorem digitize_le_length (x : K) (edges : List K) : digitize x edges ≤ edges.length :=
  List.findIdx_le_length

def clip (x lo hi : K) : K := min (max x lo) hi

theorem le_clip {x lo hi : K} (h : lo ≤ hi) : lo ≤ clip x lo hi :=
  le_min (le_max_right x lo) h

theorem clip_le (x lo hi : K) : clip x lo hi ≤ hi := min_le_right _ _

def amax (x : K) (xs : List K) : K := xs.foldl max x

theorem amax_le_iff {x y : K} {xs : List K} : amax x xs ≤ y ↔ ∀ z ∈ x :: xs, z ≤ y := by
  induction xs generalizing x with
  | nil => simp [amax]
  | cons a xs ih =>
    rw [show amax x (a :: xs) = amax (max x a) xs from rfl, ih]
    simp [and_assoc]

theorem le_amax {x z : K} {xs : List K} (h : z ∈ x :: xs) : z ≤ amax x xs :=
  amax_le_iff.mp le_rfl z h

theorem amax_mem (x : K) (xs : List K) : amax x xs ∈ x :: xs := by
  induction xs generalizing x with
  | nil => exact List.mem_singleton_self x
  | cons a xs ih =>
    rw [show amax x (a :: xs) = amax (max x a) xs from rfl]
    rcases List.mem_cons.mp (ih (max x a)) with hmax | hrest
    · rcases max_choice x a with h | h <;> rw [hmax, h] <;> simp
    · exact List.mem_cons_of_mem _ (List.mem_cons_of_mem _ hrest)

theorem isGreatest_amax (x : K) (xs : List K) : IsGreatest {v | v ∈ x :: xs} (amax x xs) :=
  ⟨amax_mem x xs, fun _ hv => le_amax hv⟩

def sort (xs : List K) : List K := xs.insertionSort (· ≤ ·)

@[simp] theorem length_sort (xs : List K) : (sort xs).length = xs.length :=
  List.length_insertionSort _ xs

def unique (xs : List K) : List K := (sort xs).dedup

/-- The entry at an index moved to the nearest existing one. -/
def nearest (d : K) (xs : List K) (i : ℤ) : K := xs.getD (min i.toNat (xs.length - 1)) d

/-- The median filter that takes the entry of rank `size / 2` of each window. -/
def medianFilter (d : K) (xs : List K) (size : ℕ) : List K :=
  (List.range xs.length).map fun i =>
    (sort ((List.range size).map fun k =>
      nearest d xs ((i : ℤ) - (size / 2 : ℕ) + k))).getD (size / 2) d

@[simp] theorem length_medianFilter (d : K) (xs : List K) (size : ℕ) :
    (medianFilter d xs size).length = xs.length := by
  simp [medianFilter]

/-- The maximum over each row's window of three rows, edges repeated. -/
def maximumFilter3 (g : Grid K) : Grid K where
  rows := g.rows
  cols := g.cols
  entry i j :=
    max (max (g.entry (i - 1) j) (g.entry i j)) (g.entry (min (i + 1) (g.rows - 1)) j)

end Order

section Field

variable {K : Type} [Field K]

def mean (xs : List K) : K := xs.sum / xs.length

/-- `n` evenly spaced numbers from `a` to `b`, both included. -/
def linspace (a b : K) (n : ℕ) : List K :=
  (List.range n).map fun i => a + i * ((b - a) / (n - 1 : ℕ))

@[simp] theorem length_linspace (a b : K) (n : ℕ) : (linspace a b n).length = n := by
  simp [linspace]

theorem linspace_eq (a b : K) (n : ℕ) :
    linspace a b n = (List.range n).map fun i : ℕ => a + (i : K) * ((b - a) / (n - 1 : ℕ)) := by
  simp only [linspace, List.bind_eq_flatMap, List.pure_def, ← List.map_eq_flatMap, List.map_map,
    Function.comp_def]

def Grid.transposeMul (a b : Grid K) : Grid K where
  rows := a.cols
  cols := b.cols
  entry i j := ((List.range a.rows).map fun k => a.entry k i * b.entry k j).sum

end Field

section Quantile

variable {K : Type} [Field K] [LinearOrder K] [FloorRing K]

/-- The linearly interpolated order statistic at `q * (n - 1)`. -/
def quantile (xs : List K) (q : K) : K :=
  let sorted := sort xs
  let position := q * (xs.length - 1 : ℕ)
  let below := ⌊position⌋.toNat
  let low := sorted.getD below 0
  let high := sorted.getD (min (below + 1) (xs.length - 1)) 0
  low + (high - low) * (position - below)

end Quantile
end Numerics
