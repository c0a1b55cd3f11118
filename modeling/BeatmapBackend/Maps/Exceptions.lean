import Mathlib.Data.List.Forall2
import Mathlib.Data.Nat.Notation

/-! The exceptions of the application and of the library calls it makes. -/
namespace Maps

inductive ExcKind where
  | mapJobNotFound
  | beatmapNotFound
  | unsupportedAudioType
  | invalidLaneCount
  | audioTooLarge
  | validationError
  | keyError
  | indexError
  | valueError
  | zeroDivisionError
  | fileNotFoundError
  | other (name : String)
  deriving DecidableEq, Repr

structure Exc where
  kind : ExcKind
  message : String
  deriving DecidableEq, Repr

/-- The `code` of an application error, empty for any other exception. -/
def ExcKind.code : ExcKind → String
  | .mapJobNotFound => "map_job_not_found"
  | .beatmapNotFound => "beatmap_not_found"
  | .unsupportedAudioType => "unsupported_audio_type"
  | .invalidLaneCount => "invalid_lane_count"
  | .audioTooLarge => "audio_too_large"
  | _ => ""

def ExcKind.statusCode : ExcKind → ℕ
  | .mapJobNotFound | .beatmapNotFound => 404
  | .unsupportedAudioType => 415
  | .invalidLaneCount => 422
  | .audioTooLarge => 413
  | _ => 500

/-- `AppError.__init__`: an empty message is replaced by the code. -/
def appError (kind : ExcKind) (message : String) : Exc :=
  ⟨kind, if message = "" then kind.code else message⟩

/-- `repr` of a string without control characters. -/
def pyRepr (s : String) : String :=
  let single := Char.ofNat 39
  if single ∈ s.toList ∧ '"' ∉ s.toList then "\"" ++ s ++ "\""
  else
    let escaped := s.toList.flatMap fun c =>
      if c = single ∨ c = '\\' then ['\\', c] else [c]
    String.ofList (single :: escaped ++ [single])

def pyReprList (xs : List String) : String :=
  "[" ++ ", ".intercalate (xs.map pyRepr) ++ "]"

/-- `str(exc)`: a `KeyError` shows the `repr` of its key. -/
def Exc.str (e : Exc) : String :=
  match e.kind with
  | .keyError => pyRepr e.message
  | _ => e.message

theorem except_toOption_eq_some {α : Type} {x : Except Exc α} {a : α} :
    x.toOption = some a ↔ x = .ok a := by
  cases x with
  | error e => exact iff_of_false (fun h => by cases h) (fun h => by cases h)
  | ok b => exact ⟨fun h => congrArg Except.ok (Option.some.inj h), fun h => h ▸ rfl⟩

/-- A computation that ends well consists of steps that do. -/
theorem except_bind_eq_ok {α β : Type} {x : Except Exc α} {f : α → Except Exc β} {b : β} :
    x >>= f = .ok b ↔ ∃ a, x = .ok a ∧ f a = .ok b := by
  cases x with
  | error e => exact ⟨nofun, fun ⟨a, ha, _⟩ => nomatch ha⟩
  | ok a => exact ⟨fun h => ⟨a, rfl, h⟩, fun ⟨a', ha, h⟩ => (Except.ok.inj ha) ▸ h⟩

/-- Every element is converted, in order. -/
theorem except_mapM_eq_ok {α β : Type} {f : α → Except Exc β} {l : List α} {ys : List β} :
    l.mapM f = .ok ys ↔ List.Forall₂ (fun x y => f x = .ok y) l ys := by
  induction l generalizing ys with
  | nil =>
    rw [List.mapM_nil, List.forall₂_nil_left_iff]
    exact ⟨fun h => (Except.ok.inj h).symm, fun h => congrArg Except.ok h.symm⟩
  | cons x l ih =>
    rw [List.mapM_cons, except_bind_eq_ok]
    constructor
    · rintro ⟨y, hy, h⟩
      obtain ⟨zs, hzs, h⟩ := except_bind_eq_ok.mp h
      obtain rfl := Except.ok.inj h
      exact List.Forall₂.cons hy (ih.mp hzs)
    · intro h
      obtain ⟨y, zs, hy, hzs, rfl⟩ := List.forall₂_cons_left_iff.mp h
      exact ⟨y, hy, except_bind_eq_ok.mpr ⟨zs, ih.mpr hzs, rfl⟩⟩

theorem except_mapM_mem {α β : Type} {f : α → Except Exc β} {l : List α} {ys : List β}
    (h : l.mapM f = .ok ys) {x : α} (hx : x ∈ l) : ∃ y, f x = .ok y ∧ y ∈ ys := by
  obtain ⟨n, hn, rfl⟩ := List.mem_iff_getElem.mp hx
  obtain ⟨hlen, hget⟩ := List.forall₂_iff_get.mp (except_mapM_eq_ok.mp h)
  exact ⟨_, hget n hn (hlen ▸ hn), List.get_mem ys ⟨n, hlen ▸ hn⟩⟩

theorem except_mapM_source {α β : Type} {f : α → Except Exc β} {l : List α} {ys : List β}
    (h : l.mapM f = .ok ys) {y : β} (hy : y ∈ ys) : ∃ x ∈ l, f x = .ok y := by
  obtain ⟨n, hn, rfl⟩ := List.mem_iff_getElem.mp hy
  obtain ⟨hlen, hget⟩ := List.forall₂_iff_get.mp (except_mapM_eq_ok.mp h)
  exact ⟨_, List.get_mem l ⟨n, hlen.symm ▸ hn⟩, hget n (hlen.symm ▸ hn) hn⟩

/-- What is read off the results is read off the elements. -/
theorem except_mapM_map {α β γ : Type} {f : α → Except Exc β} {l : List α} {ys : List β}
    (h : l.mapM f = .ok ys) {g : β → γ} {k : α → γ}
    (hg : ∀ x ∈ l, ∀ y, f x = .ok y → g y = k x) : ys.map g = l.map k := by
  obtain ⟨hlen, hget⟩ := List.forall₂_iff_get.mp (except_mapM_eq_ok.mp h)
  refine List.ext_getElem (by simp [hlen]) fun n hn hn' => ?_
  simp only [List.length_map] at hn hn'
  rw [List.getElem_map, List.getElem_map]
  exact hg _ (List.getElem_mem hn') _ (hget n hn' hn)

theorem except_mapM_isOk {α β : Type} {f : α → Except Exc β} {l : List α}
    (h : ∀ x ∈ l, ∃ y, f x = .ok y) : ∃ ys, l.mapM f = .ok ys := by
  induction l with
  | nil => exact ⟨[], rfl⟩
  | cons x l ih =>
    obtain ⟨y, hy⟩ := h x List.mem_cons_self
    obtain ⟨ys, hys⟩ := ih fun z hz => h z (List.mem_cons_of_mem x hz)
    rw [List.mapM_cons, hy, hys]
    exact ⟨y :: ys, rfl⟩

/-- The first element decides when all of them fail alike. -/
theorem except_mapM_error {α β : Type} {f : α → Except Exc β} {l : List α} {e : Exc}
    (hne : l ≠ []) (h : ∀ x ∈ l, f x = .error e) : l.mapM f = .error e := by
  obtain ⟨x, rest, rfl⟩ := List.exists_cons_of_ne_nil hne
  rw [List.mapM_cons, h x List.mem_cons_self]
  rfl

/-- Numbered elements are converted one by one, each with what is known of its number. -/
theorem except_mapM_zipIdx_isOk {α β : Type} {f : α × ℕ → Except Exc β} {l : List α}
    {P : ℕ → β → Prop} (h : ∀ (i : ℕ) (hi : i < l.length), ∃ y, f (l[i], i) = .ok y ∧ P i y) :
    ∃ ys, l.zipIdx.mapM f = .ok ys ∧ ys.length = l.length ∧
      ∀ i < l.length, ∃ y, ys[i]? = some y ∧ P i y := by
  obtain ⟨ys, hys⟩ := except_mapM_isOk (f := f) (l := l.zipIdx) (by
    rintro ⟨x, i⟩ hx
    obtain ⟨hi, rfl⟩ := List.getElem?_eq_some_iff.mp (List.mk_mem_zipIdx_iff_getElem?.mp hx)
    obtain ⟨y, hy, -⟩ := h i hi
    exact ⟨y, hy⟩)
  obtain ⟨hlen, hget⟩ := List.forall₂_iff_get.mp (except_mapM_eq_ok.mp hys)
  rw [List.length_zipIdx] at hlen
  refine ⟨ys, hys, hlen.symm, fun i hi => ?_⟩
  have hstep := hget i (by simpa using hi) (hlen ▸ hi)
  simp only [List.get_eq_getElem, List.getElem_zipIdx, Nat.zero_add] at hstep
  obtain ⟨y, hy, hP⟩ := h i hi
  rw [hy] at hstep
  exact ⟨y, by rw [List.getElem?_eq_getElem (hlen ▸ hi), Except.ok.inj hstep], hP⟩

end Maps
