import BeatmapBackend.Uris.Decoding
import Mathlib.Data.List.TakeWhile

/-! Reading a generic URI: what precedes the query and the fragment, less the scheme and the
authority, decoded. A base URI extended by a slash and a relative reference reads as the base
extended by a slash and that reference. -/
namespace Uris

def inPath (c : Char) : Bool := decide (c ≠ '?' ∧ c ≠ '#')

def beforeQuery (cs : List Char) : List Char := cs.takeWhile inPath

/-- What follows the first colon, unless a slash comes before it. -/
def afterColon : List Char → Option (List Char)
  | [] => none
  | c :: cs => if c = ':' then some cs else if c = '/' then none else afterColon cs

/-- A scheme is not empty. -/
def dropScheme (cs : List Char) : List Char :=
  if cs.head? = some ':' then cs else (afterColon cs).getD cs

def dropAuthority : List Char → List Char
  | c :: d :: cs => if c = '/' ∧ d = '/' then cs.dropWhile (· ≠ '/') else c :: d :: cs
  | cs => cs

def path (cs : List Char) : List Char := dropAuthority (dropScheme (beforeQuery cs))

/-- The octets that the path of a URI stands for. -/
def readPath (uri : String) : List UInt8 := percentDecode (path uri.toList)

/-- The text has neither a query nor a fragment. -/
def NoQuery (cs : List Char) : Prop := '?' ∉ cs ∧ '#' ∉ cs

variable {cs ds : List Char}

theorem beforeQuery_append (h : NoQuery cs) (ds : List Char) :
    beforeQuery (cs ++ ds) = cs ++ beforeQuery ds := by
  apply List.takeWhile_append_of_pos
  intro c hc
  exact decide_eq_true ⟨fun he => h.1 (he ▸ hc), fun he => h.2 (he ▸ hc)⟩

theorem beforeQuery_slash_cons (ds : List Char) :
    beforeQuery ('/' :: ds) = '/' :: beforeQuery ds := rfl

theorem beforeQuery_eq_iff : beforeQuery cs = cs ↔ NoQuery cs := by
  constructor
  · intro h
    have hall := List.takeWhile_eq_self_iff.mp h
    exact ⟨fun hc => absurd (hall _ hc) (by decide), fun hc => absurd (hall _ hc) (by decide)⟩
  · intro h
    simpa [beforeQuery] using beforeQuery_append h []

theorem afterColon_append (cs ds : List Char) :
    afterColon (cs ++ '/' :: ds) = (afterColon cs).map (· ++ '/' :: ds) := by
  induction cs with
  | nil => rfl
  | cons c cs ih =>
    simp only [List.cons_append, afterColon]
    split_ifs
    · rfl
    · rfl
    · exact ih

theorem afterColon_suffix (h : afterColon cs = some ds) : ds <:+ cs := by
  induction cs with
  | nil => simp [afterColon] at h
  | cons c cs ih =>
    simp only [afterColon] at h
    split_ifs at h
    · exact Option.some.inj h ▸ List.suffix_cons c cs
    · exact (ih h).trans (List.suffix_cons c cs)

theorem dropScheme_suffix (cs : List Char) : dropScheme cs <:+ cs := by
  unfold dropScheme
  split_ifs
  · exact List.suffix_rfl
  · cases h : afterColon cs with
    | none => exact List.suffix_rfl
    | some ds => exact afterColon_suffix h

theorem dropScheme_append (cs ds : List Char) :
    dropScheme (cs ++ '/' :: ds) = dropScheme cs ++ '/' :: ds := by
  cases cs with
  | nil => rfl
  | cons c cs =>
    unfold dropScheme
    rw [afterColon_append]
    by_cases hc : c = ':'
    · simp [hc]
    · cases afterColon (c :: cs) <;> simp [hc]

theorem dropWhile_ne_slash_append (cs ds : List Char) :
    (cs ++ '/' :: ds).dropWhile (· ≠ '/') = cs.dropWhile (· ≠ '/') ++ '/' :: ds := by
  induction cs with
  | nil => rfl
  | cons c cs ih =>
    by_cases hc : c = '/'
    · simp [hc]
    · simpa [hc] using ih

/-- Two slashes in a row would start an authority. -/
theorem dropAuthority_append (hcs : cs ≠ ['/']) (hds : ds.head? ≠ some '/') :
    dropAuthority (cs ++ '/' :: ds) = dropAuthority cs ++ '/' :: ds := by
  rcases cs with - | ⟨c, - | ⟨d, cs⟩⟩
  · cases ds with
    | nil => rfl
    | cons d ds =>
      have hd : d ≠ '/' := fun he => hds (congrArg some he)
      simp [dropAuthority, hd]
  · have hc : c ≠ '/' := fun he => hcs (by rw [he])
    simp [dropAuthority, hc]
  · simp only [List.cons_append, dropAuthority]
    split_ifs
    · exact dropWhile_ne_slash_append cs ds
    · rfl

theorem path_append (hquery : NoQuery cs) (hlast : cs.getLast? ≠ some '/')
    (hhead : ds.head? ≠ some '/') :
    path (cs ++ '/' :: ds) = path cs ++ '/' :: beforeQuery ds := by
  have hslash : dropScheme cs ≠ ['/'] := by
    intro h
    obtain ⟨pre, hpre⟩ := dropScheme_suffix cs
    apply hlast
    rw [← hpre, h, List.getLast?_concat]
  have hhead' : (beforeQuery ds).head? ≠ some '/' := by
    cases ds with
    | nil => simp [beforeQuery]
    | cons d ds =>
      rw [beforeQuery, List.takeWhile_cons]
      split_ifs
      · simpa using hhead
      · simp
  rw [path, path, beforeQuery_append hquery, beforeQuery_slash_cons, dropScheme_append,
    dropAuthority_append hslash hhead', beforeQuery_eq_iff.mpr hquery]

def Literal (cs : List Char) : Prop := NoQuery cs ∧ ¬ Escaped cs

theorem literal_of_all (h : cs.all fun c => c ≠ '?' ∧ c ≠ '#' ∧ c ≠ '%') : Literal cs := by
  simp only [List.all_eq_true, decide_eq_true_eq] at h
  exact ⟨⟨fun hc => (h _ hc).1 rfl, fun hc => (h _ hc).2.1 rfl⟩,
    not_escaped_of_notMem fun hc => (h _ hc).2.2 rfl⟩

theorem literal_append_slash_iff (cs ds : List Char) :
    Literal (cs ++ '/' :: ds) ↔ Literal cs ∧ Literal ds := by
  simp only [Literal, NoQuery, escaped_append_cons_iff (show '/' ≠ '%' by decide)
    (show hexDigit '/' = none by decide), List.mem_append, List.mem_cons]
  constructor
  · rintro ⟨⟨hquery, hfragment⟩, hescape⟩
    rw [not_or] at hescape
    exact ⟨⟨⟨fun h => hquery (.inl h), fun h => hfragment (.inl h)⟩, hescape.1⟩,
      ⟨fun h => hquery (.inr (.inr h)), fun h => hfragment (.inr (.inr h))⟩, hescape.2⟩
  · rintro ⟨⟨⟨hquery, hfragment⟩, hescape⟩, ⟨hquery', hfragment'⟩, hescape'⟩
    simp [hquery, hfragment, hescape, hquery', hfragment', hescape']

/-- A query, a fragment and an escape all make the reading shorter than the text. -/
theorem percentDecode_beforeQuery_eq_iff (cs : List Char) :
    percentDecode (beforeQuery cs) = utf8 cs ↔ Literal cs := by
  constructor
  · intro h
    have hsplit : beforeQuery cs ++ cs.dropWhile inPath = cs := List.takeWhile_append_dropWhile
    have hquery : NoQuery cs := by
      have hle := length_percentDecode_le (beforeQuery cs)
      have hrest := length_le_length_utf8 (cs.dropWhile inPath)
      rw [h, ← hsplit, utf8_append, List.length_append, hsplit] at hle
      have hnil : cs.dropWhile inPath = [] := List.length_eq_zero_iff.mp (by omega)
      rwa [hnil, List.append_nil, beforeQuery_eq_iff] at hsplit
    rw [beforeQuery_eq_iff.mpr hquery] at h
    exact ⟨hquery, (percentDecode_eq_utf8_iff cs).mp h⟩
  · rintro ⟨hquery, hescape⟩
    rw [beforeQuery_eq_iff.mpr hquery]
    exact (percentDecode_eq_utf8_iff cs).mpr hescape

end Uris
