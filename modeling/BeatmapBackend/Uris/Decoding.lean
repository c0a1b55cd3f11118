import Mathlib.Data.List.Infix
import Mathlib.Tactic.Common

/-! Percent-decoding of the characters of a URI into octets. A percent sign that two hexadecimal
digits do not follow stands for itself. -/
namespace Uris

def utf8 (cs : List Char) : List UInt8 := cs.flatMap String.utf8EncodeChar

@[simp] theorem utf8_nil : utf8 [] = [] := rfl

@[simp] theorem utf8_cons (c : Char) (cs : List Char) :
    utf8 (c :: cs) = String.utf8EncodeChar c ++ utf8 cs := rfl

@[simp] theorem utf8_append (cs ds : List Char) : utf8 (cs ++ ds) = utf8 cs ++ utf8 ds :=
  List.flatMap_append

theorem utf8_injective : Function.Injective utf8 := by
  intro cs ds h
  have hencode : cs.utf8Encode = ds.utf8Encode := congrArg List.toByteArray h
  have hdecode := congrArg ByteArray.utf8Decode? hencode
  rw [List.utf8Decode?_utf8Encode, List.utf8Decode?_utf8Encode] at hdecode
  simpa using hdecode

theorem length_utf8_pos (c : Char) : 0 < (String.utf8EncodeChar c).length :=
  List.length_pos_iff.mpr String.utf8EncodeChar_ne_nil

theorem length_le_length_utf8 (cs : List Char) : cs.length ≤ (utf8 cs).length := by
  induction cs with
  | nil => exact le_rfl
  | cons c cs ih =>
    have hpos := length_utf8_pos c
    rw [utf8_cons, List.length_append, List.length_cons]
    omega

def hexDigit (c : Char) : Option ℕ := "0123456789abcdef".toList.findIdx? (· = c.toLower)

/-- The octet that three characters of a URI stand for. -/
def escape (c a b : Char) : Option UInt8 :=
  if c = '%' then
    match hexDigit a, hexDigit b with
    | some high, some low => some (UInt8.ofNat (16 * high + low))
    | _, _ => none
  else none

theorem escape_isSome_iff {c a b : Char} : (escape c a b).isSome ↔
    c = '%' ∧ (hexDigit a).isSome ∧ (hexDigit b).isSome := by
  unfold escape
  by_cases hc : c = '%'
  · cases hexDigit a <;> cases hexDigit b <;> simp [hc]
  · simp [hc]

def percentDecode : List Char → List UInt8
  | c :: a :: b :: cs =>
    match escape c a b with
    | some octet => octet :: percentDecode cs
    | none => String.utf8EncodeChar c ++ percentDecode (a :: b :: cs)
  | cs => utf8 cs

/-- A percent sign and two hexadecimal digits occur one after another. -/
def Escaped (cs : List Char) : Prop :=
  ∃ a b, (hexDigit a).isSome ∧ (hexDigit b).isSome ∧ ['%', a, b] <:+: cs

theorem not_escaped_of_notMem {cs : List Char} (h : '%' ∉ cs) : ¬ Escaped cs := by
  rintro ⟨a, b, -, -, hin⟩
  exact h (hin.subset List.mem_cons_self)

theorem not_escaped_of_length {cs : List Char} (h : cs.length < 3) : ¬ Escaped cs := by
  rintro ⟨a, b, -, -, hin⟩
  exact absurd hin.length_le (by simpa using h)

theorem escaped_cons_iff {c : Char} {cs : List Char} : Escaped (c :: cs) ↔
    (∃ a b ds, cs = a :: b :: ds ∧ (escape c a b).isSome) ∨ Escaped cs := by
  simp only [Escaped, List.infix_cons_iff, escape_isSome_iff]
  constructor
  · rintro ⟨a, b, ha, hb, hpre | hin⟩
    · obtain ⟨ds, hds⟩ := hpre
      obtain ⟨rfl, hcs⟩ := List.cons.inj hds
      exact .inl ⟨a, b, ds, hcs.symm, rfl, ha, hb⟩
    · exact .inr ⟨a, b, ha, hb, hin⟩
  · rintro (⟨a, b, ds, rfl, rfl, ha, hb⟩ | ⟨a, b, ha, hb, hin⟩)
    · exact ⟨a, b, ha, hb, .inl ⟨ds, rfl⟩⟩
    · exact ⟨a, b, ha, hb, .inr hin⟩

theorem length_percentDecode_le (cs : List Char) :
    (percentDecode cs).length ≤ (utf8 cs).length := by
  fun_induction percentDecode cs with
  | case1 c a b cs octet hoctet ih =>
    have hc := length_utf8_pos c
    simp only [utf8_cons, List.length_append, List.length_cons]
    omega
  | case2 c a b cs hnone ih =>
    simp only [utf8_cons, List.length_append] at ih ⊢
    omega
  | case3 cs hshort => exact le_rfl

/-- Decoding shortens a text with an escape in it, and is the text otherwise. -/
theorem percentDecode_eq_utf8_iff (cs : List Char) :
    percentDecode cs = utf8 cs ↔ ¬ Escaped cs := by
  fun_induction percentDecode cs with
  | case1 c a b cs octet hoctet ih =>
    have hescaped : Escaped (c :: a :: b :: cs) :=
      escaped_cons_iff.mpr (.inl ⟨a, b, cs, rfl, by simp [hoctet]⟩)
    apply iff_of_false _ (not_not_intro hescaped)
    intro h
    have hlen := congrArg List.length h
    have hle := length_percentDecode_le cs
    have hc := length_utf8_pos c
    have ha := length_utf8_pos a
    simp only [utf8_cons, List.length_append, List.length_cons] at hlen
    have hb := length_utf8_pos b
    omega
  | case2 c a b cs hnone ih =>
    rw [utf8_cons, List.append_cancel_left_eq, ih, not_iff_not, escaped_cons_iff (c := c)]
    constructor
    · exact Or.inr
    · rintro (⟨a', b', ds, heq, hsome⟩ | hescaped)
      · cases heq
        simp [hnone] at hsome
      · exact hescaped
  | case3 cs hshort =>
    apply iff_of_true rfl
    apply not_escaped_of_length
    by_contra hlen
    rcases cs with - | ⟨c, - | ⟨a, - | ⟨b, cs⟩⟩⟩
    · simp at hlen
    · simp at hlen
    · simp at hlen
    · exact hshort c a b cs rfl

theorem percentDecode_cons {c : Char} {cs : List Char}
    (h : ∀ a b ds, cs = a :: b :: ds → escape c a b = none) :
    percentDecode (c :: cs) = String.utf8EncodeChar c ++ percentDecode cs := by
  rcases cs with - | ⟨a, - | ⟨b, cs⟩⟩
  · rfl
  · rfl
  · rw [percentDecode, h a b cs rfl]

/-- A character that is no hexadecimal digit and no percent sign ends every escape. -/
theorem percentDecode_append_cons {d : Char} (hd : d ≠ '%') (hhex : hexDigit d = none)
    (cs ds : List Char) : percentDecode (cs ++ d :: ds) =
      percentDecode cs ++ String.utf8EncodeChar d ++ percentDecode ds := by
  have hnone {c a b : Char} (h : c = d ∨ a = d ∨ b = d) : escape c a b = none := by
    rw [← Option.not_isSome_iff_eq_none, escape_isSome_iff]
    rintro ⟨hc, ha, hb⟩
    rcases h with rfl | rfl | rfl
    · exact hd hc
    · simp [hhex] at ha
    · simp [hhex] at hb
  have hhead : percentDecode (d :: ds) = String.utf8EncodeChar d ++ percentDecode ds :=
    percentDecode_cons fun a b _ _ => hnone (.inl rfl)
  fun_induction percentDecode cs with
  | case1 c a b cs octet hoctet ih =>
    simp only [List.cons_append, percentDecode, hoctet, ih]
  | case2 c a b cs hnone' ih =>
    simp only [List.cons_append] at ih
    simp only [List.cons_append, percentDecode, hnone', ih, List.append_assoc]
  | case3 cs hshort =>
    rcases cs with - | ⟨c, - | ⟨a, - | ⟨b, cs⟩⟩⟩
    · simpa using hhead
    · rw [List.cons_append, List.nil_append, percentDecode_cons, hhead]
      · simp
      · intro a b ds' heq
        cases heq
        exact hnone (.inr (.inl rfl))
    · rw [List.cons_append, List.cons_append, List.nil_append, percentDecode_cons,
        percentDecode_cons, hhead]
      · simp
      · intro a' b ds' heq
        cases heq
        exact hnone (.inr (.inl rfl))
      · intro a' b ds' heq
        cases heq
        exact hnone (.inr (.inr rfl))
    · exact (hshort c a b cs rfl).elim

theorem escaped_append_cons_iff {d : Char} (hd : d ≠ '%') (hhex : hexDigit d = none)
    (cs ds : List Char) : Escaped (cs ++ d :: ds) ↔ Escaped cs ∨ Escaped ds := by
  rw [← not_iff_not, not_or, ← percentDecode_eq_utf8_iff, ← percentDecode_eq_utf8_iff,
    ← percentDecode_eq_utf8_iff, percentDecode_append_cons hd hhex, utf8_append, utf8_cons,
    ← List.append_assoc]
  constructor
  · intro h
    have hlen := congrArg List.length h
    have hcs := length_percentDecode_le cs
    have hds := length_percentDecode_le ds
    simp only [List.length_append] at hlen
    obtain ⟨hfront, hback⟩ := List.append_inj' h (by omega)
    exact ⟨List.append_cancel_right hfront, hback⟩
  · rintro ⟨hcs, hds⟩
    rw [hcs, hds]

end Uris
