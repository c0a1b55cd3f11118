import Mathlib.Data.List.Infix
import Mathlib.Tactic.Common

/-! Patterns as access policies write them: `*` stands for any characters, slashes included,
and `?` for one character. -/
namespace Patterns

def wildcard : List Char → List Char → Bool
  | [], cs => cs.isEmpty
  | p :: ps, cs =>
    if p = '*' then cs.tails.any (wildcard ps)
    else cs.head?.any (fun c => p = '?' ∨ p = c) && wildcard ps cs.tail

/-- The pattern stands for itself. -/
def Plain (ps : List Char) : Prop := '*' ∉ ps ∧ '?' ∉ ps

instance decidablePlain (ps : List Char) : Decidable (Plain ps) :=
  inferInstanceAs (Decidable ('*' ∉ ps ∧ '?' ∉ ps))

variable {ps qs cs : List Char}

theorem plain_append : Plain (ps ++ qs) ↔ Plain ps ∧ Plain qs := by
  simp only [Plain, List.mem_append, not_or]
  tauto

theorem wildcard_star_iff :
    wildcard ('*' :: ps) cs = true ↔ ∃ a b, cs = a ++ b ∧ wildcard ps b = true := by
  rw [wildcard, if_pos rfl, List.any_eq_true]
  constructor
  · rintro ⟨b, hb, hmatch⟩
    obtain ⟨a, rfl⟩ := (List.mem_tails b cs).mp hb
    exact ⟨a, b, rfl, hmatch⟩
  · rintro ⟨a, b, rfl, hmatch⟩
    exact ⟨b, (List.mem_tails b _).mpr (List.suffix_append a b), hmatch⟩

theorem wildcard_star : wildcard ['*'] cs = true :=
  wildcard_star_iff.mpr ⟨cs, [], (List.append_nil cs).symm, rfl⟩

theorem wildcard_append_iff (hps : Plain ps) :
    wildcard (ps ++ qs) cs = true ↔ ∃ b, cs = ps ++ b ∧ wildcard qs b = true := by
  induction ps generalizing cs with
  | nil => simp
  | cons p ps ih =>
    have hstar : p ≠ '*' := fun hp => hps.1 (hp ▸ List.mem_cons_self)
    have hone : p ≠ '?' := fun hp => hps.2 (hp ▸ List.mem_cons_self)
    have hrest : Plain ps := ⟨fun h => hps.1 (List.mem_cons_of_mem _ h),
      fun h => hps.2 (List.mem_cons_of_mem _ h)⟩
    rw [List.cons_append, wildcard, if_neg hstar]
    cases cs with
    | nil => simp
    | cons c cs =>
      have hhead : decide (p = '?' ∨ p = c) = decide (p = c) := by simp [hone]
      rw [List.head?_cons, Option.any_some, hhead, Bool.and_eq_true, decide_eq_true_eq,
        List.tail_cons, ih hrest]
      constructor
      · rintro ⟨rfl, b, rfl, hb⟩
        exact ⟨b, rfl, hb⟩
      · rintro ⟨b, hcs, hb⟩
        obtain ⟨rfl, rfl⟩ := List.cons.inj hcs
        exact ⟨rfl, b, rfl, hb⟩

/-- Some text, anything, some more text, anything. -/
theorem wildcard_between_iff {l m : List Char} (hl : Plain l) (hm : Plain m) :
    wildcard (l ++ '*' :: (m ++ ['*'])) cs = true ↔ ∃ a b, cs = l ++ (a ++ (m ++ b)) := by
  rw [wildcard_append_iff hl]
  constructor
  · rintro ⟨b, rfl, hb⟩
    obtain ⟨a, c, rfl, hc⟩ := wildcard_star_iff.mp hb
    obtain ⟨d, rfl, -⟩ := (wildcard_append_iff hm).mp hc
    exact ⟨a, d, rfl⟩
  · rintro ⟨a, b, rfl⟩
    exact ⟨_, rfl, wildcard_star_iff.mpr ⟨a, m ++ b, rfl,
      (wildcard_append_iff hm).mpr ⟨b, rfl, wildcard_star⟩⟩⟩

example : wildcard "a/*/b?".toList "a/x/y/bc".toList = true := by decide

end Patterns
