import BeatmapBackend.Collections.Clusters
import BeatmapBackend.Golden.Quality

/-! The ground truth of a golden track: the audible attacks of a midi file. They are the start
times of its chords, and determined by the set of times at which a note sounds. -/
namespace Golden
open Collections Numerics

variable {K : Type} [Field K]

inductive Message (K : Type) where
  | noteOn (time : K) (velocity : ℕ)
  | other (time : K)

def Message.time : Message K → K
  | .noteOn time _ => time
  | .other time => time

/-- A `note_on` with velocity 0 is a `note_off` in disguise. -/
def Message.IsAttack : Message K → Bool
  | .noteOn _ velocity => 0 < velocity
  | .other _ => false

structure Playback (K : Type) where
  noteOnTimes : List K
  elapsed : K

def Playback.message (p : Playback K) (m : Message K) : Playback K :=
  let elapsed := p.elapsed + m.time
  { elapsed
    noteOnTimes := if m.IsAttack then p.noteOnTimes ++ [elapsed] else p.noteOnTimes }

def noteOnTimes (messages : List (Message K)) : List K :=
  (messages.foldl Playback.message ⟨[], 0⟩).noteOnTimes

def Sounds (messages : List (Message K)) (t : K) : Prop :=
  ∃ before m after, messages = before ++ m :: after ∧ m.IsAttack ∧
    t = ((before ++ [m]).map Message.time).sum

section NoteOnTimes

variable (messages : List (Message K)) (m : Message K)

theorem sounds_concat {t : K} : Sounds (messages ++ [m]) t ↔
    Sounds messages t ∨ m.IsAttack ∧ t = ((messages ++ [m]).map Message.time).sum := by
  constructor
  · rintro ⟨before, n, after, heq, hattack, rfl⟩
    rcases List.eq_nil_or_concat after with rfl | ⟨rest, last, rfl⟩
    · obtain ⟨rfl, hlast⟩ := List.append_inj' heq rfl
      obtain rfl : m = n := by simpa using hlast
      exact Or.inr ⟨hattack, rfl⟩
    · rw [List.concat_eq_append, ← List.cons_append, ← List.append_assoc] at heq
      exact Or.inl ⟨before, n, rest, (List.append_inj' heq rfl).1, hattack, rfl⟩
  · rintro (⟨before, n, after, rfl, hattack, rfl⟩ | ⟨hattack, rfl⟩)
    · exact ⟨before, n, after ++ [m], by simp, hattack, rfl⟩
    · exact ⟨messages, m, [], rfl, hattack, rfl⟩

theorem foldl_message_elapsed : (messages.foldl Playback.message ⟨[], 0⟩).elapsed =
    (messages.map Message.time).sum := by
  induction messages using List.reverseRecOn with
  | nil => rfl
  | append_singleton messages m ih => simp [Playback.message, ih]

theorem noteOnTimes_concat : noteOnTimes (messages ++ [m]) = if m.IsAttack then
    noteOnTimes messages ++ [((messages ++ [m]).map Message.time).sum] else
      noteOnTimes messages := by
  simp [noteOnTimes, Playback.message, foldl_message_elapsed]

theorem mem_noteOnTimes {t : K} : t ∈ noteOnTimes messages ↔ Sounds messages t := by
  induction messages using List.reverseRecOn with
  | nil => simp [noteOnTimes, Sounds]
  | append_singleton messages m ih =>
    rw [sounds_concat, ← ih, noteOnTimes_concat]
    split_ifs with hattack <;> simp [hattack]

end NoteOnTimes

section Attacks

variable [LinearOrder K]

def defaultChordWindowS : K := 0.02

def midiOnsetTimes (messages : List (Message K)) (chordWindowS : K := defaultChordWindowS) :
    List K :=
  (sort (noteOnTimes messages)).foldl (join chordWindowS) []

variable [IsStrictOrderedRing K] (messages : List (Message K)) {chordWindowS : K}

theorem clusters_midiOnsetTimes (hwindow : 0 ≤ chordWindowS) :
    Clusters {t | Sounds messages t} chordWindowS (midiOnsetTimes messages chordWindowS) := by
  have hsounds : {t | Sounds messages t} = {t | t ∈ sort (noteOnTimes messages)} := by
    ext t
    exact (mem_noteOnTimes messages).symm.trans (sort_perm _).mem_iff.symm
  rw [hsounds]
  exact Clusters.foldl hwindow (sortedLE_sort _).pairwise

/-- The attacks are the one list of sounding times, apart by more than the window, such that each
note starts within the window after one of them. No shorter list of windows catches every note. -/
theorem midiOnsetTimes_eq_iff (hwindow : 0 ≤ chordWindowS) (attacks : List K) :
    (midiOnsetTimes messages chordWindowS = attacks ↔
      Clusters {t | Sounds messages t} chordWindowS attacks) ∧
    ∀ starts : List K, (∀ t, Sounds messages t → ∃ s ∈ starts, s ≤ t ∧ t - s ≤ chordWindowS) →
      (midiOnsetTimes messages chordWindowS).length ≤ starts.length := by
  have hclusters := clusters_midiOnsetTimes messages hwindow
  refine ⟨⟨fun heq => heq ▸ hclusters, fun h => hclusters.unique h hwindow⟩, ?_⟩
  exact fun starts hcover => hclusters.length_le hcover

end Attacks

/-- A chord of two notes, a release and a third note. -/
theorem midiOnsetTimes_eq_iff_sample :
    Clusters {t | Sounds [.noteOn (0 : ℚ) 80, .noteOn (1 / 100) 64, .other (1 / 5),
      .noteOn (3 / 10) 0, .noteOn 0 90] t} defaultChordWindowS [0, 51 / 100] := by
  have hwindow : (0 : ℚ) ≤ defaultChordWindowS := by decide +kernel
  have hattacks : midiOnsetTimes [.noteOn (0 : ℚ) 80, .noteOn (1 / 100) 64, .other (1 / 5),
      .noteOn (3 / 10) 0, .noteOn 0 90] = [0, 51 / 100] := by decide +kernel
  exact (midiOnsetTimes_eq_iff _ hwindow _).1.mp hattacks

end Golden
