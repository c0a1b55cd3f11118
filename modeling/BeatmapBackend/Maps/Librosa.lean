import BeatmapBackend.Numerics.Searching

/-! The third-party functions the pipeline calls on audio, as one record of functions, and
what their documentation promises. -/
namespace Maps
open Numerics

abbrev Bytes := List UInt8

/-- The arguments of `librosa.onset.onset_detect`; `none` is the library's default. -/
structure OnsetDetectArgs (K : Type) where
  envelope : List K
  sr : ℕ
  hopLength : ℕ
  backtrack : Bool
  normalize : Bool
  delta : Option K
  wait : Option ℕ

/-- The tempo of `beat_track`: a plain number where there is no onset strength, else an array. -/
inductive Tempo (K : Type) where
  | float (tempo : K)
  | array (tempo : List K)

/-- Librosa, SciPy's filter design, demucs and NumPy's transcendental functions. A call
that raises is not a value of these functions. -/
structure Librosa (K : Type) where
  /-- `get_duration`, in seconds. -/
  getDuration : Bytes → K
  /-- `load`: mono samples and their rate; `none` keeps the native rate. -/
  load : Bytes → Option ℕ → List K × ℕ
  beatTrack : List K → ℕ → Tempo K
  /-- `sosfiltfilt` with a low-pass Butterworth filter: order, cutoff, rate, signal. -/
  lowpass : ℕ → K → ℕ → List K → List K
  onsetStrength : List K → ℕ → ℕ → List K
  onsetDetect : OnsetDetectArgs K → List ℕ
  /-- `frames_to_time`: frame, rate, hop. -/
  framesToTime : ℕ → ℕ → ℕ → K
  /-- `|stft|`: signal, window length, hop. -/
  stftMagnitude : List K → ℕ → ℕ → Grid K
  hannWindow : ℕ → List K
  /-- `melspectrogram`: power spectrogram, rate, bands, upper frequency. -/
  melspectrogram : Grid K → ℕ → ℕ → K → Grid K
  /-- `power_to_db` relative to the maximum. -/
  powerToDb : Grid K → Grid K
  /-- The only row of `spectral_centroid`: signal, rate, hop. -/
  spectralCentroid : List K → ℕ → ℕ → List K
  /-- `demucs --two-stems drums`: the drum stem and the rest. -/
  demucs : Bytes → Bytes × Bytes
  argsort : List (WithBot K) → List ℕ
  log2 : K → K
  exp2 : K → K
  log10 : K → K
  sqrt : K → K

variable {K : Type}

/-- Frames are detected in increasing order inside the envelope, a frame starts at
`frame * hop / sr`, and every feature has one entry per frame of the spectrogram. -/
structure Librosa.Documented [Field K] (lib : Librosa K) : Prop where
  onsets_sorted : ∀ args, (lib.onsetDetect args).Pairwise (· < ·)
  onsets_lt : ∀ args, ∀ frame ∈ lib.onsetDetect args, frame < args.envelope.length
  framesToTime_eq : ∀ frame sr hop, lib.framesToTime frame sr hop = frame * hop / sr
  mel_cols : ∀ S sr bands fmax, (lib.melspectrogram S sr bands fmax).cols = S.cols
  powerToDb_cols : ∀ S, (lib.powerToDb S).cols = S.cols
  centroid_length : ∀ y sr hop,
    (lib.spectralCentroid y sr hop).length = (lib.stftMagnitude y 2048 hop).cols

/-- A mel spectrogram has the bands that were asked for, and `argsort` returns the indices in
the order of the entries, equal ones in any order. -/
structure Librosa.DocumentedBands [LinearOrder K] (lib : Librosa K) : Prop where
  mel_rows : ∀ S sr bands fmax, (lib.melspectrogram S sr bands fmax).rows = bands
  powerToDb_rows : ∀ S, (lib.powerToDb S).rows = S.rows
  argsort : ∀ ranked, IsArgsort ⊥ ranked (lib.argsort ranked)

namespace Sample

/-- Eight frames whose bands share a level, with onsets at the given frames and no tempo. -/
def hearing (onsets : List ℕ) (level : ℕ → ℚ) : Librosa ℚ where
  getDuration _ := 1
  load _ _ := ([1], 22050)
  beatTrack _ _ := .float 0
  lowpass _ _ _ y := y
  onsetStrength y _ _ := y
  onsetDetect args := onsets.filter fun frame => frame < args.envelope.length
  framesToTime frame sr hop := frame * hop / sr
  stftMagnitude _ _ _ := ⟨1, 8, fun _ frame => level frame⟩
  hannWindow _ := []
  melspectrogram S _ bands _ := ⟨bands, S.cols, fun _ frame => S.entry 0 frame⟩
  powerToDb S := S
  spectralCentroid _ _ _ := List.replicate 8 440
  demucs audio := (audio, audio)
  argsort := argsortInsertion ⊥
  log2 _ := 8
  exp2 x := x + 1
  log10 x := x
  sqrt x := x

theorem hearing_documented {onsets : List ℕ} (h : onsets.Pairwise (· < ·)) (level : ℕ → ℚ) :
    (hearing onsets level).Documented where
  onsets_sorted _ := h.sublist List.filter_sublist
  onsets_lt _ frame hf := by simpa using (List.mem_filter.mp hf).2
  framesToTime_eq _ _ _ := rfl
  mel_cols _ _ _ _ := rfl
  powerToDb_cols _ := rfl
  centroid_length _ _ _ := rfl

theorem hearing_documentedBands (onsets : List ℕ) (level : ℕ → ℚ) :
    (hearing onsets level).DocumentedBands where
  mel_rows _ _ _ _ := rfl
  powerToDb_rows _ := rfl
  argsort := isArgsort_argsortInsertion ⊥

end Sample

end Maps
