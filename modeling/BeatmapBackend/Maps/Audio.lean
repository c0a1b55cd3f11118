import BeatmapBackend.Maps.Exceptions
import BeatmapBackend.Maps.Librosa
import BeatmapBackend.Numerics.Rounding

/-! Track metadata, drum energy and kick onsets: what the workers measure on one audio
file or on one stem. -/
namespace Maps
open Numerics

variable {K : Type} [Field K] [LinearOrder K] [FloorRing K]

def trackDuration (lib : Librosa K) (audio : Bytes) : ℤ :=
  roundHalfEven (lib.getDuration audio * 1000)

/-- `tempo.item()`: a plain number has no such method. -/
def Tempo.item : Tempo K → Except Exc K
  | .float _ => .error ⟨.other "AttributeError", "'float' object has no attribute 'item'"⟩
  | .array [tempo] => .ok tempo
  | .array _ => .error ⟨.valueError, "can only convert an array of size 1 to a Python scalar"⟩

/-- The tempo is measured at the library's default rate. -/
def detectBpm (lib : Librosa K) (audio : Bytes) : Except Exc ℤ := do
  let (signal, sampleRate) := lib.load audio (some 22050)
  let tempo ← (lib.beatTrack signal sampleRate).item
  return roundHalfEven tempo

def minDrumToMixRmsRatio : K := 1 / 10

def rms (lib : Librosa K) (audio : Bytes) : K :=
  let (signal, _) := lib.load audio none
  if signal = [] then 0 else lib.sqrt (mean (signal.map fun x => x ^ 2))

def hasSignificantDrumEnergy (lib : Librosa K) (drumStem original : Bytes) : Bool :=
  let mixRms := rms lib original
  if mixRms ≤ 0 then false
  else decide (minDrumToMixRmsRatio ≤ rms lib drumStem / mixRms)

structure KickOnseter (K : Type) where
  sampleRate : ℕ
  cutoffHz : K
  hopLength : ℕ
  backtrack : Bool
  odf : Option (List K)
  frameRate : Option K

namespace KickOnseter

def new (sampleRate : ℕ) : KickOnseter K where
  sampleRate := sampleRate
  cutoffHz := 300
  hopLength := 512
  backtrack := false
  odf := none
  frameRate := none

def isolateKickBand (lib : Librosa K) (o : KickOnseter K) (signal : List K) : List K :=
  lib.lowpass 4 o.cutoffHz o.sampleRate signal

/-- The onset times, and the onseter that remembers the envelope they come from. -/
def detectOnsets (lib : Librosa K) (o : KickOnseter K) (signal : List K) :
    List K × KickOnseter K :=
  let odf := lib.onsetStrength (o.isolateKickBand lib signal) o.sampleRate o.hopLength
  let frames := lib.onsetDetect
    { envelope := odf, sr := o.sampleRate, hopLength := o.hopLength, backtrack := o.backtrack,
      normalize := true, delta := none, wait := none }
  (frames.map fun frame => lib.framesToTime frame o.sampleRate o.hopLength,
    { o with odf := some odf, frameRate := some ((o.sampleRate : K) / o.hopLength) })

def strengthAt (o : KickOnseter K) (onsetTime : K) : K :=
  match o.odf, o.frameRate with
  | some (x :: xs), some frameRate =>
    let odf := x :: xs
    let frame := max 0 (min (roundHalfEven (onsetTime * frameRate)) (odf.length - 1))
    let peak := amax x xs
    if peak ≤ 0 then 0 else clip (odf.getD frame.toNat 0 / peak) 0 1
  | _, _ => 0

theorem strengthAt_mem [IsStrictOrderedRing K] (o : KickOnseter K) (t : K) :
    0 ≤ o.strengthAt t ∧ o.strengthAt t ≤ 1 := by
  unfold strengthAt
  split
  · dsimp only
    split
    · exact ⟨le_rfl, zero_le_one⟩
    · exact ⟨le_clip zero_le_one, clip_le _ _ _⟩
  · exact ⟨le_rfl, zero_le_one⟩

end KickOnseter

def detectKickOnsets (lib : Librosa K) (drums : Bytes) : List K × KickOnseter K :=
  let (signal, sampleRate) := lib.load drums none
  (KickOnseter.new sampleRate).detectOnsets lib signal

end Maps
