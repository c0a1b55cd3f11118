import BeatmapBackend.Maps.Audio
import BeatmapBackend.Maps.Dtos
import BeatmapBackend.Maps.Exceptions

/-! The notes of a stem: onsets from the spectral novelty, their offsets from the decay of
the loudest bands, lanes from the spectral centroid and energies from the novelty. An
indexing or division error of the source is an error here. -/
namespace Maps
open Numerics

variable {K : Type} [Field K] [LinearOrder K] [FloorRing K]

def hopLength : ℕ := 512
def nFft : ℕ := 2048

def superfluxBandsPerOctave : K := 24
def superfluxFmin : K := 275 / 10
def superfluxFmax : K := 16000
def superfluxWindowRatio : K := 1 / 2

def onsetBaselineWindowS : K := 1 / 2
def onsetZThresh : K := 5 / 2
def onsetWaitS : K := 3 / 100
def onsetNormalizeQuantile : K := 999 / 1000
def onsetSilenceLevel : K := 1 / 10000
def onsetMinNovelty : K := 3

def offsetDecayDb : K := 15
def offsetMinDurS : K := 1 / 20
def offsetMaxDurS : K := 4
def offsetNMels : ℕ := 64
def offsetFmax : K := 8000
def offsetBandCount : ℕ := 5
def offsetBandWindow : ℕ := 3
def offsetBandFloorDb : K := 60

def indexError (message : String) : Exc := ⟨.indexError, message⟩
def valueError (message : String) : Exc := ⟨.valueError, message⟩

def floorDiv (a b : ℤ) : Except Exc ℤ :=
  if b = 0 then .error ⟨.zeroDivisionError, "integer division or modulo by zero"⟩
  else .ok (a.fdiv b)

def floorMod (a b : ℤ) : Except Exc ℤ :=
  if b = 0 then .error ⟨.zeroDivisionError, "integer modulo by zero"⟩ else .ok (a.fmod b)

def buildDrumNote (onseter : KickOnseter K) (laneCount : ℤ) (onsetTime : K) (index : ℕ) :
    Except Exc (Note K) := do
  return {
    time := roundHalfEven (onsetTime * 1000)
    lane := ← floorMod index laneCount
    energy := onseter.strengthAt onsetTime
    noteType := .drum
    combo := 1 }

def buildDrumNotes (onsetTimes : List K) (onseter : KickOnseter K) (laneCount : ℤ) :
    Except Exc (List (Note K)) :=
  onsetTimes.zipIdx.mapM fun (onsetTime, index) =>
    buildDrumNote onseter laneCount onsetTime index

/-- The center bins of the filters, distinct and strictly inside the spectrum. -/
def centerBins (lib : Librosa K) (sr nFft : ℕ) : List ℕ :=
  let fmax := min superfluxFmax ((sr : K) / 2)
  let bandCount := ⌊lib.log2 (fmax / superfluxFmin) * superfluxBandsPerOctave⌋ + 1
  let centers : List K := (List.range bandCount.toNat).map fun i =>
    superfluxFmin * lib.exp2 (i / superfluxBandsPerOctave)
  let bins : List ℤ := unique (centers.map fun center => roundHalfEven (center * nFft / sr : K))
  let nBins := nFft / 2 + 1
  (bins.filter fun bin => decide (0 < bin ∧ bin < (nBins : ℤ) - 1)).map Int.toNat

/-- One triangular filter: a ramp up to `center` and a ramp down from it. -/
def writeTriangle (filterbank : Grid K) (left center right band : ℕ) : Grid K :=
  (filterbank.setColumnSlice left (center + 1) band (linspace 0 1 (center - left + 1)))
    |>.setColumnSlice center (right + 1) band (linspace 1 0 (right - center + 1))

def quarterToneFilterbank (lib : Librosa K) (sr nFft : ℕ) : Grid K :=
  let bins := centerBins lib sr nFft
  let nBins := nFft / 2 + 1
  if bins.length < 3 then .zeros nBins 0
  else
    let triples := bins.zip ((bins.drop 1).zip (bins.drop 2))
    triples.zipIdx.foldl
      (fun filterbank ((left, center, right), band) =>
        writeTriangle filterbank left center right band)
      (.zeros nBins (bins.length - 2))

def frameLag (lib : Librosa K) (nFft hop : ℕ) : ℕ :=
  match (lib.hannWindow nFft).findIdx? fun w => decide (superfluxWindowRatio < w) with
  | none => 1
  | some above => max 1 ⌊((nFft : K) / 2 - above) / hop + 1 / 2⌋.toNat

/-- Spectral flux against an earlier frame widened over the neighbouring bands. -/
def superflux (lib : Librosa K) (S : Grid K) (sr hop : ℕ) : List K :=
  let nFft := 2 * (S.rows - 1)
  let filterbank := quarterToneFilterbank lib sr nFft
  if filterbank.cols = 0 then List.replicate S.cols 0
  else
    let spectrogram := (filterbank.transposeMul S).map fun x => lib.log10 (x + 1)
    let mu := frameLag lib nFft hop
    if spectrogram.cols ≤ mu then List.replicate S.cols 0
    else
      let filtered := maximumFilter3 spectrogram
      let flux := (List.range (spectrogram.cols - mu)).map fun t =>
        ((List.range spectrogram.rows).map fun band =>
          max (spectrogram.entry band (mu + t) - filtered.entry band t) 0).sum
      List.replicate mu 0 ++ flux

/-- `none` for a stem quieter than the silence level. -/
def normalizeLevel (y : List K) : Except Exc (Option (List K)) :=
  if y = [] then .error (indexError "index -1 is out of bounds for axis 0 with size 0")
  else
    let reference := quantile (y.map fun x => |x|) onsetNormalizeQuantile
    if reference < onsetSilenceLevel then .ok none
    else .ok (some (y.map fun x => x / reference))

def onsetThreshold (novelty : List K) (sr hop : ℕ) : List K :=
  let win := max 3 (roundHalfEven (onsetBaselineWindowS * sr / hop : K)).toNat
  let baseline := medianFilter 0 novelty win
  let mad := medianFilter 0 (List.zipWith (fun x b => |x - b|) novelty baseline) win
  List.zipWith (fun b m =>
    max (b + onsetZThresh * (m / (6745 / 10000) + 1 / 1000000)) onsetMinNovelty) baseline mad

/-- The envelope handed to the peak picker. -/
def onsetResidual (novelty : List K) (sr hop : ℕ) : List K :=
  List.zipWith (fun x t => max (x - t) 0) novelty (onsetThreshold novelty sr hop)

def pickOnsets (lib : Librosa K) (novelty : List K) (sr hop : ℕ) : List K :=
  let waitFrames := (roundHalfEven (onsetWaitS * sr / hop : K)).toNat
  let frames := lib.onsetDetect
    { envelope := onsetResidual novelty sr hop, sr := sr, hopLength := hop, backtrack := false,
      normalize := false, delta := some (1 / 1000000), wait := some waitFrames }
  frames.map fun frame => lib.framesToTime frame sr hop

/-- The bands whose level rises most at `startFrame`, among those near the loudest one. -/
def selectBands (lib : Librosa K) (melDb : Grid K) (startFrame : ℕ) : Except Exc (List ℕ) :=
  let level (start stop : ℕ) : List K :=
    (List.range melDb.rows).map fun band => mean (melDb.rowSlice band start stop)
  let post := level startFrame (min (startFrame + offsetBandWindow) melDb.cols)
  let preStart := startFrame - offsetBandWindow
  let rise := if preStart < startFrame then
      List.zipWith (fun a b => a - b) post (level preStart startFrame)
    else post
  match post with
  | [] => .error (valueError "zero-size array to reduction operation maximum")
  | x :: xs =>
    let ranked := List.zipWith
      (fun p r => if amax x xs - offsetBandFloorDb ≤ p then (r : WithBot K) else ⊥) post rise
    let order := lib.argsort ranked
    .ok (order.drop (order.length - offsetBandCount))

/-- Where the note that starts at `tOn` ends, capped at `hardCap`. -/
def estimateOffset (lib : Librosa K) (melDb : Grid K) (times : List K) (tOn hardCap : K) :
    Except Exc K := do
  let startFrame := min (searchsortedLeft times tOn) (times.length - 1)
  let capFrame := min (searchsortedLeft times hardCap) (times.length - 1)
  let bands ← selectBands lib melDb startFrame
  if ∃ band ∈ bands, melDb.rows ≤ band then
    throw (indexError "index is out of bounds for axis 0")
  let stop := min (max capFrame (startFrame + 1)) melDb.cols
  let profile := (List.range (stop - startFrame)).map fun k =>
    mean (bands.map fun band => melDb.entry band (startFrame + k))
  match profile with
  | [] => throw (indexError "index 0 is out of bounds for axis 0 with size 0")
  | first :: _ =>
    let endTime ← match profile.findIdx? fun level => decide (level < first - offsetDecayDb) with
      | none => pure hardCap
      | some decayed =>
        match times[startFrame + decayed]? with
        | none => throw (indexError "index is out of bounds for axis 0")
        | some decayTime => pure (max decayTime (tOn + offsetMinDurS))
    return min endTime hardCap

def estimateOffsets (lib : Librosa K) (S : Grid K) (sr : ℕ) (onsetTimes : List K) (hop : ℕ) :
    Except Exc (List K) :=
  let mel := lib.melspectrogram (S.map fun x => x ^ 2) sr offsetNMels offsetFmax
  let melDb := lib.powerToDb mel
  let times := (List.range melDb.cols).map fun frame => lib.framesToTime frame sr hop
  onsetTimes.zipIdx.mapM fun (tOn, i) =>
    match times.getLast? with
    | none => throw (indexError "index -1 is out of bounds for axis 0 with size 0")
    | some last =>
      let nextOnset := onsetTimes.getD (i + 1) last
      estimateOffset lib melDb times tOn (min (min (tOn + offsetMaxDurS) nextOnset) last)

def onsetStrengths (flux : List K) (sr : ℕ) (onsetTimes : List K) (hop : ℕ) : List K :=
  match flux with
  | [] => onsetTimes.map fun _ => 0
  | x :: xs =>
    let peak := amax x xs
    if peak ≤ 0 then onsetTimes.map fun _ => 0
    else onsetTimes.map fun t =>
      let frame : ℤ := clip (roundHalfEven (t * sr / hop : K)) 0 (flux.length - 1)
      clip (flux.getD frame.toNat 0 / peak) 0 1

def noteCentroid (cent times : List K) (tOn tOff : K) : Except Exc K :=
  let masked := (List.zip times cent).filter fun (t, _) =>
    tOn ≤ t ∧ t < max tOff (tOn + 1 / 20)
  if masked ≠ [] then .ok (mean (masked.map Prod.snd))
  else
    match cent[min (searchsortedLeft times tOn) (cent.length - 1)]? with
    | none => .error (indexError "index -1 is out of bounds for axis 0 with size 0")
    | some c => .ok c

/-- Inner quantile edges spread the notes over the lanes. The source also lowers the first edge,
which is not an inner one. -/
def centroidLanes (centroids : List K) (laneCount : ℤ) : Except Exc (List ℕ) :=
  if laneCount + 1 < 0 then
    .error (valueError ("Number of samples, " ++ toString (laneCount + 1) ++
      ", must be non-negative."))
  else if laneCount + 1 = 0 ∨ centroids = [] then
    .error (indexError "index 0 is out of bounds for axis 0 with size 0")
  else
    let edges := (linspace 0 1 (laneCount + 1).toNat).map fun q => quantile centroids q
    let inner := (edges.drop 1).dropLast
    .ok (centroids.map fun c => digitize c inner)

def spectralCentroidLanes (lib : Librosa K) (y : List K) (sr : ℕ)
    (onsetTimes offsets : List K) (laneCount : ℤ) (hop : ℕ) : Except Exc (List ℕ) := do
  let cent := lib.spectralCentroid y sr hop
  let times := (List.range cent.length).map fun frame => lib.framesToTime frame sr hop
  if onsetTimes.length ≠ offsets.length then
    throw (valueError "zip() argument 2 has another length than argument 1")
  let centroids ← (onsetTimes.zip offsets).mapM fun (tOn, tOff) =>
    noteCentroid cent times tOn tOff
  centroidLanes centroids laneCount

def calculateMelodyCombo (duration bpm : ℤ) : Except Exc ℤ := do
  let beats ← floorDiv duration bpm
  return max 1 beats

def buildMelodyNote (onsetTime offset : K) (lane : ℕ) (energy : K) (bpm : ℤ) :
    Except Exc (Note K) := do
  let duration := roundHalfEven ((offset - onsetTime) * 1000)
  return {
    time := roundHalfEven (onsetTime * 1000)
    duration := some duration
    lane := lane
    energy := energy
    noteType := .melody
    combo := ← calculateMelodyCombo duration bpm }

def buildMelodyNotes (lib : Librosa K) (y : List K) (sr : ℕ) (bpm laneCount : ℤ) :
    Except Exc (List (Note K)) := do
  let some signal ← normalizeLevel y | return []
  let S := lib.stftMagnitude signal nFft hopLength
  let flux := superflux lib S sr hopLength
  let onsetTimes := pickOnsets lib flux sr hopLength
  if onsetTimes = [] then return []
  let offsets ← estimateOffsets lib S sr onsetTimes hopLength
  let lanes ← spectralCentroidLanes lib signal sr onsetTimes offsets laneCount hopLength
  let energies := onsetStrengths flux sr onsetTimes hopLength
  if offsets.length ≠ onsetTimes.length ∨ lanes.length ≠ onsetTimes.length ∨
      energies.length ≠ onsetTimes.length then
    throw (valueError "zip() arguments have different lengths")
  (onsetTimes.zip (offsets.zip (lanes.zip energies))).mapM fun (onset, offset, lane, energy) =>
    buildMelodyNote onset offset lane energy bpm

end Maps
