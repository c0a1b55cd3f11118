import BeatmapBackend.Maps.StorageKeys
import BeatmapBackend.Maps.World

/-! Where stored data comes from: every object, queue job and beatmap goes back to the
request that created its map job. `P` is what is assumed of the audio libraries. Only the
contents of objects depend on the storage keys being isolated. -/
namespace Maps
open Effects Wire Collections Queues Paths

structure Request where
  file : UploadFile
  laneCount : Option ℤ

namespace Request

def name (q : Request) : String := q.file.originalFilename
def lanes (cfg : Config) (q : Request) : ℤ := resolvedLaneCount cfg q.laneCount
def key (cfg : Config) (q : Request) (j : String) : String := cfg.storage.originalKey j q.name

variable {K : Type}

def task (q : Request) : Task K := .api q.file q.laneCount

def stemFlow (cfg : Config) (q : Request) (j : String) : FlowSpec (Json K) :=
  buildSeparateStemsJob cfg j (q.key cfg j) q.name (q.lanes cfg)

def songFlow (cfg : Config) (q : Request) (j : String) (duration bpm : ℤ) :
    FlowSpec (Json K) :=
  buildGenerateBeatmapFlow cfg j (q.key cfg j) q.name (q.lanes cfg) duration bpm

end Request

section Histories

variable {K : Type}

def CreatedBy (s : Shared K) (i : ℕ) (j : String) (q : Request) : Prop :=
  ∃ (n : NewMapJob) (r : Reply String Exc),
    (⟨i, q.task, .insertMapJob n, r⟩ : Event K) ∈ s.history ∧ r.applied = some j

def Created (s : Shared K) (j : String) (q : Request) : Prop := ∃ i, CreatedBy s i j q

/-- How the shared state may change while a thread is not looking. -/
structure Grows (s t : Shared K) : Prop where
  history : ∀ ev ∈ s.history, ev ∈ t.history
  docs : ∀ id d, s.mapJobs.findOne id = some d →
    ∃ d', t.mapJobs.findOne id = some d' ∧ (d.objectKey ≠ none → d'.objectKey ≠ none)
  objects : ∀ key, s.objects key ≠ none → t.objects key ≠ none
  beatmaps : ∀ id d, s.beatmaps.findOne id = some d → t.beatmaps.findOne id = some d
  flows : ∀ (n : ℕ) (F : PipelineFlow K), s.flows[n]? = some F →
    ∃ F', t.flows[n]? = some F' ∧ F'.spec = F.spec

theorem Grows.refl (s : Shared K) : Grows s s where
  history _ h := h
  docs _ d h := ⟨d, h, id⟩
  objects _ h := h
  beatmaps _ _ h := h
  flows _ F h := ⟨F, h, rfl⟩

theorem Grows.trans {s t u : Shared K} (h : Grows s t) (h' : Grows t u) : Grows s u where
  history ev hev := h'.history ev (h.history ev hev)
  docs id d hd := by
    obtain ⟨d₁, hd₁, hk₁⟩ := h.docs id d hd
    obtain ⟨d₂, hd₂, hk₂⟩ := h'.docs id d₁ hd₁
    exact ⟨d₂, hd₂, hk₂ ∘ hk₁⟩
  objects key hk := h'.objects key (h.objects key hk)
  beatmaps id d hd := h'.beatmaps id d (h.beatmaps id d hd)
  flows n F hF := by
    obtain ⟨F₁, hF₁, hs₁⟩ := h.flows n F hF
    obtain ⟨F₂, hF₂, hs₂⟩ := h'.flows n F₁ hF₁
    exact ⟨F₂, hF₂, hs₂.trans hs₁⟩

theorem CreatedBy.mono {s t : Shared K} {i : ℕ} {j : String} {q : Request}
    (h : CreatedBy s i j q) (hg : Grows s t) : CreatedBy t i j q := by
  obtain ⟨n, r, hev, hr⟩ := h
  exact ⟨n, r, hg.history _ hev, hr⟩

theorem Created.mono {s t : Shared K} {j : String} {q : Request} (h : Created s j q)
    (hg : Grows s t) : Created t j q := by
  obtain ⟨i, hi⟩ := h
  exact ⟨i, hi.mono hg⟩

def Keyed (s : Shared K) (j : String) : Prop :=
  ∃ id d, j = id.str ∧ s.mapJobs.findOne id = some d ∧ d.objectKey ≠ none

theorem Keyed.mono {s t : Shared K} {j : String} (h : Keyed s j) (hg : Grows s t) :
    Keyed t j := by
  obtain ⟨id, d, rfl, hd, hk⟩ := h
  obtain ⟨d', hd', hk'⟩ := hg.docs id d hd
  exact ⟨id, d', rfl, hd', hk' hk⟩

/-- What a reader of one `map_jobs` document relies on. -/
structure DocSound (s : Shared K) (id : ObjectId) (d : MapJobDoc) : Prop where
  completed : d.status = .completed → d.beatmapId ≠ none
  beatmap : ∀ b, d.beatmapId = some b →
    ∃ bid doc, b = bid.str ∧ s.beatmaps.findOne bid = some doc ∧ doc.jobId = id.str
  failed : d.status = .failed → d.error ≠ none
  queued : d.status = .queued → d.beatmapId = none ∧ d.error = none

theorem DocSound.mono {s t : Shared K} {id : ObjectId} {d : MapJobDoc} (h : DocSound s id d)
    (hg : Grows s t) : DocSound t id d where
  completed := h.completed
  failed := h.failed
  queued := h.queued
  beatmap b hb := by
    obtain ⟨bid, doc, hbid, hdoc, hj⟩ := h.beatmap b hb
    exact ⟨bid, doc, hbid, hg.beatmaps bid doc hdoc, hj⟩

end Histories

/-- The file `wav` the handler finds after demucs separated `audio`. -/
def stemFile {K : Type} (lib : Librosa K) (filename : String) (audio : Bytes) (wav : String) :
    Except Exc Bytes :=
  let path := scratch.join filename
  ((Files.empty.write path audio).separate path (lib.demucs audio)).read ((stemDir path).join wav)

section Made

variable {K : Type} [Field K] [LinearOrder K] [FloorRing K]
variable (cfg : Config) (P : Librosa K → Prop)

def Separated (q : Request) (wav : String) (body : Bytes) : Prop :=
  ∃ lib audio, P lib ∧ stemFile lib q.name audio wav = .ok body ∧
    (cfg.storage.Isolated → audio = q.file.body)

def Measured (q : Request) (duration bpm : ℤ) : Prop :=
  ∃ lib lib' audio, P lib ∧ P lib' ∧ duration = trackDuration lib audio ∧
    detectBpm lib' audio = .ok bpm ∧ (cfg.storage.Isolated → audio = q.file.body)

/-- The kick notes an attempt may compute from the two files it downloaded. -/
def KickRun (filename : String) (laneCount : ℤ) (drumStem original : Bytes)
    (notes : List (Note K)) : Prop :=
  let originalPath := scratch.join filename
  let files := (Files.empty.write kickDrumStemPath drumStem).write originalPath original
  ∃ lib drums mix, P lib ∧ files.read kickDrumStemPath = .ok drums ∧
    files.read originalPath = .ok mix ∧
    ((hasSignificantDrumEnergy lib drums mix = false ∧ notes = []) ∨
      hasSignificantDrumEnergy lib drums mix = true ∧ ∃ lib', P lib' ∧
        buildDrumNotes (detectKickOnsets lib' drums).1 (detectKickOnsets lib' drums).2 laneCount =
          .ok notes)

def KickNotes (q : Request) (notes : List (Note K)) : Prop :=
  ∃ drumStem original, KickRun P q.name (q.lanes cfg) drumStem original notes ∧
    (cfg.storage.Isolated → Separated cfg P q "drums.wav" drumStem ∧ original = q.file.body)

def MelodyNotes (q : Request) (bpm : ℤ) (notes : List (Note K)) : Prop :=
  ∃ melodyStem lib lib', P lib ∧ P lib' ∧
    buildMelodyNotes lib' (lib.load melodyStem none).1 (lib.load melodyStem none).2 bpm
      (q.lanes cfg) = .ok notes ∧
    (cfg.storage.Isolated → Separated cfg P q "no_drums.wav" melodyStem)

def BeatmapMade (s : Shared K) (b : NewBeatmap K) : Prop :=
  ∃ q duration bpm kick melody, Created s b.jobId q ∧ Measured cfg P q duration bpm ∧
    KickNotes cfg P q kick ∧ MelodyNotes cfg P q bpm melody ∧
    b = BeatmapHandler.newBeatmap
      ⟨b.jobId, q.key cfg b.jobId, q.name, q.lanes cfg, duration, bpm⟩ (⟨kick⟩, ⟨melody⟩)

/-- An upload is the original by its creator, or a stem by a stem worker of the job. -/
def UploadMade (s : Shared K) (i : ℕ) (task : Task K) (key : String) (body : Bytes) : Prop :=
  (∃ j q, task = q.task ∧ CreatedBy s i j q ∧ key = q.key cfg j ∧ body = q.file.body) ∨
  ∃ job j q, task = .worker job ∧ job.queueName = stemSeparationQueueName ∧ Created s j q ∧
    job.data = (q.stemFlow cfg j).root.data ∧
    ((key = cfg.storage.drumKey j ∧ Separated cfg P q "drums.wav" body) ∨
      (key = cfg.storage.melodyKey j ∧ Separated cfg P q "no_drums.wav" body))

/-- A completed child holds notes of its request. -/
def ResultMade (q : Request) (bpm : ℤ) : ℕ → Json K → Prop
  | 0, v => ∃ notes, v = KickDetectionResult.modelDump ⟨notes⟩ ∧ KickNotes cfg P q notes
  | _, v => ∃ notes, v = MelodyExtractionResult.modelDump ⟨notes⟩ ∧
      MelodyNotes cfg P q bpm notes

/-- One of the two builders made `spec` for a created job whose files exist, and `value?`
holds the results of its children. -/
def FlowMade (s : Shared K) (spec : FlowSpec (Json K)) (value? : ℕ → Option (Json K)) : Prop :=
  ∃ j q, Created s j q ∧ Keyed s j ∧ s.objects (q.key cfg j) ≠ none ∧
    (spec = q.stemFlow cfg j ∨ ∃ duration bpm, spec = q.songFlow cfg j duration bpm ∧
      Measured cfg P q duration bpm ∧ s.objects (cfg.storage.drumKey j) ≠ none ∧
      s.objects (cfg.storage.melodyKey j) ≠ none ∧
      ∀ i v, value? i = some v → ResultMade cfg P q bpm i v)

/-- A download reads a key of the job it works for, in the role of its queue. -/
def ReadMade (s : Shared K) (task : Task K) (key : String) : Prop :=
  ∃ job j q, task = .worker job ∧ Created s j q ∧ job.data.get? "job_id" = some (.str j) ∧
    ((job.queueName = stemSeparationQueueName ∧ key = q.key cfg j) ∨
      (job.queueName = kickOnsetQueueName ∧
        (key = q.key cfg j ∨ key = cfg.storage.drumKey j)) ∨
      (job.queueName = melodyExtractionQueueName ∧ key = cfg.storage.melodyKey j))

structure Legit (s : Shared K) : Prop where
  docs : ∀ id d, s.mapJobs.findOne id = some d → DocSound s id d
  docs_created : ∀ id d, s.mapJobs.findOne id = some d → ∃ q, Created s id.str q ∧
    d.originalFilename = q.name ∧ d.laneCount = q.lanes cfg ∧
    (d.objectKey = none ∨ d.objectKey = some (q.key cfg id.str))
  created_doc : ∀ j q, Created s j q → validateRequest cfg q.file q.laneCount = .ok () ∧
    ∃ id, j = id.str ∧ s.mapJobs.findOne id ≠ none
  created_unique : ∀ i i' j q q', CreatedBy s i j q → CreatedBy s i' j q' → i = i' ∧ q = q'
  uploads : ∀ i task key body (r : Reply Unit Exc),
    (⟨i, task, .upload key body, r⟩ : Event K) ∈ s.history → UploadMade cfg P s i task key body
  objects : ∀ key body, s.objects key = some body → ∃ i task, ∃ r : Reply Unit Exc,
    (⟨i, task, .upload key body, r⟩ : Event K) ∈ s.history ∧ r.applied = some ()
  downloads : ∀ i task key path (r : Reply Bytes Exc),
    (⟨i, task, .download key path, r⟩ : Event K) ∈ s.history → ReadMade cfg s task key
  flows : ∀ F ∈ s.flows, FlowMade cfg P s F.spec F.value?
  beatmaps : ∀ id d, s.beatmaps.findOne id = some d →
    ∃ b now, BeatmapMade cfg P s b ∧ d = b.document now

end Made

section Mono

variable {K : Type} [Field K] [LinearOrder K] [FloorRing K]
variable {cfg : Config} {P : Librosa K → Prop} {s t : Shared K}

theorem BeatmapMade.mono {b : NewBeatmap K} (h : BeatmapMade cfg P s b) (hg : Grows s t) :
    BeatmapMade cfg P t b := by
  obtain ⟨q, duration, bpm, kick, melody, hq, hrest⟩ := h
  exact ⟨q, duration, bpm, kick, melody, hq.mono hg, hrest⟩

omit [LinearOrder K] [FloorRing K] [Field K] in
theorem UploadMade.mono {i : ℕ} {task : Task K} {key : String} {body : Bytes}
    (h : UploadMade cfg P s i task key body) (hg : Grows s t) :
    UploadMade cfg P t i task key body := by
  rcases h with ⟨j, q, htask, hq, hrest⟩ | ⟨job, j, q, htask, hqueue, hq, hrest⟩
  · exact Or.inl ⟨j, q, htask, hq.mono hg, hrest⟩
  · exact Or.inr ⟨job, j, q, htask, hqueue, hq.mono hg, hrest⟩

omit [LinearOrder K] [FloorRing K] [Field K] in
theorem ReadMade.mono {task : Task K} {key : String} (h : ReadMade cfg s task key)
    (hg : Grows s t) : ReadMade cfg t task key := by
  obtain ⟨job, j, q, htask, hq, hrest⟩ := h
  exact ⟨job, j, q, htask, hq.mono hg, hrest⟩

theorem FlowMade.mono {spec : FlowSpec (Json K)} {value? value?' : ℕ → Option (Json K)}
    (h : FlowMade cfg P s spec value?) (hg : Grows s t)
    (hv : ∀ i v, value?' i = some v → value? i = some v) : FlowMade cfg P t spec value?' := by
  obtain ⟨j, q, hq, hkeyed, horig, hspec⟩ := h
  refine ⟨j, q, hq.mono hg, hkeyed.mono hg, hg.objects _ horig, ?_⟩
  rcases hspec with hstem | ⟨duration, bpm, hsong, hm, hdrum, hmelody, hres⟩
  · exact Or.inl hstem
  · exact Or.inr ⟨duration, bpm, hsong, hm, hg.objects _ hdrum, hg.objects _ hmelody,
      fun i v h => hres i v (hv i v h)⟩

end Mono
end Maps
