import BeatmapBackend.Maps.Provenance
import Mathlib.Data.Rat.Floor

/-! Where a client's filename leads on a worker's disk. The filename goes unchanged from the
request through two queue payloads into the paths two handlers download to. -/
namespace Maps
open Effects Wire Queues Paths Program

/-- What `tempfile` makes of a prefix: eight random characters follow it. -/
def IsTempName (pre name : String) : Prop :=
  ∃ suffix : String, name = pre ++ suffix ∧ suffix.length = 8 ∧
    ∀ c ∈ suffix.toList, c ∈ "abcdefghijklmnopqrstuvwxyz0123456789_".toList

/-- A directory `tempfile.TemporaryDirectory(prefix=pre)` may create. -/
def IsTempDir (pre : String) (tmp : PurePath) : Prop :=
  ∃ base name, tmp = ⟨"/", base ++ [name]⟩ ∧ ".." ∉ base ∧ IsTempName pre name

def stemsPrefix : String := "mxxsicbeat-stems-"
def kickPrefix : String := "mxxsicbeat-kick-"

theorem IsTempName.ne_up {pre name : String} (h : IsTempName pre name) : name ≠ ".." := by
  obtain ⟨suffix, rfl, hlen, -⟩ := h
  intro he
  have htwo := congrArg String.length he
  rw [String.length_append, hlen, show "..".length = 2 from by decide] at htwo
  omega

/-- Joined onto every directory of one kind, a filename stays strictly inside exactly when
it is confined. -/
theorem join_tempDir_iff (pre f : String) :
    (∀ tmp, IsTempDir pre tmp → tmp.StrictlyInside (tmp.join f)) ↔ Confined f := by
  have hzeros : IsTempName pre (pre ++ "00000000") := ⟨_, rfl, by decide, by simp⟩
  have hones : IsTempName pre (pre ++ "11111111") := ⟨_, rfl, by decide, by simp⟩
  have hne : pre ++ "00000000" ≠ pre ++ "11111111" := by
    intro h
    rw [← String.toList_inj, String.toList_append, String.toList_append,
      List.append_cancel_left_eq] at h
    revert h
    decide
  have hparent (base : List String) (hbase : ".." ∉ base) :=
    PurePath.join_strictlyInside_iff "/" hbase (P := IsTempName pre)
      (fun _ => IsTempName.ne_up) hzeros hones hne f
  constructor
  · intro h
    apply (hparent ["tmp"] (by decide)).mp
    intro name hname
    exact h _ ⟨["tmp"], name, rfl, by decide, hname⟩
  · rintro hf tmp ⟨base, name, rfl, hbase, hname⟩
    exact (hparent base hbase).mpr hf name hname

section Programs

variable {K : Type}

variable {cfg : Config}

theorem create_addsFlow {file : UploadFile} {laneCount : Option ℤ} {flow : FlowSpec (Json K)} :
    (createMapJob cfg file laneCount).Performs (.addFlow flow) ↔
      validateRequest cfg file laneCount = .ok () ∧ ∃ j,
        flow = buildSeparateStemsJob cfg j (cfg.storage.originalKey j file.originalFilename)
          file.originalFilename (resolvedLaneCount cfg laneCount) := by
  simp only [createMapJob, performs_lift_bind, performs_perform_bind]
  constructor
  · intro h
    simp only [reduceCtorEq, false_or, exists_const, pure_eq, performs_ret, or_false,
      Eff.addFlow.injEq] at h
    obtain ⟨⟨⟩, hvalid, j, rfl⟩ := h
    exact ⟨hvalid, j, rfl⟩
  · rintro ⟨hvalid, j, rfl⟩
    exact ⟨(), hvalid, Or.inr ⟨[], Or.inr ⟨j, Or.inr ⟨(), Or.inr ⟨(), Or.inl rfl⟩⟩⟩⟩⟩

variable [Field K] [LinearOrder K] [FloorRing K] {job : JobView K}

theorem stem_downloads {p : SeparateStemsJobPayload} (hdata : job.data = p.modelDump)
    {key : String} {path : PurePath} :
    (StemHandler.call cfg job).Performs (.download key path) ↔
      key = p.objectKey ∧ path = stemAudioPath p := by
  rw [StemHandler.call, performs_handled (by simp), hdata]
  simp [StemHandler.process, performs_lift_bind, markProcessing, performs_perform_bind, eq_comm]

theorem stem_addsFlow {p : SeparateStemsJobPayload} (hdata : job.data = p.modelDump)
    {flow : FlowSpec (Json K)} (h : (StemHandler.call cfg job).Performs (.addFlow flow)) :
    ∃ duration bpm, flow = buildGenerateBeatmapFlow cfg p.jobId p.objectKey p.originalFilename
      p.laneCount duration bpm := by
  rw [StemHandler.call, performs_handled (by simp), hdata] at h
  simp only [StemHandler.process, SeparateStemsJobPayload.modelValidate_modelDump,
    lift_ok_bind, markProcessing, performs_perform_bind, performs_lift_bind] at h
  simp only [reduceCtorEq, false_or, exists_const, pure_eq, performs_ret, or_false,
    Eff.addFlow.injEq] at h
  obtain ⟨-, -, -, duration, bpm, -, -, -, -, -, rfl⟩ := h
  exact ⟨duration, bpm, rfl⟩

theorem kick_downloads {p : DetectKickOnsetsJobPayload} (hdata : job.data = p.modelDump)
    {key : String} {path : PurePath} :
    (KickHandler.call cfg job).Performs (.download key path) ↔
      (key = cfg.storage.drumKey p.jobId ∧ path = kickDrumStemPath) ∨
        (key = cfg.storage.originalKey p.jobId p.originalFilename ∧
          path = kickOriginalPath p) := by
  rw [KickHandler.call, performs_handled (by simp), hdata]
  simp [KickHandler.process, performs_lift_bind, performs_perform_bind, eq_comm]

end Programs

section Uploads

variable {K : Type} [Field K] [LinearOrder K] [FloorRing K]

/-- Wherever the scratch directory is created, every download of the program goes strictly
inside it. -/
def DownloadsInside (pre : String) (p : Prog K (Json K)) : Prop :=
  ∀ key path, p.Performs (.download key path) →
    ∀ tmp, IsTempDir pre tmp → tmp.StrictlyInside (tmp.joinPath path)

/-- Every attempt of the stem job that the request enqueues, and of the kick job that such an
attempt enqueues, downloads into its own scratch directory. -/
def UploadConfined (cfg : Config) (q : Request) : Prop :=
  ∀ flow : FlowSpec (Json K),
    (createMapJob cfg q.file q.laneCount).Performs (.addFlow flow) →
    ∀ job : JobView K, job.data = flow.root.data →
      DownloadsInside stemsPrefix (StemHandler.call cfg job) ∧
      ∀ song, (StemHandler.call cfg job).Performs (.addFlow song) →
        ∀ kick ∈ song.children, kick.queueName = kickOnsetQueueName →
          ∀ job' : JobView K, job'.data = kick.data →
            DownloadsInside kickPrefix (KickHandler.call cfg job')

private theorem scratch_inside_iff (pre f : String) :
    (∀ tmp, IsTempDir pre tmp → tmp.StrictlyInside (tmp.joinPath (scratch.join f))) ↔
      Confined f := by
  simp only [scratch, PurePath.joinPath_join]
  exact join_tempDir_iff pre f

theorem stem_downloadsInside_iff {cfg : Config} {job : JobView K} {p : SeparateStemsJobPayload}
    (hdata : job.data = p.modelDump) :
    DownloadsInside stemsPrefix (StemHandler.call cfg job) ↔ Confined p.originalFilename := by
  rw [← scratch_inside_iff stemsPrefix]
  constructor
  · intro h
    exact h _ _ ((stem_downloads hdata).mpr ⟨rfl, rfl⟩)
  · intro h key path hperforms
    obtain ⟨-, rfl⟩ := (stem_downloads hdata).mp hperforms
    exact h

/-- The name of the drum stem is fixed and confined. -/
theorem kick_downloadsInside_iff {cfg : Config} {job : JobView K}
    {p : DetectKickOnsetsJobPayload} (hdata : job.data = p.modelDump) :
    DownloadsInside kickPrefix (KickHandler.call cfg job) ↔ Confined p.originalFilename := by
  rw [← scratch_inside_iff kickPrefix]
  constructor
  · intro h
    exact h _ _ ((kick_downloads hdata).mpr (Or.inr ⟨rfl, rfl⟩))
  · intro h key path hperforms
    rcases (kick_downloads hdata).mp hperforms with ⟨-, rfl⟩ | ⟨-, rfl⟩
    · exact (scratch_inside_iff kickPrefix "drums.wav").mpr (by decide)
    · exact h

/-- An accepted upload is harmless exactly when its filename, split at slashes, is relative
and never climbs above its start. -/
theorem uploadConfined_iff {cfg : Config} {q : Request} {f : String}
    (hname : q.file.filename = some f) (hne : f ≠ "")
    (hvalid : validateRequest cfg q.file q.laneCount = .ok ()) :
    UploadConfined (K := K) cfg q ↔ Confined f := by
  have hf : q.file.originalFilename = f := by
    simp [UploadFile.originalFilename, hname, hne]
  constructor
  · intro h
    have hflow := (create_addsFlow (K := K)).mpr ⟨hvalid, "", rfl⟩
    have hstem := (h _ hflow ⟨⟨0, none⟩, "", _, none, 0⟩ rfl).1
    rw [← hf]
    exact (stem_downloadsInside_iff rfl).mp hstem
  · intro hconfined flow hflow job hdata
    obtain ⟨-, j, rfl⟩ := create_addsFlow.mp hflow
    rw [← hf] at hconfined
    refine ⟨(stem_downloadsInside_iff hdata).mpr hconfined, ?_⟩
    intro song hsong kick hkick hqueue job' hdata'
    obtain ⟨duration, bpm, rfl⟩ := stem_addsFlow hdata hsong
    rcases List.mem_cons.mp hkick with rfl | hkick
    · exact (kick_downloadsInside_iff hdata').mpr hconfined
    · obtain rfl := List.mem_singleton.mp hkick
      exact absurd hqueue (show melodyExtractionQueueName ≠ kickOnsetQueueName by decide)

def climbing : Request := ⟨⟨some "../../song.mp3", some "audio/mpeg", none, [7]⟩, none⟩

theorem not_uploadConfined_climbing : climbing.file.filename = some "../../song.mp3" ∧
    validateRequest {} climbing.file climbing.laneCount = .ok () ∧
    ¬ UploadConfined (K := ℚ) {} climbing := by
  refine ⟨rfl, by decide, ?_⟩
  intro h
  have hflow := (create_addsFlow (K := ℚ)).mpr
    ⟨show validateRequest {} climbing.file climbing.laneCount = .ok () by decide, "", rfl⟩
  have hstem := (h _ hflow ⟨⟨0, none⟩, "", _, none, 0⟩ rfl).1
  have hconfined := (stem_downloadsInside_iff rfl).mp hstem
  revert hconfined
  decide

theorem uploadConfined_iff_song : UploadConfined (K := ℚ) {}
    ⟨⟨some "song.mp3", some "audio/mpeg", none, [7]⟩, none⟩ ↔ Confined "song.mp3" :=
  uploadConfined_iff rfl (by decide) (by decide)

end Uploads

end Maps
