import BeatmapBackend.Maps.Lives

/-! How a map job ends when every attempt is delivered once: with one beatmap or none, and
never in silence. -/
namespace Maps
open Effects Wire Queues

theorem World.forall_job {K : Type} {w : World K} {p : Job ℕ (Json K) (Json K) → Bool}
    (h : w.shared.flows.all fun F => p F.root && F.children.all p) {ref : JobRef}
    {job : Job ℕ (Json K) (Json K)} (hjob : w.job? ref = some job) : p job = true := by
  obtain ⟨F, hF, hFjob⟩ := Option.bind_eq_some_iff.mp hjob
  obtain ⟨hroot, hchildren⟩ := Bool.and_eq_true_iff.mp
    (List.all_eq_true.mp h F (List.mem_of_getElem? hF))
  cases hc : ref.child with
  | none =>
    rw [hc] at hFjob
    exact Option.some.inj hFjob ▸ hroot
  | some n =>
    rw [hc] at hFjob
    exact List.all_eq_true.mp hchildren job (List.mem_of_getElem? hFjob)

def Role.queueName : Role → String
  | .stem => stemSeparationQueueName
  | .root => beatmapOrchestrationQueueName
  | .kick => kickOnsetQueueName
  | .melody => melodyExtractionQueueName

theorem Role.queueName_injective : Function.Injective Role.queueName := by
  intro role role' h
  cases role <;> cases role' <;> first | rfl | exact absurd h (by decide)

variable {K : Type} {cfg : Config}

def JobOf (w : World K) (j queueName : String) (job : Job ℕ (Json K) (Json K)) : Prop :=
  (∃ ref, w.job? ref = some job) ∧ job.spec.queueName = queueName ∧
    job.spec.data.field? "job_id" Json.str? = some j

theorem Placed.jobOf {w : World K} {q : Request} {j : String} {role : Role} {ref : JobRef}
    {job : Job ℕ (Json K) (Json K)} (hr : Placed cfg q j w.shared role ref)
    (hjob : w.job? ref = some job) : JobOf w j role.queueName job := by
  obtain ⟨hchild, F, hF, hflow⟩ := hr
  have hspec : F.spec.job? role.child = some job.spec := by
    rw [Flow.job?_spec, ← hchild, ← w.job?_eq ref hF, hjob]
    rfl
  refine ⟨⟨ref, hjob⟩, ?_⟩
  cases role with
  | stem =>
    rw [show F.spec = q.stemFlow cfg j from hflow] at hspec
    rw [← Option.some.inj hspec]
    exact ⟨rfl, rfl⟩
  | root | kick | melody =>
    obtain ⟨duration, bpm, hsong⟩ := hflow
    rw [hsong] at hspec
    rw [← Option.some.inj hspec]
    exact ⟨rfl, rfl⟩

variable [Field K] [LinearOrder K] [FloorRing K] {P : Librosa K → Prop}

/-- Its queue tells the role of a queue job. -/
theorem JobOf.placed {w : World K} (hs : Legit cfg P w.shared) {q : Request} {id : ObjectId}
    (hq : Created w.shared id.str q) (role : Role) {job : Job ℕ (Json K) (Json K)}
    (h : JobOf w id.str role.queueName job) :
    ∃ ref, w.job? ref = some job ∧ Placed cfg q id.str w.shared role ref := by
  obtain ⟨⟨ref, hjob⟩, hqueue, hdata⟩ := h
  obtain ⟨F, hF, hFjob⟩ := Option.bind_eq_some_iff.mp hjob
  obtain ⟨q', id', role', -, hq', hr⟩ := hs.owner hF hFjob
  obtain ⟨-, hqueue', hdata'⟩ := hr.jobOf hjob
  obtain rfl := Role.queueName_injective (hqueue.symm.trans hqueue')
  obtain rfl := ObjectId.str_injective (Option.some.inj (hdata.symm.trans hdata'))
  obtain rfl := hs.created_eq hq hq'
  exact ⟨ref, hjob, hr⟩

/-- When the orchestration job of a map job is over, there is one beatmap for a completed map
job and none for a failed one. -/
def OneBeatmap (cfg : Config) (Q : World K → Act K → Bool) : Prop :=
  ∀ acts w id d job, World.empty.runIf cfg Q acts = some w →
    w.shared.mapJobs.findOne id = some d →
    JobOf w id.str beatmapOrchestrationQueueName job → job.state.isOver = true →
    (d.status = .completed → ∃ b doc, (w.shared.beatmaps.select fun doc => doc.jobId = id.str) =
      [(b, doc)] ∧ d.beatmapId = some b.str) ∧
    (d.status = .failed → (w.shared.beatmaps.select fun doc => doc.jobId = id.str) = [])

/-- Attempts may raise at any operation, as long as none raises after its `insert_beatmap`. -/
theorem completed_one_beatmap (cfg : Config) :
    OneBeatmap (K := K) cfg (World.undisturbed { Rules.strict with givesUp := true }) := by
  intro acts w id d job hrun hd hjob hover
  have hsim := (Sim.empty (P := fun _ => True)).run_undisturbed Locked.empty
    (fun a _ => a.within_true) hrun
  obtain ⟨q, L, hreach, hL⟩ := hsim.lives id (by simp [hd])
  obtain ⟨d', hd', hstatus, hb, -⟩ := hL.doc
  obtain rfl := Option.some.inj (hd.symm.trans hd')
  obtain ⟨ref, href, hr⟩ := JobOf.placed hsim.legit.shared hL.created .root hjob
  obtain ⟨_, p, hjob', hp, hrel⟩ := hL.tracked _ _ hr
  obtain rfl := Option.some.inj (href.symm.trans hjob')
  obtain ⟨hcompleted, hfailed⟩ := Life.one_beatmap rfl rfl hreach hp (hrel.isOver.trans hover)
  constructor
  · intro hs
    obtain ⟨b, hmade, hbeatmap⟩ := hcompleted (hstatus ▸ hs)
    obtain ⟨e, he, rfl⟩ := List.map_eq_singleton_iff.mp (hL.made.trans hmade)
    exact ⟨e.1, e.2, he, hb.trans hbeatmap⟩
  · intro hs
    exact List.map_eq_nil_iff.mp (hL.made.trans (hfailed (hstatus ▸ hs)))

namespace Sample

def unavailable : Exc := ⟨.other "AutoReconnect", "connection closed"⟩

/-- Thread `i` stores a beatmap under `objectId n`, and cannot mark the job completed. -/
def storesOnly (i : ℕ) (n : Fin 16) : List (Act ℚ) :=
  [.start ⟨1, none⟩, .step i (.done (env n)), .step i (.done (env n)),
    .step i (.raised unavailable)]

def retry (i : ℕ) : List (Act ℚ) := [.finish i, .promote ⟨1, none⟩]

def ready : List (Act ℚ) := acts.take (acts.length - 5)

def storedTwice : List (Act ℚ) :=
  ready ++ storesOnly 4 2 ++ retry 4 ++ .start ⟨1, none⟩ ::
    List.replicate 3 (.step 5 (.done (env 3))) ++ [.finish 5]

def storedInVain : List (Act ℚ) :=
  ready ++ storesOnly 4 2 ++ retry 4 ++ storesOnly 5 3 ++ retry 5 ++ storesOnly 6 4 ++
    steps 6 1 ++ [.finish 6]

def ended (status : JobStatus) (songs : ℕ) (w : World ℚ) : Bool :=
  ((w.shared.mapJobs.findOne (objectId 1)).any fun d => d.status = status) &&
  ((w.job? ⟨1, none⟩).any fun job => job.state.isOver &&
    job.spec.queueName = beatmapOrchestrationQueueName &&
    job.spec.data.field? "job_id" Json.str? = some (objectId 1).str) &&
  (w.shared.beatmaps.select fun doc => doc.jobId = (objectId 1).str).length = songs

end Sample

open Sample in
theorem OneBeatmap.of_ended {Q : World ℚ → Act ℚ → Bool} {acts : List (Act ℚ)}
    {status : JobStatus} {songs : ℕ} (h : OneBeatmap {} Q)
    (hended : (World.empty.runIf {} Q acts).any (ended status songs) = true) :
    (status = .completed → songs = 1) ∧ (status = .failed → songs = 0) := by
  obtain ⟨w, hw, hw'⟩ := (Option.any_eq_true _ _).mp hended
  simp only [ended, Bool.and_eq_true, decide_eq_true_eq, Option.any_eq_true] at hw'
  obtain ⟨⟨⟨d, hd, rfl⟩, job, hjob, ⟨hover, hqueue⟩, hdata⟩, rfl⟩ := hw'
  obtain ⟨hcompleted, hfailed⟩ := h acts w _ d job hw hd ⟨⟨_, hjob⟩, hqueue, hdata⟩ hover
  constructor
  · intro hs
    obtain ⟨b, doc, he, -⟩ := hcompleted hs
    rw [he, List.length_singleton]
  · intro hs
    rw [hfailed hs, List.length_nil]

theorem completed_one_beatmap_sample :
    (World.empty.runIf {} (World.undisturbed { Rules.strict with givesUp := true })
      Sample.acts).any (Sample.ended .completed 1) = true ∧
    ∀ songs, (World.empty.runIf {} (World.undisturbed { Rules.strict with givesUp := true })
      Sample.acts).any (Sample.ended .completed songs) = true → songs = 1 :=
  ⟨by decide +kernel, fun _ h => ((completed_one_beatmap {}).of_ended h).1 rfl⟩

open Sample in
/-- An attempt that raises in `mark_job_completed` leaves its beatmap behind: the next one stores
another, and the last one fails the job. -/
theorem not_oneBeatmap :
    ¬ OneBeatmap {} (World.undisturbed (K := ℚ) { Rules.free with stalls := false }) ∧
    (World.empty.runIf {} (World.undisturbed { Rules.free with stalls := false })
      storedTwice).any (ended .completed 2) = true ∧
    (World.empty.runIf {} (World.undisturbed { Rules.free with stalls := false })
      storedInVain).any (ended .failed 3) = true := by
  have htwice : (World.empty.runIf {} (World.undisturbed { Rules.free with stalls := false })
      storedTwice).any (ended .completed 2) = true := by decide +kernel
  refine ⟨fun h => ?_, htwice, by decide +kernel⟩
  exact absurd ((h.of_ended htwice).1 rfl) (by decide)

/-- Where the queues hold nothing of a map job any more, a poll shows how it ended. Writes to the
database do not raise without effect where an attempt ends. -/
theorem not_stranded {acts : List (Act K)} {w : World K} {i : ℕ} {file : UploadFile}
    {laneCount : Option ℤ} {response : Json K} {j : String}
    (hrun : World.empty.runIf cfg (World.undisturbed .strict) acts = some w)
    (hreturned : w.threads[i]? = some ⟨.api file laneCount, .ret (.ok response)⟩)
    (hj : response.field? "job_id" Json.str? = some j)
    (hover : ∀ queueName job, JobOf w j queueName job → job.state.isOver = true) :
    ∃ out, getJobStatus w.shared j = .ok out ∧
      (out.status = .completed ∨ out.status = .failed) ∧
      (out.status = .completed ↔ ∃ job value, JobOf w j beatmapOrchestrationQueueName job ∧
        job.state = .completed value) := by
  have hsim := (Sim.empty (P := fun _ => True)).run_undisturbed Locked.empty
    (fun a _ => a.within_true) hrun
  obtain ⟨st, hcreating, hfollows⟩ := hsim.requests i ⟨file, laneCount⟩ _ hreturned
  obtain ⟨j', rfl, rfl⟩ : ∃ j', st = .enqueued j' ∧
      response = MapJobCreateResponse.modelDump ⟨j', .queued⟩ := Follows.ret_iff.mp hfollows
  obtain rfl : j' = j := Option.some.inj hj
  obtain ⟨F, hF, hspec⟩ := hcreating
  obtain ⟨n, hn⟩ := List.getElem?_of_mem hF
  obtain ⟨q, id, role, hdoc, hq, hr⟩ : ∃ q id role, w.shared.mapJobs.findOne id ≠ none ∧
      Created w.shared id.str q ∧ Placed cfg q id.str w.shared role ⟨n, none⟩ :=
    hsim.legit.shared.owner hn (show F.job? none = some F.root from rfl)
  obtain ⟨rfl, rfl⟩ : j' = id.str ∧ role = .stem := by
    obtain ⟨-, F', hF', hflow⟩ := hr
    obtain rfl := Option.some.inj (hn.symm.trans hF')
    obtain ⟨hid, hstem⟩ :=
      (show FlowOf cfg ⟨file, laneCount⟩ j' .stem F.spec from hspec).inj hflow
    exact ⟨hid, hstem.mp rfl⟩
  obtain ⟨q', L, hreach, hL⟩ := hsim.lives id hdoc
  obtain rfl := hsim.legit.shared.created_eq hq hL.created
  have hphase : L.phase .stem ≠ none := by
    obtain ⟨_, p, -, hp, -⟩ := hL.tracked _ _ hr
    simp [hp]
  have hquiet : L.Quiet := by
    intro role p hp
    obtain ⟨ref, hr⟩ := hL.placed role (by simp [hp])
    obtain ⟨job, p', hjob, hp', hrel⟩ := hL.tracked role ref hr
    obtain rfl := Option.some.inj (hp.symm.trans hp')
    exact hrel.isOver.trans (hover _ job (hr.jobOf hjob))
  obtain ⟨hended, hcompleted⟩ := Life.settled rfl hreach hphase hquiet
  obtain ⟨d, hd, hstatus, -⟩ := hL.doc
  refine ⟨⟨id.str, d.status, d.beatmapId, d.error⟩, by simp [getJobStatus, findMapJob, hd],
    hstatus ▸ hended, ?_⟩
  show d.status = .completed ↔ _
  rw [hstatus, hcompleted]
  constructor
  · intro hp
    obtain ⟨ref, hr⟩ := hL.placed .root (by simp [hp])
    obtain ⟨job, p', hjob, hp', hrel⟩ := hL.tracked .root ref hr
    obtain rfl := Option.some.inj (hp.symm.trans hp')
    obtain ⟨value, hvalue⟩ := hrel
    exact ⟨job, value, hr.jobOf hjob, hvalue⟩
  · rintro ⟨job, value, hjob, hvalue⟩
    obtain ⟨ref, href, hr⟩ := JobOf.placed hsim.legit.shared hL.created .root hjob
    obtain ⟨job', p', hjob', hp', hrel⟩ := hL.tracked .root ref hr
    obtain rfl := Option.some.inj (href.symm.trans hjob')
    rw [hp', hrel.succeeded_of hvalue]

namespace Sample

def allOver (w : World ℚ) : Bool :=
  (match (w.threads[0]? : Option (Thread ℚ)) with
    | some ⟨.api f none, .ret (.ok response)⟩ =>
      f = file && response.field? "job_id" Json.str? = some (objectId 1).str
    | _ => false) &&
  w.shared.flows.all fun F => F.root.state.isOver && F.children.all fun job => job.state.isOver

end Sample

open Sample in
theorem not_stranded_sample : ∃ w,
    World.empty.runIf {} (World.undisturbed .strict) Sample.acts = some w ∧
    ∃ out, getJobStatus w.shared (objectId 1).str = .ok out ∧
      (out.status = .completed ∨ out.status = .failed) ∧
      (out.status = .completed ↔ ∃ job value,
        JobOf w (objectId 1).str beatmapOrchestrationQueueName job ∧
        job.state = .completed value) := by
  have hover : (World.empty.runIf {} (World.undisturbed .strict) Sample.acts).any
      allOver = true := by decide +kernel
  obtain ⟨w, hw, hover⟩ := (Option.any_eq_true _ _).mp hover
  obtain ⟨hanswered, hover⟩ := Bool.and_eq_true_iff.mp hover
  split at hanswered
  next f response hth =>
    obtain ⟨-, hj⟩ := Bool.and_eq_true_iff.mp hanswered
    exact ⟨w, hw, not_stranded hw hth (of_decide_eq_true hj) fun _ _ ⟨⟨_, hjob⟩, _⟩ =>
      World.forall_job (p := fun job => job.state.isOver) hover hjob⟩
  next => cases hanswered

end Maps
