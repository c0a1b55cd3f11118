import BeatmapBackend.Maps.Contract
import BeatmapBackend.Maps.Children

/-! Every handler and every API call keeps the contract, in any state the other threads
may reach, and a child's result is made of notes of its own job. -/
namespace Maps
open Effects Wire Collections Queues Paths Program

variable {K : Type}

/-- The facts about one map job that never stop being true. -/
structure Ready (cfg : Config) (s : Shared K) (j : String) (q : Request) : Prop where
  created : Created s j q
  keyed : Keyed s j
  original : s.objects (q.key cfg j) ≠ none

theorem Ready.mono {cfg : Config} {s t : Shared K} {j : String} {q : Request}
    (h : Ready cfg s j q) (hg : Grows s t) : Ready cfg t j q :=
  ⟨h.created.mono hg, h.keyed.mono hg, hg.objects _ h.original⟩

section Payloads

variable [Ring K] [LinearOrder K] [FloorRing K]

theorem songFlow_inj {cfg : Config} {q q' : Request} {j j' : String} {d d' b b' : ℤ}
    (h : (q.songFlow cfg j d b : FlowSpec (Json K)) = q'.songFlow cfg j' d' b') :
    j = j' ∧ d = d' ∧ b = b' := by
  have hdata := congrArg (fun spec => OrchestrateBeatmapJobPayload.modelValidate spec.root.data) h
  simp only [Request.songFlow, buildGenerateBeatmapFlow,
    OrchestrateBeatmapJobPayload.modelValidate_modelDump, Except.ok.injEq,
    OrchestrateBeatmapJobPayload.mk.injEq] at hdata
  exact ⟨hdata.1, hdata.2.2.2.2.1, hdata.2.2.2.2.2⟩

end Payloads

theorem stemFlow_ne_songFlow {cfg : Config} {q q' : Request} {j j' : String} {d b : ℤ} :
    (q.stemFlow cfg j : FlowSpec (Json K)) ≠ q'.songFlow cfg j' d b := by
  intro h
  have hq := congrArg (fun spec => spec.children.length) h
  simp [Request.stemFlow, Request.songFlow, buildSeparateStemsJob, buildGenerateBeatmapFlow] at hq

def Assigned (s : Shared K) : Task K → Prop
  | .api _ _ => True
  | .worker job => ∃ F : PipelineFlow K, s.flows[job.ref.flow]? = some F ∧
      ∃ spec, F.spec.job? job.ref.child = some spec ∧ spec.queueName = job.queueName ∧
        spec.data = job.data

theorem Assigned.mono {s t : Shared K} {task : Task K} (h : Assigned s task)
    (hg : Grows s t) : Assigned t task := by
  cases task with
  | api file laneCount => trivial
  | worker job =>
    obtain ⟨F, hF, spec, hjob, hrest⟩ := h
    obtain ⟨F', hF', hspec⟩ := hg.flows _ F hF
    exact ⟨F', hF', spec, hspec ▸ hjob, hrest⟩

variable [Field K] [LinearOrder K] [FloorRing K]
variable {cfg : Config} {P : Librosa K → Prop} {s : Shared K}

inductive Held (cfg : Config) (P : Librosa K → Prop) (s : Shared K) (j : String) (q : Request)
    (job : JobView K) : Prop where
  | stem (child : job.ref.child = none) (queue : job.queueName = stemSeparationQueueName)
      (data : job.data = (q.stemFlow cfg j).root.data)
  | song (duration bpm : ℤ) (F : PipelineFlow K) (at_ref : s.flows[job.ref.flow]? = some F)
      (spec : F.spec = q.songFlow cfg j duration bpm) (measured : Measured cfg P q duration bpm)
      (drum : s.objects (cfg.storage.drumKey j) ≠ none)
      (melody : s.objects (cfg.storage.melodyKey j) ≠ none)
      (place : job.ref.child = none ∧ job.queueName = beatmapOrchestrationQueueName ∧
          job.data = (q.songFlow cfg j duration bpm).root.data ∨
        job.ref.child = some 0 ∧ job.queueName = kickOnsetQueueName ∧ job.data =
          DetectKickOnsetsJobPayload.modelDump ⟨j, q.lanes cfg, q.key cfg j, q.name⟩ ∨
        job.ref.child = some 1 ∧ job.queueName = melodyExtractionQueueName ∧
          job.data = ExtractMelodyJobPayload.modelDump ⟨j, q.lanes cfg, bpm⟩)

theorem Legit.held (hs : Legit cfg P s) {job : JobView K} (h : Assigned s (.worker job)) :
    ∃ j q, Ready cfg s j q ∧ Held cfg P s j q job := by
  obtain ⟨F, hF, spec, hjob, hqueue, hdata⟩ := h
  obtain ⟨j, q, hq, hkeyed, horig, hcase⟩ := hs.flows F (List.mem_of_getElem? hF)
  refine ⟨j, q, ⟨hq, hkeyed, horig⟩, ?_⟩
  rcases hcase with hstem | ⟨duration, bpm, hsong, hm, hdrum, hmelody, -⟩
  · rw [hstem] at hjob
    cases hchild : job.ref.child with
    | none =>
      rw [hchild] at hjob
      obtain rfl := Option.some.inj hjob
      exact .stem hchild hqueue.symm hdata.symm
    | some i =>
      rw [hchild] at hjob
      simp [FlowSpec.job?, Request.stemFlow, buildSeparateStemsJob] at hjob
  · rw [hsong] at hjob
    refine .song duration bpm F hF hsong hm hdrum hmelody ?_
    rcases hchild : job.ref.child with _ | _ | _ | i <;> rw [hchild] at hjob
    · obtain rfl := Option.some.inj hjob
      exact Or.inl ⟨rfl, hqueue.symm, hdata.symm⟩
    · obtain rfl := Option.some.inj hjob
      exact Or.inr (Or.inl ⟨rfl, hqueue.symm, hdata.symm⟩)
    · obtain rfl := Option.some.inj hjob
      exact Or.inr (Or.inr ⟨rfl, hqueue.symm, hdata.symm⟩)
    · simp [FlowSpec.job?, Request.songFlow, buildGenerateBeatmapFlow] at hjob

def Result (cfg : Config) (P : Librosa K → Prop) (task : Task K) (v : Json K) (s : Shared K) :
    Prop :=
  ∀ job, task = .worker job → ∀ i, job.ref.child = some i →
    ∀ F : PipelineFlow K, s.flows[job.ref.flow]? = some F → ∀ j q duration bpm,
      F.spec = q.songFlow cfg j duration bpm → Created s j q → ResultMade cfg P q bpm i v

/-- `mark_failed` needs nothing, so an error path is safe in any state. -/
theorem handled_safe {i : ℕ} {task : Task K} {post : Json K → Shared K → Prop} {job : JobView K}
    {process : Prog K (Json K)} (hs : Legit cfg P s)
    (hp : Safe (contract cfg P i task) post process s) :
    Safe (contract cfg P i task) post (handled job process) s := by
  refine Safe.recover (contract_sound i task) hs hp fun x t _ _ => ?_
  split
  · refine Safe.lift_bind fun jobId _ => ?_
    exact Safe.perform_bind (contract_sound i task) (fun _ _ _ => trivial)
      fun _ _ _ _ _ _ _ _ => Safe.error
  · exact Safe.error

section Contents

variable {j : String} {q : Request} {body : Bytes}

/-- With isolated keys an object under a key of a job is what that role wrote for it. -/
theorem Legit.original_body (hs : Legit cfg P s) (hq : Created s j q)
    (hc : cfg.storage.Isolated) (h : s.objects (q.key cfg j) = some body) :
    body = q.file.body := by
  obtain ⟨-, id, rfl, -⟩ := hs.created_doc j q hq
  obtain ⟨i, task, r, hmem, -⟩ := hs.objects _ _ h
  rcases hs.uploads i task _ body r hmem with
    ⟨j', q', -, hq', hkey, rfl⟩ | ⟨job, j', q', -, -, hq', -, ⟨hkey, -⟩ | ⟨hkey, -⟩⟩
  · obtain ⟨-, id', rfl, -⟩ := hs.created_doc j' q' ⟨i, hq'⟩
    obtain ⟨rfl, -⟩ := MapsStorageConfig.originalKey_inj hkey
    rw [hs.created_eq hq ⟨i, hq'⟩]
  · obtain ⟨-, id', rfl, -⟩ := hs.created_doc j' q' hq'
    exact (hc.originalKey_ne_drumKey id id' _ hkey).elim
  · obtain ⟨-, id', rfl, -⟩ := hs.created_doc j' q' hq'
    exact (hc.originalKey_ne_melodyKey id id' _ hkey).elim

/-- A stem that is stored for a job was separated from its upload. -/
theorem Legit.separated (hs : Legit cfg P s) (hq : Created s j q) (hc : cfg.storage.Isolated)
    {key wav : String} (hkey : (key = cfg.storage.drumKey j ∧ wav = "drums.wav") ∨
      (key = cfg.storage.melodyKey j ∧ wav = "no_drums.wav"))
    (h : s.objects key = some body) : Separated cfg P q wav body := by
  obtain ⟨-, id, rfl, -⟩ := hs.created_doc j q hq
  obtain ⟨i, task, r, hmem, -⟩ := hs.objects _ _ h
  rcases hs.uploads i task _ body r hmem with
    ⟨j', q', -, hq', hk, -⟩ | ⟨job, j', q', -, -, hq', -, hk⟩
  · obtain ⟨-, id', rfl, -⟩ := hs.created_doc j' q' ⟨i, hq'⟩
    rcases hkey with ⟨rfl, -⟩ | ⟨rfl, -⟩
    · exact (hc.originalKey_ne_drumKey id' id _ hk.symm).elim
    · exact (hc.originalKey_ne_melodyKey id' id _ hk.symm).elim
  · obtain ⟨-, id', rfl, -⟩ := hs.created_doc j' q' hq'
    rcases hkey with ⟨rfl, rfl⟩ | ⟨rfl, rfl⟩ <;> rcases hk with ⟨hk, hsep⟩ | ⟨hk, hsep⟩
    · obtain rfl := MapsStorageConfig.drumKey_inj hk
      rwa [hs.created_eq hq hq']
    · exact (hc.drumKey_ne_melodyKey id id' hk).elim
    · exact (hc.drumKey_ne_melodyKey id' id hk.symm).elim
    · obtain rfl := MapsStorageConfig.melodyKey_inj hk
      rwa [hs.created_eq hq hq']

theorem Legit.drum_separated (hs : Legit cfg P s) (hq : Created s j q)
    (hc : cfg.storage.Isolated) (h : s.objects (cfg.storage.drumKey j) = some body) :
    Separated cfg P q "drums.wav" body :=
  hs.separated hq hc (Or.inl ⟨rfl, rfl⟩) h

theorem Legit.melody_separated (hs : Legit cfg P s) (hq : Created s j q)
    (hc : cfg.storage.Isolated) (h : s.objects (cfg.storage.melodyKey j) = some body) :
    Separated cfg P q "no_drums.wav" body :=
  hs.separated hq hc (Or.inr ⟨rfl, rfl⟩) h

end Contents

section Workers

variable {i : ℕ} {job : JobView K} {j : String} {q : Request}

private theorem answer_eq {task : Task K} {e : Eff K} {s u : Shared K} {a : Ans e}
    {f : Librosa K → Ans e} (h : (contract cfg P i task).step e s (.done a) u)
    (he : ∀ env : Env K, exec env s e = some (f env.lib, s)) : ∃ lib, P lib ∧ a = f lib := by
  obtain ⟨env, t, hP, ht, -⟩ := contract_done h
  rw [he] at ht
  exact ⟨env.lib, hP, (Prod.mk.inj (Option.some.inj ht)).1.symm⟩

private theorem answer_ok {task : Task K} {e : Eff K} {s u : Shared K} {a : Ans e}
    {f : Librosa K → Except Exc (Ans e)} (h : (contract cfg P i task).step e s (.done a) u)
    (he : ∀ env : Env K, exec env s e = (f env.lib).toOption.map fun a => (a, s)) :
    ∃ lib, P lib ∧ f lib = .ok a := by
  obtain ⟨env, t, hP, ht, -⟩ := contract_done h
  rw [he] at ht
  obtain ⟨b, hb, hbt⟩ := Option.map_eq_some_iff.mp ht
  obtain ⟨rfl, -⟩ := Prod.mk.inj hbt
  exact ⟨env.lib, hP, except_toOption_eq_some.mp hb⟩

private theorem download_eq {task : Task K} {key : String} {path : PurePath} {s u : Shared K}
    {a : Bytes} (h : (contract cfg P i task).step (.download key path) s (.done a) u) :
    s.objects key = some a := by
  obtain ⟨env, t, -, ht, -⟩ := contract_done h
  obtain ⟨body, hbody, he⟩ := Option.map_eq_some_iff.mp ht
  rw [hbody, (Prod.mk.inj he).1]

private theorem uploaded {task : Task K} {key : String} {body : Bytes} {s u : Shared K}
    {a : Unit} (h : (contract cfg P i task).step (.upload key body) s (.done a) u) :
    u.objects key ≠ none := by
  obtain ⟨env, t, -, ht, rfl⟩ := contract_done h
  obtain rfl := (Prod.mk.inj (Option.some.inj ht)).2
  simp [Shared.record]

theorem stemProcess_safe {post : Json K → Shared K → Prop} (h : Ready cfg s j q)
    (hpost : ∀ v t, post v t) (hqueue : job.queueName = stemSeparationQueueName)
    (hdata : job.data = (q.stemFlow cfg j).root.data) :
    Safe (contract cfg P i (.worker job)) post (StemHandler.process cfg job.data) s := by
  have hc : (contract cfg P i (.worker job)).Sound := contract_sound i (.worker job)
  have hid : job.data.get? "job_id" = some (.str j) := by rw [hdata]; rfl
  have hread {t : Shared K} (ht : Created t j q) : ReadMade cfg t (.worker job) (q.key cfg j) :=
    ⟨job, j, q, rfl, ht, hid, Or.inl ⟨hqueue, rfl⟩⟩
  have hstem {t : Shared K} {key : String} {body : Bytes} (ht : Created t j q)
      (hkey : key = cfg.storage.drumKey j ∧ Separated cfg P q "drums.wav" body ∨
        key = cfg.storage.melodyKey j ∧ Separated cfg P q "no_drums.wav" body) :
      UploadMade cfg P t i (.worker job) key body :=
    Or.inr ⟨job, j, q, rfl, hqueue, ht, hdata, hkey⟩
  rw [StemHandler.process, hdata]
  simp only [Request.stemFlow, buildSeparateStemsJob,
    SeparateStemsJobPayload.modelValidate_modelDump, lift_ok_bind, Files.read_write_self]
  refine Safe.perform_bind hc (fun _ _ _ => trivial) fun _ _ s₁ _ _ _ _ g₁ => ?_
  refine Safe.perform_bind hc (fun _ _ _ => trivial) fun _ _ s₂ _ _ _ _ g₂ => ?_
  replace h := h.mono (g₁.trans g₂)
  refine Safe.perform_bind hc
    (fun t _ g => ⟨(h.mono g).original, hread (h.mono g).created⟩)
    fun t audio s₃ ht hstep _ g g₃ => ?_
  have haudio : cfg.storage.Isolated → audio = q.file.body := fun hiso =>
    ht.original_body (h.mono g).created hiso (download_eq hstep)
  refine Safe.perform_bind hc (fun _ _ _ => trivial) fun _ duration s₄ _ hstep _ _ g₄ => ?_
  obtain ⟨lib₁, hP₁, hduration⟩ := answer_eq (f := fun lib => trackDuration lib audio) hstep
    fun _ => rfl
  refine Safe.perform_bind hc (fun _ _ _ => trivial) fun _ bpm s₅ _ hstep _ _ g₅ => ?_
  obtain ⟨lib₂, hP₂, hbpm⟩ := answer_ok (e := .detectBpm audio)
    (f := fun lib => detectBpm lib audio) hstep fun _ => rfl
  refine Safe.perform_bind hc (fun _ _ _ => trivial) fun _ stems s₆ _ hstep _ _ g₆ => ?_
  obtain ⟨lib, hP, hstems⟩ := answer_eq (f := fun lib => lib.demucs audio) hstep fun _ => rfl
  subst hstems
  replace h := h.mono (g₃.trans (g₄.trans (g₅.trans g₆)))
  refine Safe.lift_bind fun drumStem hdrum => ?_
  have hsep : Separated cfg P q "drums.wav" drumStem := ⟨lib, audio, hP, hdrum, haudio⟩
  refine Safe.perform_bind hc (fun t _ g => hstem (h.mono g).created (Or.inl ⟨rfl, hsep⟩))
    fun _ _ s₇ _ hup _ _ g₇ => ?_
  have hdrum₇ := uploaded hup
  refine Safe.lift_bind fun melodyStem hmelody => ?_
  have hsep' : Separated cfg P q "no_drums.wav" melodyStem := ⟨lib, audio, hP, hmelody, haudio⟩
  refine Safe.perform_bind hc
    (fun t _ g => hstem (h.mono (g₇.trans g)).created (Or.inr ⟨rfl, hsep'⟩))
    fun _ _ s₈ _ hup _ _ g₈ => ?_
  have hmelody₈ := uploaded hup
  replace h := h.mono (g₇.trans g₈)
  refine Safe.perform_bind hc (fun t _ g => ?_)
    fun _ _ _ _ _ _ _ _ => Safe.ok fun t _ _ => hpost _ t
  have ht := h.mono g
  exact ⟨j, q, ht.created, ht.keyed, ht.original, Or.inr ⟨_, _, rfl,
    ⟨lib₁, lib₂, audio, hP₁, hP₂, hduration, hbpm, haudio⟩, (g₈.trans g).objects _ hdrum₇,
    g.objects _ hmelody₈, nofun⟩⟩

theorem kickProcess_safe (h : Ready cfg s j q) (hdrum : s.objects (cfg.storage.drumKey j) ≠ none)
    (hqueue : job.queueName = kickOnsetQueueName) (hdata : job.data =
      DetectKickOnsetsJobPayload.modelDump ⟨j, q.lanes cfg, q.key cfg j, q.name⟩) :
    Safe (contract cfg P i (.worker job))
      (fun v _ => ∃ notes, v = KickDetectionResult.modelDump ⟨notes⟩ ∧ KickNotes cfg P q notes)
      (KickHandler.process cfg job.data) s := by
  have hc : (contract cfg P i (.worker job)).Sound := contract_sound i (.worker job)
  have hid : job.data.get? "job_id" = some (.str j) := by rw [hdata]; rfl
  have hread {t : Shared K} {key : String} (ht : Created t j q)
      (hkey : key = q.key cfg j ∨ key = cfg.storage.drumKey j) :
      ReadMade cfg t (.worker job) key :=
    ⟨job, j, q, rfl, ht, hid, Or.inr (Or.inl ⟨hqueue, hkey⟩)⟩
  rw [KickHandler.process, hdata]
  simp only [DetectKickOnsetsJobPayload.modelValidate_modelDump, lift_ok_bind]
  refine Safe.perform_bind hc (fun _ _ _ => trivial) fun _ _ s₁ _ _ _ _ g₁ => ?_
  replace h := h.mono g₁
  refine Safe.perform_bind hc
    (fun t _ g => ⟨(g₁.trans g).objects _ hdrum, hread (h.mono g).created (Or.inr rfl)⟩)
    fun t drumStem s₂ ht hstep _ g g₂ => ?_
  have hsep : cfg.storage.Isolated → Separated cfg P q "drums.wav" drumStem := fun hiso =>
    ht.drum_separated (h.mono g).created hiso (download_eq hstep)
  replace h := h.mono g₂
  refine Safe.perform_bind hc
    (fun t _ g => ⟨(h.mono g).original, hread (h.mono g).created (Or.inl rfl)⟩)
    fun t original s₃ ht hstep _ g g₃ => ?_
  have horig : cfg.storage.Isolated → original = q.file.body := fun hiso =>
    ht.original_body (h.mono g).created hiso (download_eq hstep)
  refine Safe.lift_bind fun drums hdrums => Safe.lift_bind fun mix hmix => ?_
  refine Safe.perform_bind hc (fun _ _ _ => trivial) fun _ significant s₄ _ hstep _ _ g₄ => ?_
  obtain ⟨lib, hP, hsig⟩ :=
    answer_eq (f := fun lib => hasSignificantDrumEnergy lib drums mix) hstep fun _ => rfl
  split
  next hyes =>
    refine Safe.perform_bind hc (fun _ _ _ => trivial) fun _ found s₅ _ hstep _ _ g₅ => ?_
    obtain ⟨lib', hP', hfound⟩ := answer_eq (f := fun lib => detectKickOnsets lib drums) hstep
      fun _ => rfl
    refine Safe.lift_bind fun notes hnotes => Safe.ok fun _ _ _ => ⟨notes, rfl, ?_⟩
    rw [hfound] at hnotes
    exact ⟨drumStem, original, ⟨lib, drums, mix, hP, hdrums, hmix,
      Or.inr ⟨hsig ▸ hyes, lib', hP', hnotes⟩⟩, fun hiso => ⟨hsep hiso, horig hiso⟩⟩
  next hno =>
    refine Safe.ok fun _ _ _ => ⟨[], rfl, drumStem, original, ⟨lib, drums, mix, hP, hdrums, hmix,
      Or.inl ⟨?_, rfl⟩⟩, fun hiso => ⟨hsep hiso, horig hiso⟩⟩
    rw [← hsig]
    exact Bool.eq_false_iff.mpr hno

theorem melodyProcess_safe {bpm : ℤ} (h : Ready cfg s j q)
    (hmelody : s.objects (cfg.storage.melodyKey j) ≠ none)
    (hqueue : job.queueName = melodyExtractionQueueName)
    (hdata : job.data = ExtractMelodyJobPayload.modelDump ⟨j, q.lanes cfg, bpm⟩) :
    Safe (contract cfg P i (.worker job))
      (fun v _ => ∃ notes, v = MelodyExtractionResult.modelDump ⟨notes⟩ ∧
        MelodyNotes cfg P q bpm notes)
      (MelodyHandler.process cfg job.data) s := by
  have hc : (contract cfg P i (.worker job)).Sound := contract_sound i (.worker job)
  have hid : job.data.get? "job_id" = some (.str j) := by rw [hdata]; rfl
  rw [MelodyHandler.process, hdata]
  simp only [ExtractMelodyJobPayload.modelValidate_modelDump, lift_ok_bind,
    Files.read_write_self]
  refine Safe.perform_bind hc (fun _ _ _ => trivial) fun _ _ s₁ _ _ _ _ g₁ => ?_
  replace h := h.mono g₁
  refine Safe.perform_bind hc
    (fun t _ g => ⟨(g₁.trans g).objects _ hmelody,
      ⟨job, j, q, rfl, (h.mono g).created, hid, Or.inr (Or.inr ⟨hqueue, rfl⟩)⟩⟩)
    fun t melodyStem s₂ ht hstep _ g g₂ => ?_
  have hsep : cfg.storage.Isolated → Separated cfg P q "no_drums.wav" melodyStem := fun hiso =>
    ht.melody_separated (h.mono g).created hiso (download_eq hstep)
  refine Safe.perform_bind hc (fun _ _ _ => trivial) fun _ loaded s₃ _ hstep _ _ g₃ => ?_
  obtain ⟨lib, hP, hloaded⟩ := answer_eq (f := fun lib => lib.load melodyStem none) hstep
    fun _ => rfl
  refine Safe.perform_bind hc (fun _ _ _ => trivial) fun t notes s₄ _ hstep _ _ g₄ => ?_
  obtain ⟨lib', hP', hnotes⟩ := answer_ok
    (e := .buildMelodyNotes loaded.1 loaded.2 bpm (q.lanes cfg))
    (f := fun lib => buildMelodyNotes lib loaded.1 loaded.2 bpm (q.lanes cfg)) hstep fun _ => rfl
  rw [hloaded] at hnotes
  exact Safe.ok fun _ _ _ => ⟨notes, rfl, melodyStem, lib, lib', hP, hP', hnotes, hsep⟩

theorem beatmapProcess_safe {post : Json K → Shared K → Prop} {duration bpm : ℤ}
    {F : PipelineFlow K} (h : Ready cfg s j q) (hpost : ∀ v t, post v t)
    (hF : s.flows[job.ref.flow]? = some F) (hspec : F.spec = q.songFlow cfg j duration bpm)
    (hm : Measured cfg P q duration bpm)
    (hdata : job.data = (q.songFlow cfg j duration bpm).root.data) :
    Safe (contract cfg P i (.worker job)) post
      (BeatmapHandler.process job.ref job.data) s := by
  have hc : (contract cfg P i (.worker job)).Sound := contract_sound i (.worker job)
  rw [BeatmapHandler.process, hdata]
  simp only [Request.songFlow, buildGenerateBeatmapFlow,
    OrchestrateBeatmapJobPayload.modelValidate_modelDump, lift_ok_bind]
  refine Safe.perform_bind hc (fun _ _ _ => trivial) fun t values s₁ ht hstep _ g g₁ => ?_
  obtain ⟨env, t', -, hexec, -⟩ := contract_done hstep
  obtain ⟨G, hG, -, hvalues⟩ := exec_getChildrenValues hexec
  obtain ⟨G', hG', hspec'⟩ := g.flows _ F hF
  obtain rfl : G' = G := by simpa [hG] using hG'.symm
  have hresult : ∀ n v, G'.value? n = some v → ResultMade cfg P q bpm n v := by
    obtain ⟨j', q', hq', -, -, hcase⟩ := ht.flows G' (List.mem_of_getElem? hG)
    rw [hspec', hspec] at hcase
    rcases hcase with hstem | ⟨d', b', hsong, -, -, -, hres⟩
    · exact (stemFlow_ne_songFlow hstem.symm).elim
    · obtain ⟨rfl, rfl, rfl⟩ := songFlow_inj hsong
      obtain ⟨a, ha⟩ := (h.mono g).created
      obtain ⟨b, hb⟩ := hq'
      obtain ⟨-, rfl⟩ := ht.created_unique _ _ _ _ _ ha hb
      exact hres
  obtain ⟨kick, melody, htwo⟩ := twoChildren (hspec'.trans hspec)
  refine Safe.lift_bind fun results hresults => ?_
  have hmade : KickNotes cfg P q results.1.notes ∧ MelodyNotes cfg P q bpm results.2.notes := by
    obtain ⟨k, m, hk, hmel, hkick, hmelody⟩ := childResults_eq_ok.mp hresults
    obtain ⟨kickNotes, rfl, hkn⟩ :=
      hresult 0 k (htwo.kick_of_childResult (fun x hx => (hvalues x).mp hx) hk)
    obtain ⟨melodyNotes, rfl, hmn⟩ :=
      hresult 1 m (htwo.melody_of_childResult (fun x hx => (hvalues x).mp hx) hmel)
    rw [KickDetectionResult.modelValidate_modelDump] at hkick
    rw [MelodyExtractionResult.modelValidate_modelDump] at hmelody
    rw [← Except.ok.inj hkick, ← Except.ok.inj hmelody]
    exact ⟨hkn, hmn⟩
  simp only [finalizeBeatmap, Program.bind_assoc]
  replace h := h.mono g₁
  refine Safe.perform_bind hc
    (fun t _ g => ⟨q, duration, bpm, results.1.notes, results.2.notes, (h.mono g).created, hm,
      hmade.1, hmade.2, rfl⟩) fun t bid s₂ _ hstep _ _ g₂ => ?_
  obtain ⟨env, t', -, hexec, rfl⟩ := contract_done hstep
  obtain ⟨c, hins, he⟩ := Option.map_eq_some_iff.mp hexec
  obtain ⟨rfl, rfl⟩ := Prod.mk.inj he
  have hdoc := Collection.findOne_insertOne hins env.newId
  rw [if_pos rfl] at hdoc
  exact Safe.perform_bind hc
    (fun t _ g => ⟨⟨q, ((h.mono g₂).mono g).created⟩, _, _, rfl, g.beatmaps _ _ hdoc, rfl⟩)
    fun _ _ _ _ _ _ _ _ => Safe.ok fun t _ _ => hpost _ t

/-- Whatever its job, a worker keeps the contract and returns a result of its own job. -/
theorem handlerOf_safe {p : Prog K (Json K)} (hs : Legit cfg P s)
    (ha : Assigned s (.worker job)) (hp : handlerOf cfg job = some p) :
    Safe (contract cfg P i (.worker job)) (Result cfg P (.worker job)) p s := by
  obtain ⟨j, q, h, hheld⟩ := hs.held ha
  have hroot (hchild : job.ref.child = none) (v : Json K) (t : Shared K) :
      Result cfg P (.worker job) v t := by
    rintro job' hjob n hn
    obtain rfl := Task.worker.inj hjob
    rw [hchild] at hn
    cases hn
  cases hheld with
  | stem hchild hqueue hdata =>
    simp only [handlerOf, hqueue, if_true] at hp
    obtain rfl := Option.some.inj hp
    exact handled_safe hs (stemProcess_safe h (hroot hchild) hqueue hdata)
  | song duration bpm F hF hspec hm hdrum hmelody hplace =>
    have hres {n : ℕ} {v : Json K} {t : Shared K} (hchild : job.ref.child = some n)
        (ht : Legit cfg P t) (hg : Grows s t) (hv : ResultMade cfg P q bpm n v) :
        Result cfg P (.worker job) v t := by
      rintro job' hjob n' hn' G hG j' q' d' b' hsong hq'
      obtain rfl := Task.worker.inj hjob
      obtain rfl : n = n' := by simpa [hchild] using hn'
      obtain ⟨G', hG', hspec'⟩ := hg.flows _ F hF
      obtain rfl : G' = G := by simpa [hG] using hG'.symm
      obtain ⟨rfl, rfl, rfl⟩ := songFlow_inj (hspec.symm.trans (hspec'.symm.trans hsong))
      obtain ⟨a, ha⟩ := h.created.mono hg
      obtain ⟨b, hb⟩ := hq'
      obtain ⟨-, rfl⟩ := ht.created_unique _ _ _ _ _ ha hb
      exact hv
    rcases hplace with ⟨hchild, hqueue, hdata⟩ | ⟨hchild, hqueue, hdata⟩ | ⟨hchild, hqueue, hdata⟩
    · simp only [handlerOf, hqueue] at hp
      obtain rfl := Option.some.inj hp
      exact handled_safe hs (beatmapProcess_safe h (hroot hchild) hF hspec hm hdata)
    · simp only [handlerOf, hqueue] at hp
      obtain rfl := Option.some.inj hp
      exact handled_safe hs ((kickProcess_safe h hdrum hqueue hdata).imp (contract_sound _ _) hs
        fun _ _ ht hg hv => hres hchild ht hg hv)
    · simp only [handlerOf, hqueue] at hp
      obtain rfl := Option.some.inj hp
      exact handled_safe hs ((melodyProcess_safe h hmelody hqueue hdata).imp (contract_sound _ _)
        hs fun _ _ ht hg hv => hres hchild ht hg hv)

end Workers

/-- What a client is promised with the id of its map job. -/
structure Accepted (cfg : Config) (s : Shared K) (i : ℕ) (q : Request) (j : String) : Prop where
  created : CreatedBy s i j q
  keyed : Keyed s j
  stored : s.objects (q.key cfg j) ≠ none
  queued : ∃ (n : ℕ) (F : PipelineFlow K), s.flows[n]? = some F ∧ F.spec = q.stemFlow cfg j

omit [Field K] [LinearOrder K] [FloorRing K] in
theorem Accepted.mono {t : Shared K} {i : ℕ} {q : Request} {j : String}
    (h : Accepted cfg s i q j) (hg : Grows s t) : Accepted cfg t i q j := by
  refine ⟨h.created.mono hg, h.keyed.mono hg, hg.objects _ h.stored, ?_⟩
  obtain ⟨n, F, hF, hspec⟩ := h.queued
  obtain ⟨F', hF', hsame⟩ := hg.flows n F hF
  exact ⟨n, F', hF', hsame.trans hspec⟩

theorem createMapJob_safe {i : ℕ} {post : MapJobCreateResponse → Shared K → Prop} (q : Request)
    (hpost : ∀ j t, Accepted cfg t i q j → post ⟨j, .queued⟩ t) :
    Safe (contract cfg P i q.task) post (createMapJob cfg q.file q.laneCount) s := by
  have hc : (contract cfg P i q.task).Sound := contract_sound i q.task
  rw [createMapJob]
  refine Safe.lift_bind fun _ hvalid => ?_
  refine Safe.perform_bind hc (fun _ _ _ => trivial) fun _ body s₁ _ hstep _ _ g₁ => ?_
  obtain ⟨-, -, hbody⟩ := answer_eq (f := fun _ => q.file.body) hstep fun _ => rfl
  subst hbody
  refine Safe.perform_bind hc (fun _ _ _ => ⟨q, rfl, rfl, hvalid⟩)
    fun t j s₂ _ hstep _ _ g₂ => ?_
  obtain ⟨env, t', -, hexec, rfl⟩ := contract_done hstep
  have hby : CreatedBy (t'.record ⟨i, q.task, _, .done j⟩) i j q :=
    ⟨_, .done j, List.mem_append_right _ (List.mem_singleton_self _), rfl⟩
  refine Safe.perform_bind hc (fun t _ g => ⟨q, ⟨i, hby.mono g⟩, rfl⟩)
    fun t _ s₃ ht hstep _ g g₃ => ?_
  have hkeyed : Keyed s₃ j := by
    obtain ⟨env, t', -, hexec, rfl⟩ := contract_done hstep
    obtain ⟨id, hid, he⟩ := Option.map_eq_some_iff.mp hexec
    obtain ⟨-, id', rfl, hne⟩ := ht.created_doc j q ⟨i, hby.mono g⟩
    rw [ObjectId.parse_str, Option.some.injEq] at hid
    subst hid
    obtain ⟨d, hd⟩ := Option.ne_none_iff_exists'.mp hne
    refine ⟨id', d.setObjectKey (q.key cfg id'.str), rfl, ?_, by simp [MapJobDoc.setObjectKey]⟩
    rw [← (Prod.mk.inj he).2]
    simp [Shared.record, hd, Request.key, Request.name]
  refine Safe.perform_bind hc
    (fun t _ g => Or.inl ⟨j, q, rfl, hby.mono (g₃.trans g), rfl, rfl⟩)
    fun _ _ s₄ _ hup _ _ g₄ => ?_
  have horig := uploaded hup
  refine Safe.perform_bind hc
    (fun t _ g => ⟨j, q, ⟨i, hby.mono (g₃.trans (g₄.trans g))⟩, hkeyed.mono (g₄.trans g),
      g.objects _ horig, Or.inl rfl⟩)
    fun t _ s₅ _ hadd _ _ g₅ => Safe.ok fun t' _ g => hpost j t' (Accepted.mono ?_ g)
  refine ⟨hby.mono (g₃.trans (g₄.trans g₅)), hkeyed.mono (g₄.trans g₅), g₅.objects _ horig, ?_⟩
  obtain ⟨env, t₅, -, hexec, rfl⟩ := contract_done hadd
  obtain rfl := (Prod.mk.inj (Option.some.inj hexec)).2
  exact ⟨t.flows.length, _, List.getElem?_concat_length, Flow.spec_add _ _⟩

theorem createMap_safe {i : ℕ} {post : Json K → Shared K → Prop} (hs : Legit cfg P s)
    (q : Request)
    (hpost : ∀ j t, Accepted cfg t i q j →
      post (MapJobCreateResponse.modelDump ⟨j, .queued⟩) t) :
    Safe (contract cfg P i q.task) post (createMap cfg q.file q.laneCount) s := by
  have hc : (contract cfg P i q.task).Sound := contract_sound i q.task
  rw [createMap]
  refine Safe.lift_bind fun _ _ => ?_
  have hjob : Safe (contract cfg P i q.task)
      (fun r t => ∃ j, r = ⟨j, .queued⟩ ∧ Accepted cfg t i q j)
      (createMapJob cfg q.file q.laneCount) s := createMapJob_safe q fun j _ h => ⟨j, rfl, h⟩
  refine hjob.bind hc hs fun r t _ _ hr => Safe.ok fun t' _ hg => ?_
  obtain ⟨j, rfl, h⟩ := hr
  exact hpost j t' (h.mono hg)

end Maps
