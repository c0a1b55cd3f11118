import BeatmapBackend.Maps.Runs

/-! Data flow through the object storage: what each handler downloads was written for its
own job in that role, and no other job ever writes there. -/
namespace Maps
open Effects Wire Collections

variable {K : Type}

/-- The job a thread works for: the one it created, or the one in its payload. -/
def WorksFor (s : Shared K) (i : ℕ) (task : Task K) (j : String) : Prop :=
  (∃ q, task = q.task ∧ CreatedBy s i j q) ∨
    ∃ job, task = .worker job ∧ job.data.get? "job_id" = some (.str j)

def StemUpload (s : Shared K) (j key : String) (body : Bytes) : Prop :=
  ∃ i job, ∃ r : Reply Unit Exc,
    (⟨i, .worker job, .upload key body, r⟩ : Event K) ∈ s.history ∧ r.applied = some () ∧
      job.queueName = stemSeparationQueueName ∧ job.data.get? "job_id" = some (.str j)

def KeyOf (cfg : Config) (j : String) (q : Request) (key : String) : Prop :=
  key = q.key cfg j ∨ key = cfg.storage.drumKey j ∨ key = cfg.storage.melodyKey j

section Keys

variable {cfg : Config} {i j : ObjectId} {p q : Request} {key : String}

theorem KeyOf.original (hc : cfg.storage.Isolated) (h : KeyOf cfg j.str q key)
    (hkey : key = p.key cfg i.str) : i = j := by
  rcases h with h | h | h <;> rw [hkey] at h
  · exact (MapsStorageConfig.originalKey_inj h).1
  · exact (hc.originalKey_ne_drumKey i j _ h).elim
  · exact (hc.originalKey_ne_melodyKey i j _ h).elim

theorem KeyOf.drum (hc : cfg.storage.Isolated) (h : KeyOf cfg j.str q key)
    (hkey : key = cfg.storage.drumKey i.str) : i = j := by
  rcases h with h | h | h <;> rw [hkey] at h
  · exact (hc.originalKey_ne_drumKey j i _ h.symm).elim
  · exact MapsStorageConfig.drumKey_inj h
  · exact (hc.drumKey_ne_melodyKey i j h).elim

theorem KeyOf.melody (hc : cfg.storage.Isolated) (h : KeyOf cfg j.str q key)
    (hkey : key = cfg.storage.melodyKey i.str) : i = j := by
  rcases h with h | h | h <;> rw [hkey] at h
  · exact (hc.originalKey_ne_melodyKey j i _ h.symm).elim
  · exact (hc.drumKey_ne_melodyKey j i h.symm).elim
  · exact MapsStorageConfig.melodyKey_inj h

end Keys

private theorem stemData_jobId {cfg : Config} {job : JobView K} {j : String} {q : Request}
    (h : job.data = (q.stemFlow cfg j).root.data) :
    job.data.get? "job_id" = some (.str j) := by
  rw [h]
  rfl

variable [Field K] [LinearOrder K] [FloorRing K]
variable {cfg : Config} {P : Librosa K → Prop} {s : Shared K}

/-- Whoever writes a key of a job works for that job. -/
theorem Legit.upload_worksFor (hs : Legit cfg P s) (hc : cfg.storage.Isolated) {i : ℕ}
    {task : Task K} {key : String} {body : Bytes} {r : Reply Unit Exc}
    (hev : (⟨i, task, .upload key body, r⟩ : Event K) ∈ s.history) {j : String} {q : Request}
    (hq : Created s j q) (hkey : KeyOf cfg j q key) : WorksFor s i task j := by
  obtain ⟨-, id, rfl, -⟩ := hs.created_doc j q hq
  rcases hs.uploads i task key body r hev with
    ⟨j', q', htask, hq', hk, -⟩ | ⟨job, j', q', htask, -, hq', hdata, hk⟩
  · obtain ⟨-, id', rfl, -⟩ := hs.created_doc j' q' ⟨i, hq'⟩
    obtain rfl := hkey.original hc hk
    exact Or.inl ⟨q', htask, hq'⟩
  · obtain ⟨-, id', rfl, -⟩ := hs.created_doc j' q' hq'
    have hid : id' = id := by
      rcases hk with ⟨hk, -⟩ | ⟨hk, -⟩
      · exact hkey.drum hc hk
      · exact hkey.melody hc hk
    subst hid
    exact Or.inr ⟨job, htask, stemData_jobId hdata⟩

/-- The object under a stem key was stored by a stem worker of that job. -/
theorem Legit.stemUpload (hs : Legit cfg P s) (hc : cfg.storage.Isolated) {j key : String}
    {q : Request} {body : Bytes} (hq : Created s j q)
    (hkey : key = cfg.storage.drumKey j ∨ key = cfg.storage.melodyKey j)
    (hbody : s.objects key = some body) : StemUpload s j key body := by
  obtain ⟨-, id, rfl, -⟩ := hs.created_doc j q hq
  obtain ⟨i, task, r, hev, hr⟩ := hs.objects key body hbody
  have hkeyOf : KeyOf cfg id.str q key := Or.inr hkey
  rcases hs.uploads i task key body r hev with
    ⟨j', q', -, hq', hk, -⟩ | ⟨job, j', q', rfl, hqueue, hq', hdata, hk⟩
  · obtain ⟨-, id', rfl, -⟩ := hs.created_doc j' q' ⟨i, hq'⟩
    rcases hkey with rfl | rfl
    · exact (hc.originalKey_ne_drumKey id' id _ hk.symm).elim
    · exact (hc.originalKey_ne_melodyKey id' id _ hk.symm).elim
  · obtain ⟨-, id', rfl, -⟩ := hs.created_doc j' q' hq'
    have hid : id' = id := by
      rcases hk with ⟨hk, -⟩ | ⟨hk, -⟩
      · exact hkeyOf.drum hc hk
      · exact hkeyOf.melody hc hk
    subst hid
    exact ⟨i, job, r, hev, hr, hqueue, stemData_jobId hdata⟩

/-- Every download a thread is about to perform finds the object its own job stored in that
role, and every upload to a key of a job is made for that job. -/
theorem downloads_isolated {acts : List (Act K)} {w : World K} (hc : cfg.storage.Isolated)
    (hrun : World.empty.run cfg acts = some w) :
    (∀ (i : ℕ) (task : Task K) key path k,
      w.threads[i]? = some ⟨task, .op (.download key path) k⟩ → ∃ job j q body,
        task = .worker job ∧ job.data.get? "job_id" = some (.str j) ∧ Created w.shared j q ∧
        w.shared.objects key = some body ∧
        ((job.queueName = stemSeparationQueueName ∧ key = q.key cfg j ∧ body = q.file.body) ∨
          (job.queueName = kickOnsetQueueName ∧ key = q.key cfg j ∧ body = q.file.body) ∨
          (job.queueName = kickOnsetQueueName ∧ key = cfg.storage.drumKey j ∧
            StemUpload w.shared j key body) ∨
          (job.queueName = melodyExtractionQueueName ∧ key = cfg.storage.melodyKey j ∧
            StemUpload w.shared j key body))) ∧
    ∀ i task key body (r : Reply Unit Exc),
      (⟨i, task, .upload key body, r⟩ : Event K) ∈ w.shared.history →
        ∀ j q, Created w.shared j q → KeyOf cfg j q key → WorksFor w.shared i task j := by
  obtain ⟨hw, -⟩ := (worldLegit_empty (P := fun _ => True)).run
    (fun a _ => a.within_true) hrun
  have hs := hw.shared
  refine ⟨fun i task key path k hth => ?_,
    fun i task key body r hev j q hq hkey => hs.upload_worksFor hc hev hq hkey⟩
  obtain ⟨⟨hobj, job, j, q, rfl, hq, hid, hrole⟩, -⟩ := Safe.of_op hs (hw.safe i _ hth)
  obtain ⟨body, hbody⟩ := Option.ne_none_iff_exists'.mp hobj
  refine ⟨job, j, q, body, rfl, hid, hq, hbody, ?_⟩
  rcases hrole with ⟨hqueue, rfl⟩ | ⟨hqueue, rfl | rfl⟩ | ⟨hqueue, rfl⟩
  · exact Or.inl ⟨hqueue, rfl, hs.original_body hq hc hbody⟩
  · exact Or.inr (Or.inl ⟨hqueue, rfl, hs.original_body hq hc hbody⟩)
  · exact Or.inr (Or.inr (Or.inl ⟨hqueue, rfl, hs.stemUpload hc hq (Or.inl rfl) hbody⟩))
  · exact Or.inr (Or.inr (Or.inr ⟨hqueue, rfl, hs.stemUpload hc hq (Or.inr rfl) hbody⟩))

/-- A stem worker about to download the original of the first job. -/
theorem downloads_isolated_sample : ∃ w,
    World.empty.run {} (Sample.creation ++ .start ⟨0, none⟩ :: Sample.steps 1 2) = some w ∧
    (∀ (i : ℕ) (task : Task ℚ) key path k,
      w.threads[i]? = some ⟨task, .op (.download key path) k⟩ → ∃ job j q body,
        task = .worker job ∧ job.data.get? "job_id" = some (.str j) ∧ Created w.shared j q ∧
        w.shared.objects key = some body ∧
        ((job.queueName = stemSeparationQueueName ∧ key = q.key {} j ∧ body = q.file.body) ∨
          (job.queueName = kickOnsetQueueName ∧ key = q.key {} j ∧ body = q.file.body) ∨
          (job.queueName = kickOnsetQueueName ∧ key = ({} : MapsStorageConfig).drumKey j ∧
            StemUpload w.shared j key body) ∨
          (job.queueName = melodyExtractionQueueName ∧
            key = ({} : MapsStorageConfig).melodyKey j ∧ StemUpload w.shared j key body))) ∧
    ∀ i task key body (r : Reply Unit Exc),
      (⟨i, task, .upload key body, r⟩ : Event ℚ) ∈ w.shared.history →
        ∀ j q, Created w.shared j q → KeyOf {} j q key → WorksFor w.shared i task j := by
  obtain ⟨w, hw⟩ := Option.isSome_iff_exists.mp
    (show (World.empty.run {} (Sample.creation ++ .start ⟨0, none⟩ ::
      Sample.steps 1 2)).isSome = true by decide +kernel)
  exact ⟨w, hw, downloads_isolated MapsStorageConfig.isolated_default hw⟩

end Maps
