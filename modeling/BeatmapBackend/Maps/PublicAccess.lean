import BeatmapBackend.Maps.Strangers
import BeatmapBackend.Patterns.Wildcard

/-! What the bucket policy of the deployment makes public: exactly the uploads of the clients.
They never change once they are stored, so that copies of them may be cached for good. -/
namespace Maps
open Effects Wire Collections Queues Patterns

/-- The only resource that anyone may read. -/
def policyResource (bucket : String) : String := "arn:aws:s3:::" ++ bucket ++ "/*/original/*"

def objectArn (bucket key : String) : String := "arn:aws:s3:::" ++ bucket ++ "/" ++ key

def publiclyReadable (bucket key : String) : Bool :=
  wildcard (policyResource bucket).toList (objectArn bucket key).toList

theorem publiclyReadable_iff {bucket key : String} (hb : Plain bucket.toList) :
    publiclyReadable bucket key = true ↔ ∃ a b, key = a ++ "/original/" ++ b := by
  have hl : Plain ("arn:aws:s3:::" ++ bucket ++ "/").toList := by
    rw [String.toList_append, String.toList_append, plain_append, plain_append]
    exact ⟨⟨by decide, hb⟩, by decide⟩
  have hpolicy : (policyResource bucket).toList =
      ("arn:aws:s3:::" ++ bucket ++ "/").toList ++ '*' :: ("/original/".toList ++ ['*']) := by
    simp [policyResource]
  rw [publiclyReadable, hpolicy, wildcard_between_iff hl (by decide), objectArn]
  constructor
  · rintro ⟨a, b, h⟩
    rw [String.toList_append, List.append_cancel_left_eq] at h
    refine ⟨String.ofList a, String.ofList b, String.toList_inj.mp ?_⟩
    rw [h]
    simp
  · rintro ⟨a, b, rfl⟩
    exact ⟨a.toList, b.toList, by simp⟩

/-- The settings that the policy relies on. -/
structure MapsStorageConfig.Published (c : MapsStorageConfig) : Prop where
  isolated : c.Isolated
  originalDir : c.originalDir = "original"
  drum_slash : '/' ∉ c.drumFilename.toList
  melody_slash : '/' ∉ c.melodyFilename.toList

theorem MapsStorageConfig.published_default : ({} : MapsStorageConfig).Published where
  isolated := isolated_default
  originalDir := rfl
  drum_slash := by decide
  melody_slash := by decide

section Keys

variable {c : MapsStorageConfig} {bucket : String}

theorem originalKey_readable (hc : c.Published) (hb : Plain bucket.toList) (j f : String) :
    publiclyReadable bucket (c.originalKey j f) = true := by
  refine (publiclyReadable_iff hb).mpr ⟨j, f, ?_⟩
  simp [MapsStorageConfig.originalKey, hc.originalDir, String.append_assoc]

/-- Three components leave no room for the directory between two slashes. -/
private theorem stemKey_private (hc : c.Published) (hb : Plain bucket.toList) (id : ObjectId)
    {name : String} (hname : '/' ∉ name.toList) :
    publiclyReadable bucket (id.str ++ "/" ++ c.separatedDir ++ "/" ++ name) = false := by
  rw [← Bool.not_eq_true, publiclyReadable_iff hb]
  rintro ⟨a, b, h⟩
  have hcount := congrArg (fun s : String => s.toList.count '/') h
  simp only [String.toList_append, List.count_append,
    List.count_eq_zero.mpr id.slash_not_mem_str, List.count_eq_zero.mpr hname,
    List.count_eq_zero.mpr hc.isolated.separated_slash] at hcount
  have hslash : "/".toList.count '/' = 1 ∧ "/original/".toList.count '/' = 2 := by decide
  rw [hslash.1, hslash.2] at hcount
  have ha : '/' ∉ a.toList := List.count_eq_zero.mp (by omega)
  have hfirst : id.str ++ "/" ++ (c.separatedDir ++ "/" ++ name) =
      a ++ "/" ++ ("original" ++ "/" ++ b) :=
    calc id.str ++ "/" ++ (c.separatedDir ++ "/" ++ name)
      _ = id.str ++ "/" ++ c.separatedDir ++ "/" ++ name := by simp only [String.append_assoc]
      _ = a ++ "/original/" ++ b := h
      _ = a ++ "/" ++ ("original" ++ "/" ++ b) := by
        rw [← String.toList_inj]
        simp
  have hrest := (slash_inj id.slash_not_mem_str ha hfirst).2
  have hsep := (slash_inj hc.isolated.separated_slash (by decide) hrest).1
  exact hc.isolated.dirs_ne (hc.originalDir.trans hsep.symm)

theorem drumKey_private (hc : c.Published) (hb : Plain bucket.toList) (id : ObjectId) :
    publiclyReadable bucket (c.drumKey id.str) = false :=
  stemKey_private hc hb id hc.drum_slash

theorem melodyKey_private (hc : c.Published) (hb : Plain bucket.toList) (id : ObjectId) :
    publiclyReadable bucket (c.melodyKey id.str) = false :=
  stemKey_private hc hb id hc.melody_slash

end Keys

section Served

variable {K : Type} [Field K] [LinearOrder K] [FloorRing K] {cfg : Config}
  {P : Librosa K → Prop} {s u : Shared K} {i : ℕ} {w w' : World K}

/-- The payload of a queue job names its map job. -/
theorem Held.jobId {j : String} {q : Request} {view : JobView K} (h : Held cfg P s j q view) :
    view.data.get? "job_id" = some (.str j) := by
  cases h with
  | stem hchild hqueue hdata =>
    rw [hdata]
    rfl
  | song duration bpm F hF hspec hm hdrum hmelody hplace =>
    rcases hplace with ⟨-, -, hdata⟩ | ⟨-, -, hdata⟩ | ⟨-, -, hdata⟩ <;> rw [hdata] <;> rfl

/-- Only `insertBeatmap` adds a beatmap. -/
theorem perform_beatmaps {e : Eff K} {task : Task K} {o : Outcome K} {r : Reply (Ans e) Exc}
    (h : s.perform i task e o = some (r, u)) {id : ObjectId} {d : BeatmapDoc K}
    (hd : u.beatmaps.findOne id = some d) :
    s.beatmaps.findOne id = some d ∨
      ∃ (b : NewBeatmap K) (now : ℤ), e = .insertBeatmap b ∧ d = b.document now := by
  rcases perform_cases h with ⟨env, a, t, -, hexec, -, rfl⟩ | ⟨-, rfl⟩
  · cases wrote_of_exec hexec with
    | beatmap b hc =>
      have hfind : _ = some d := (Collection.findOne_insertOne hc id).symm.trans hd
      split at hfind
      · exact Or.inr ⟨b, env.now, rfl, (Option.some.inj hfind).symm⟩
      · exact Or.inl hfind
    | _ => exact Or.inl hd
  · exact Or.inl hd

theorem World.act_beatmaps {a : Act K} (hact : w.act cfg a = some w') {id : ObjectId}
    {d : BeatmapDoc K} (hd : w'.shared.beatmaps.findOne id = some d) :
    w.shared.beatmaps.findOne id = some d ∨ ∃ (i : ℕ) (task : Task K) (b : NewBeatmap K)
      (k : Except Exc String → Prog K (Json K)) (now : ℤ),
        w.threads[i]? = some ⟨task, .op (.insertBeatmap b) k⟩ ∧ d = b.document now := by
  rcases World.act_shared hact with ⟨flows, hsame⟩ | ⟨i, outcome, task, e, k, r, -, hth, hperform⟩
  · rw [hsame] at hd
    exact Or.inl hd
  · rcases perform_beatmaps hperform hd with hold | ⟨b, now, rfl, rfl⟩
    · exact Or.inl hold
    · exact Or.inr ⟨i, task, b, k, now, hth, rfl⟩

/-- A thread that is about to store a song works for a map job whose upload is stored. -/
theorem Owned.ready_of_insertBeatmap (h : Owned cfg w) (hlegit : WorldLegit cfg P w)
    {task : Task K} {b : NewBeatmap K} {k : Except Exc String → Prog K (Json K)}
    (hth : w.threads[i]? = some ⟨task, .op (.insertBeatmap b) k⟩) {q : Request}
    (hq : Created w.shared b.jobId q) : w.shared.objects (q.key cfg b.jobId) ≠ none := by
  obtain ⟨-, id, hid, -⟩ := hlegit.shared.created_doc _ q hq
  have hworks := h.target_worksFor hth hlegit.shared (j := b.jobId) rfl
    (by rw [hid, ObjectId.parse_str])
  rcases hworks with ⟨q', rfl, -⟩ | ⟨view, rfl, hdata⟩
  · obtain ⟨st, -, hfollows⟩ := h.requests i q' _ hth
    have hallow := (Follows.op_iff.mp hfollows).1
    cases st <;> cases hallow
  · obtain ⟨j, q', hready, hheld⟩ := hlegit.shared.held (hlegit.assigned i _ hth)
    obtain rfl : j = id.str := Json.str.inj (Option.some.inj (hheld.jobId.symm.trans hdata))
    rw [← hid] at hready
    rw [hlegit.shared.created_eq hq hready.created]
    exact hready.original

theorem BeatmapMade.key {b : NewBeatmap K} (h : BeatmapMade cfg P s b) :
    ∃ q, Created s b.jobId q ∧ b.objectKey = q.key cfg b.jobId := by
  obtain ⟨q, duration, bpm, kick, melody, hq, -, -, -, hb⟩ := h
  exact ⟨q, hq, congrArg NewBeatmap.objectKey hb⟩

/-- The upload of every stored song is stored. -/
theorem served_of_run {acts : List (Act K)} (hrun : World.empty.run cfg acts = some w) :
    ∀ id d, w.shared.beatmaps.findOne id = some d → ∃ q, Created w.shared d.jobId q ∧
      d.objectKey = q.key cfg d.jobId ∧ w.shared.objects d.objectKey ≠ none := by
  have hinvariant : WorldLegit cfg (fun _ => True) w ∧ Owned cfg w ∧
      ∀ id d, w.shared.beatmaps.findOne id = some d → w.shared.objects d.objectKey ≠ none := by
    refine World.run_invariant (Q := fun _ => True)
      (I := fun v => WorldLegit cfg (fun _ => True) v ∧ Owned cfg v ∧ ∀ id d,
        v.shared.beatmaps.findOne id = some d → v.shared.objects d.objectKey ≠ none)
      ?_ ⟨worldLegit_empty, Owned.empty, fun _ _ => nofun⟩ (fun _ _ => trivial) hrun
    rintro v a v' ⟨hlegit, howned, hserved⟩ - hact
    obtain ⟨hlegit', hg⟩ := hlegit.act a.within_true hact
    refine ⟨hlegit', howned.act hlegit a.within_true hact, fun id d hd => ?_⟩
    rcases World.act_beatmaps hact hd with hold | ⟨i, task, b, k, now, hth, rfl⟩
    · exact hg.objects _ (hserved id d hold)
    · have hmade : BeatmapMade cfg (fun _ => True) v.shared b :=
        (Safe.of_op hlegit.shared (hlegit.safe i _ hth)).1
      obtain ⟨q, hq, hkey⟩ := hmade.key
      rw [show (b.document now).objectKey = q.key cfg b.jobId from hkey]
      exact hg.objects _ (howned.ready_of_insertBeatmap hlegit hth hq)
  obtain ⟨hlegit, -, hserved⟩ := hinvariant
  intro id d hd
  obtain ⟨b, now, hmade, rfl⟩ := hlegit.shared.beatmaps id d hd
  obtain ⟨q, hq, hkey⟩ := hmade.key
  exact ⟨q, hq, hkey, hserved id _ hd⟩

theorem WorldLegit.readable_iff (h : WorldLegit cfg P w) {bucket : String}
    (hb : Plain bucket.toList) (hc : cfg.storage.Published) {key : String} {body : Bytes}
    (hobj : w.shared.objects key = some body) : publiclyReadable bucket key = true ↔
      ∃ j q, Created w.shared j q ∧ key = q.key cfg j ∧ body = q.file.body := by
  constructor
  · intro hpublic
    obtain ⟨i, task, r, hev, -⟩ := h.shared.objects key body hobj
    rcases h.shared.uploads i task key body r hev with
      ⟨j, q, -, hq, rfl, rfl⟩ | ⟨job, j, q, -, -, hq, -, hstem⟩
    · exact ⟨j, q, ⟨i, hq⟩, rfl, rfl⟩
    · obtain ⟨-, id, rfl, -⟩ := h.shared.created_doc j q hq
      rcases hstem with ⟨rfl, -⟩ | ⟨rfl, -⟩
      · simp [drumKey_private hc hb] at hpublic
      · simp [melodyKey_private hc hb] at hpublic
  · rintro ⟨j, q, -, rfl, -⟩
    exact originalKey_readable hc hb j q.name

/-- An upload stays what it is. -/
theorem WorldLegit.upload_stays (h : WorldLegit cfg P w') (hg : Grows w.shared w'.shared)
    (hc : cfg.storage.Isolated) {j : String} {q : Request} (hq : Created w.shared j q)
    (hobj : w.shared.objects (q.key cfg j) = some q.file.body) :
    w'.shared.objects (q.key cfg j) = some q.file.body := by
  obtain ⟨body, hbody⟩ := Option.ne_none_iff_exists'.mp
    (hg.objects _ (by rw [hobj]; exact Option.some_ne_none _))
  rw [hbody, h.shared.original_body (hq.mono hg) hc hbody]

/-- The song's upload is stored with the bytes the client sent. -/
theorem upload_of_run {acts : List (Act K)} (hc : cfg.storage.Isolated)
    (hrun : World.empty.run cfg acts = some w) {id : ObjectId} {d : BeatmapDoc K}
    (hd : w.shared.beatmaps.findOne id = some d) : ∃ q, Created w.shared d.jobId q ∧
      d.objectKey = q.key cfg d.jobId ∧ w.shared.objects d.objectKey = some q.file.body := by
  obtain ⟨hlegit, -⟩ := worldLegit_empty.run (fun a _ => a.within_true) hrun
  obtain ⟨q, hq, hkey, hobj⟩ := served_of_run hrun id d hd
  obtain ⟨body, hbody⟩ := Option.ne_none_iff_exists'.mp hobj
  refine ⟨q, hq, hkey, ?_⟩
  rw [hkey] at hbody ⊢
  rw [hbody, hlegit.shared.original_body hq hc hbody]

/-- In every reachable state the public objects are exactly the uploads of the map jobs, with
the bytes the client sent. They are never changed, and the upload of every song is public. -/
theorem public_objects {bucket : String} (hb : Plain bucket.toList) (hc : cfg.storage.Published)
    {acts more : List (Act K)} (hrun : World.empty.run cfg acts = some w)
    (hmore : w.run cfg more = some w') :
    (∀ key body, w.shared.objects key = some body → (publiclyReadable bucket key = true ↔
      ∃ j q, Created w.shared j q ∧ key = q.key cfg j ∧ body = q.file.body)) ∧
    (∀ key body, w.shared.objects key = some body → publiclyReadable bucket key = true →
      w'.shared.objects key = some body) ∧
    ∀ id d, w.shared.beatmaps.findOne id = some d → publiclyReadable bucket d.objectKey = true ∧
      ∃ q, Created w.shared d.jobId q ∧ w.shared.objects d.objectKey = some q.file.body := by
  obtain ⟨hlegit, -⟩ := worldLegit_empty.run (fun a _ => a.within_true) hrun
  obtain ⟨hlegit', hg⟩ := hlegit.run (fun a _ => a.within_true) hmore
  refine ⟨fun key body hobj => hlegit.readable_iff hb hc hobj,
    fun key body hobj hpublic => ?_, fun id d hd => ?_⟩
  · obtain ⟨j, q, hq, rfl, rfl⟩ := (hlegit.readable_iff hb hc hobj).mp hpublic
    exact hlegit'.upload_stays hg hc.isolated hq hobj
  · obtain ⟨q, hq, hkey, hobj⟩ := upload_of_run hc.isolated hrun hd
    refine ⟨?_, q, hq, hobj⟩
    rw [hkey]
    exact originalKey_readable hc hb d.jobId q.name

open Sample in
theorem public_objects_sample : ∃ w w', World.empty.run {} creation = some w ∧
    w.run {} (acts.drop creation.length) = some w' ∧
    (∀ key body, w.shared.objects key = some body → (publiclyReadable "songs" key = true ↔
      ∃ j q, Created w.shared j q ∧ key = q.key {} j ∧ body = q.file.body)) ∧
    (∀ key body, w.shared.objects key = some body → publiclyReadable "songs" key = true →
      w'.shared.objects key = some body) ∧
    ∀ id d, w.shared.beatmaps.findOne id = some d → publiclyReadable "songs" d.objectKey = true ∧
      ∃ q, Created w.shared d.jobId q ∧ w.shared.objects d.objectKey = some q.file.body := by
  have hsome : ((World.empty.run {} creation).bind fun w =>
      w.run {} (acts.drop creation.length)).isSome = true := by decide +kernel
  obtain ⟨w', hw'⟩ := Option.isSome_iff_exists.mp hsome
  obtain ⟨w, hw, hmore⟩ := Option.bind_eq_some_iff.mp hw'
  exact ⟨w, w', hw, hmore,
    public_objects (by decide) MapsStorageConfig.published_default hw hmore⟩

end Served
end Maps
