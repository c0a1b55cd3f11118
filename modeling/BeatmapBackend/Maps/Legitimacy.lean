import BeatmapBackend.Maps.Provenance

/-! What each kind of write does to the provenance invariant: recording an event, updating
or inserting a document, storing an object, adding or replacing a flow. -/
namespace Maps
open Effects Wire Collections Queues

variable {K : Type}

theorem Grows.record (s : Shared K) (ev : Event K) : Grows s (s.record ev) where
  history _ h := List.mem_append_left [ev] h
  docs _ d h := ⟨d, h, fun hk => hk⟩
  objects _ h := h
  beatmaps _ _ h := h
  flows _ F h := ⟨F, h, rfl⟩

theorem Grows.updateDoc (s : Shared K) (id : ObjectId) (f : MapJobDoc → MapJobDoc)
    (hf : ∀ d, d.objectKey ≠ none → (f d).objectKey ≠ none) :
    Grows s { s with mapJobs := s.mapJobs.updateOne id f } where
  history _ h := h
  docs i d h := by
    rw [Collection.findOne_updateOne]
    split
    · exact ⟨f d, by rw [h, Option.map_some], hf d⟩
    · exact ⟨d, h, fun hk => hk⟩
  objects _ h := h
  beatmaps _ _ h := h
  flows _ F h := ⟨F, h, rfl⟩

theorem Grows.insertDoc {s : Shared K} {id : ObjectId} {d : MapJobDoc}
    {c : Collection ObjectId MapJobDoc} (hc : s.mapJobs.insertOne id d = some c) :
    Grows s { s with mapJobs := c } where
  history _ h := h
  docs i d' h := by
    have hne : i ≠ id := by
      rintro rfl
      rw [(Collection.insertOne_eq_some.mp hc).1] at h
      cases h
    exact ⟨d', by rw [Collection.findOne_insertOne hc, if_neg hne, h], fun hk => hk⟩
  objects _ h := h
  beatmaps _ _ h := h
  flows _ F h := ⟨F, h, rfl⟩

theorem Grows.insertBeatmap {s : Shared K} {id : ObjectId} {d : BeatmapDoc K}
    {c : Collection ObjectId (BeatmapDoc K)} (hc : s.beatmaps.insertOne id d = some c) :
    Grows s { s with beatmaps := c } where
  history _ h := h
  docs _ d h := ⟨d, h, fun hk => hk⟩
  objects _ h := h
  beatmaps i d' h := by
    have hne : i ≠ id := by
      rintro rfl
      rw [(Collection.insertOne_eq_some.mp hc).1] at h
      cases h
    rw [Collection.findOne_insertOne hc, if_neg hne, h]
  flows _ F h := ⟨F, h, rfl⟩

theorem Grows.putObject (s : Shared K) (key : String) (body : Bytes) :
    Grows s { s with objects := fun k => if k = key then some body else s.objects k } where
  history _ h := h
  docs _ d h := ⟨d, h, fun hk => hk⟩
  objects k h := by
    dsimp only
    split
    · simp
    · exact h
  beatmaps _ _ h := h
  flows _ F h := ⟨F, h, rfl⟩

theorem Grows.addFlow (s : Shared K) (F : PipelineFlow K) :
    Grows s { s with flows := s.flows ++ [F] } where
  history _ h := h
  docs _ d h := ⟨d, h, fun hk => hk⟩
  objects _ h := h
  beatmaps _ _ h := h
  flows n G h := ⟨G, by rw [List.getElem?_append_left (List.getElem?_eq_some_iff.mp h).1, h], rfl⟩

theorem Grows.setFlow {s : Shared K} {n : ℕ} {F F' : PipelineFlow K} (hF : s.flows[n]? = some F)
    (hspec : F'.spec = F.spec) : Grows s { s with flows := s.flows.set n F' } where
  history _ h := h
  docs _ d h := ⟨d, h, fun hk => hk⟩
  objects _ h := h
  beatmaps _ _ h := h
  flows m G h := by
    dsimp only
    rw [List.getElem?_set]
    split
    next hmn =>
      subst hmn
      have hGF : F = G := by simpa [hF] using h
      subst hGF
      exact ⟨F', by simp [(List.getElem?_eq_some_iff.mp hF).1], hspec⟩
    next => exact ⟨G, h, rfl⟩

/-- Only the insertion of a map job creates one. -/
def Event.creates (ev : Event K) : Option String :=
  match ev with
  | ⟨_, _, .insertMapJob _, r⟩ => r.applied
  | _ => none

theorem createdBy_record {s : Shared K} {ev : Event K} {i : ℕ} {j : String} {q : Request}
    (h : CreatedBy (s.record ev) i j q) :
    CreatedBy s i j q ∨ (ev.creates = some j ∧ ev.actor = i ∧ ev.task = q.task) := by
  obtain ⟨n, r, hmem, hr⟩ := h
  rcases List.mem_append.mp hmem with hold | hnew
  · exact Or.inl ⟨n, r, hold, hr⟩
  · obtain rfl := (List.mem_singleton.mp hnew).symm
    exact Or.inr ⟨hr, rfl, rfl⟩

variable [Field K] [LinearOrder K] [FloorRing K]
variable {cfg : Config} {P : Librosa K → Prop} {s : Shared K}

/-- What an event other than a creation owes to the invariant. -/
def Event.Made (cfg : Config) (P : Librosa K → Prop) (s : Shared K) : Event K → Prop
  | ⟨i, task, .upload key body, _⟩ => UploadMade cfg P s i task key body
  | ⟨_, task, .download key _, _⟩ => ReadMade cfg s task key
  | _ => True

/-- One request created a map job. -/
theorem Legit.created_eq (h : Legit cfg P s) {j : String} {q q' : Request} (hq : Created s j q)
    (hq' : Created s j q') : q = q' := by
  obtain ⟨i, hi⟩ := hq
  obtain ⟨i', hi'⟩ := hq'
  exact (h.created_unique _ _ _ _ _ hi hi').2

/-- What was made stays made: only what is new in the greater state is to be accounted for. -/
theorem Legit.of_grows {t : Shared K} (h : Legit cfg P s) (hg : Grows s t)
    (hdocs : ∀ id d, t.mapJobs.findOne id = some d → s.mapJobs.findOne id = some d ∨
      (DocSound t id d ∧ ∃ q, Created t id.str q ∧ d.originalFilename = q.name ∧
        d.laneCount = q.lanes cfg ∧ (d.objectKey = none ∨ d.objectKey = some (q.key cfg id.str))))
    (hcreated : ∀ i j q, CreatedBy t i j q → CreatedBy s i j q ∨
      (validateRequest cfg q.file q.laneCount = .ok () ∧
        (∃ id, j = id.str ∧ t.mapJobs.findOne id ≠ none) ∧
        ∀ i' q', CreatedBy t i' j q' → i = i' ∧ q = q'))
    (hevents : ∀ ev ∈ t.history, ev ∈ s.history ∨ ev.Made cfg P s)
    (hobjects : ∀ key body, t.objects key = some body → s.objects key = some body ∨
      ∃ i task, ∃ r : Reply Unit Exc,
        (⟨i, task, .upload key body, r⟩ : Event K) ∈ t.history ∧ r.applied = some ())
    (hflows : ∀ F ∈ t.flows, F ∈ s.flows ∨ FlowMade cfg P s F.spec F.value?)
    (hbeatmaps : ∀ id d, t.beatmaps.findOne id = some d → s.beatmaps.findOne id = some d ∨
      ∃ b now, BeatmapMade cfg P s b ∧ d = b.document now) : Legit cfg P t := by
  constructor
  case docs =>
    intro id d hd
    rcases hdocs id d hd with hold | ⟨hsound, -⟩
    · exact (h.docs id d hold).mono hg
    · exact hsound
  case docs_created =>
    intro id d hd
    rcases hdocs id d hd with hold | ⟨-, hnew⟩
    · obtain ⟨q, hq, hrest⟩ := h.docs_created id d hold
      exact ⟨q, hq.mono hg, hrest⟩
    · exact hnew
  case created_doc =>
    rintro j q ⟨i, hq⟩
    rcases hcreated i j q hq with hold | ⟨hvalid, hdoc, -⟩
    · obtain ⟨hvalid, id, rfl, hne⟩ := h.created_doc j q ⟨i, hold⟩
      obtain ⟨d, hd⟩ := Option.ne_none_iff_exists'.mp hne
      obtain ⟨d', hd', -⟩ := hg.docs id d hd
      exact ⟨hvalid, id, rfl, Option.ne_none_iff_exists'.mpr ⟨d', hd'⟩⟩
    · exact ⟨hvalid, hdoc⟩
  case created_unique =>
    intro i i' j q q' hq hq'
    rcases hcreated i j q hq with hold | ⟨-, -, honly⟩
    · rcases hcreated i' j q' hq' with hold' | ⟨-, -, honly⟩
      · exact h.created_unique i i' j q q' hold hold'
      · obtain ⟨hi, hj⟩ := honly i q hq
        exact ⟨hi.symm, hj.symm⟩
    · exact honly i' q' hq'
  case uploads =>
    intro i task key body r hmem
    rcases hevents _ hmem with hold | hmade
    · exact (h.uploads i task key body r hold).mono hg
    · exact UploadMade.mono hmade hg
  case objects =>
    intro key body hk
    rcases hobjects key body hk with hold | hnew
    · obtain ⟨i, task, r, hmem, hr⟩ := h.objects key body hold
      exact ⟨i, task, r, hg.history _ hmem, hr⟩
    · exact hnew
  case downloads =>
    intro i task key path r hmem
    rcases hevents _ hmem with hold | hmade
    · exact (h.downloads i task key path r hold).mono hg
    · exact ReadMade.mono hmade hg
  case flows =>
    intro F hF
    rcases hflows F hF with hold | hmade
    · exact (h.flows F hold).mono hg fun _ _ hv => hv
    · exact hmade.mono hg fun _ _ hv => hv
  case beatmaps =>
    intro id d hd
    rcases hbeatmaps id d hd with hold | hnew
    · obtain ⟨b, now, hb, he⟩ := h.beatmaps id d hold
      exact ⟨b, now, hb.mono hg, he⟩
    · obtain ⟨b, now, hb, he⟩ := hnew
      exact ⟨b, now, hb.mono hg, he⟩

theorem Legit.record (h : Legit cfg P s) {ev : Event K} (hnew : ev.creates = none)
    (hev : ev.Made cfg P s) : Legit cfg P (s.record ev) := by
  refine h.of_grows (Grows.record s ev) (fun _ _ => Or.inl) (fun i j q hq => Or.inl ?_)
    (fun ev' hmem => ?_) (fun _ _ => Or.inl) (fun _ => Or.inl) (fun _ _ => Or.inl)
  · rcases createdBy_record hq with hold | ⟨hc, -, -⟩
    · exact hold
    · rw [hnew] at hc
      cases hc
  · rcases List.mem_append.mp hmem with hold | hlast
    · exact Or.inl hold
    · obtain rfl := List.mem_singleton.mp hlast
      exact Or.inr hev

theorem Legit.recorded {t : Shared K} (h : Legit cfg P t) (hg : Grows s t) {ev : Event K}
    (hnew : ev.creates = none) (hev : ev.Made cfg P t) :
    Legit cfg P (t.record ev) ∧ Grows s (t.record ev) :=
  ⟨h.record hnew hev, hg.trans (Grows.record t ev)⟩

/-- An update in place keeps the request's data and may set the object key. -/
theorem Legit.updateDoc (h : Legit cfg P s) (id : ObjectId) (f : MapJobDoc → MapJobDoc)
    (hsound : ∀ d, DocSound s id d → DocSound s id (f d))
    (hname : ∀ d, (f d).originalFilename = d.originalFilename)
    (hlanes : ∀ d, (f d).laneCount = d.laneCount)
    (hkey : ∀ d, (f d).objectKey = d.objectKey ∨
      ∃ q, Created s id.str q ∧ (f d).objectKey = some (q.key cfg id.str)) :
    Legit cfg P { s with mapJobs := s.mapJobs.updateOne id f } ∧
      Grows s { s with mapJobs := s.mapJobs.updateOne id f } := by
  have hg : Grows s { s with mapJobs := s.mapJobs.updateOne id f } := by
    refine Grows.updateDoc s id f fun d hd => ?_
    rcases hkey d with he | ⟨q, -, he⟩
    · rwa [he]
    · simp [he]
  refine ⟨h.of_grows hg (fun i d hd => ?_) (fun _ _ _ => Or.inl) (fun _ => Or.inl)
    (fun _ _ => Or.inl) (fun _ => Or.inl) (fun _ _ => Or.inl), hg⟩
  have hd' : (s.mapJobs.updateOne id f).findOne i = some d := hd
  rw [Collection.findOne_updateOne] at hd'
  split at hd'
  next hi =>
    subst hi
    obtain ⟨d₀, hd₀, rfl⟩ := Option.map_eq_some_iff.mp hd'
    obtain ⟨q, hq, hn, hl, hk⟩ := h.docs_created _ d₀ hd₀
    refine Or.inr ⟨(hsound d₀ (h.docs _ d₀ hd₀)).mono hg, q, hq.mono hg, (hname d₀).trans hn,
      (hlanes d₀).trans hl, ?_⟩
    rcases hkey d₀ with he | ⟨q', hq', he⟩
    · rwa [he]
    · obtain rfl := h.created_eq hq hq'
      exact Or.inr he
  next => exact Or.inl hd'

/-- A new map job and the event of its creation belong together. -/
theorem Legit.create (h : Legit cfg P s) {id : ObjectId} {q : Request} {i : ℕ}
    {c : Collection ObjectId MapJobDoc} {r : Reply String Exc}
    (hvalid : validateRequest cfg q.file q.laneCount = .ok ())
    (hc : s.mapJobs.insertOne id (NewMapJob.document ⟨q.name, none, q.lanes cfg⟩) = some c)
    (hr : r.applied = some id.str) :
    Legit cfg P (({ s with mapJobs := c } : Shared K).record
      ⟨i, q.task, .insertMapJob ⟨q.name, none, q.lanes cfg⟩, r⟩) := by
  set ev : Event K := ⟨i, q.task, .insertMapJob ⟨q.name, none, q.lanes cfg⟩, r⟩ with hev
  set t : Shared K := { s with mapJobs := c } with ht
  have hg : Grows s (t.record ev) := (Grows.insertDoc hc).trans (Grows.record t ev)
  have hcreated : CreatedBy (t.record ev) i id.str q :=
    ⟨_, r, List.mem_append_right _ (List.mem_singleton_self _), hr⟩
  have hnot (i' : ℕ) (q' : Request) : ¬ CreatedBy s i' id.str q' := by
    intro hq'
    obtain ⟨-, id', hid, hne⟩ := h.created_doc _ q' ⟨i', hq'⟩
    rw [← ObjectId.str_injective hid] at hne
    exact hne (Collection.insertOne_eq_some.mp hc).1
  have hback {i' : ℕ} {j : String} {q' : Request} (hq : CreatedBy (t.record ev) i' j q') :
      CreatedBy s i' j q' ∨ (j = id.str ∧ i' = i ∧ q' = q) := by
    rcases createdBy_record hq with hold | ⟨hcr, hi, htask⟩
    · exact Or.inl hold
    · have hj : r.applied = some j := hcr
      rw [hr] at hj
      refine Or.inr ⟨(Option.some.inj hj).symm, hi.symm, ?_⟩
      have hq' : (q.task : Task K) = q'.task := htask
      cases q; cases q'
      simpa [Request.task, eq_comm] using hq'
  refine h.of_grows hg (fun i' d hd => ?_) (fun i' j q' hq' => ?_) (fun ev' hmem => ?_)
    (fun _ _ => Or.inl) (fun _ => Or.inl) (fun _ _ => Or.inl)
  · have hd' : c.findOne i' = some d := hd
    rw [Collection.findOne_insertOne hc] at hd'
    split at hd'
    next hi =>
      cases hd'
      refine Or.inr ⟨?_, q, hi ▸ ⟨i, hcreated⟩, rfl, rfl, Or.inl rfl⟩
      constructor <;> simp [NewMapJob.document]
    next => exact Or.inl hd'
  · rcases hback hq' with hold | ⟨rfl, rfl, rfl⟩
    · exact Or.inl hold
    · have hdoc : c.findOne id ≠ none := by simp [Collection.findOne_insertOne hc]
      refine Or.inr ⟨hvalid, ⟨id, rfl, hdoc⟩, fun i' q' hq' => ?_⟩
      rcases hback hq' with hold | ⟨-, rfl, rfl⟩
      · exact (hnot i' q' hold).elim
      · exact ⟨rfl, rfl⟩
  · rcases List.mem_append.mp hmem with hold | hlast
    · exact Or.inl hold
    · obtain rfl := List.mem_singleton.mp hlast
      exact Or.inr trivial

theorem Legit.insertBeatmap (h : Legit cfg P s) {id : ObjectId} {b : NewBeatmap K} {now : ℤ}
    {c : Collection ObjectId (BeatmapDoc K)} (hb : BeatmapMade cfg P s b)
    (hc : s.beatmaps.insertOne id (b.document now) = some c) :
    Legit cfg P { s with beatmaps := c } := by
  refine h.of_grows (Grows.insertBeatmap hc) (fun _ _ => Or.inl) (fun _ _ _ => Or.inl)
    (fun _ => Or.inl) (fun _ _ => Or.inl) (fun _ => Or.inl) (fun i d hd => ?_)
  have hd' : c.findOne i = some d := hd
  rw [Collection.findOne_insertOne hc] at hd'
  split at hd'
  · exact Or.inr ⟨b, now, hb, (Option.some.inj hd').symm⟩
  · exact Or.inl hd'

theorem Legit.putObject (h : Legit cfg P s) {key : String} {body : Bytes} {i : ℕ} {task : Task K}
    {r : Reply Unit Exc} (hev : (⟨i, task, .upload key body, r⟩ : Event K) ∈ s.history)
    (hr : r.applied = some ()) :
    Legit cfg P { s with objects := fun k => if k = key then some body else s.objects k } := by
  refine h.of_grows (Grows.putObject s key body) (fun _ _ => Or.inl) (fun _ _ _ => Or.inl)
    (fun _ => Or.inl) (fun k b hk => ?_) (fun _ => Or.inl) (fun _ _ => Or.inl)
  dsimp only at hk
  split at hk
  next hkey =>
    subst hkey
    obtain rfl := Option.some.inj hk
    exact Or.inr ⟨i, task, r, hev, hr⟩
  next => exact Or.inl hk

theorem Legit.setFlows (h : Legit cfg P s) {flows : List (PipelineFlow K)}
    (hg : Grows s { s with flows := flows })
    (hflows : ∀ F ∈ flows, FlowMade cfg P s F.spec F.value?) :
    Legit cfg P { s with flows := flows } :=
  h.of_grows hg (fun _ _ => Or.inl) (fun _ _ _ => Or.inl) (fun _ => Or.inl) (fun _ _ => Or.inl)
    (fun F hF => Or.inr (hflows F hF)) (fun _ _ => Or.inl)

end Maps
