import BeatmapBackend.Maps.Endings
import BeatmapBackend.Maps.Isolation

/-! Retries and scheduling against the result of a map job: with isolated storage keys every
partial effect of a failed attempt is overwritten by the same value. -/
namespace Maps
open Effects Wire Queues Collections

section Runs

variable {K : Type} [Field K] [LinearOrder K] [FloorRing K]
variable {cfg : Config} {lib : Librosa K} {q : Request}

section Determined

/-! With one library and isolated keys the request determines everything that is computed. -/

omit [Field K] [LinearOrder K] [FloorRing K] in
theorem Separated.unique (hc : cfg.storage.Isolated) {wav : String} {body body' : Bytes}
    (h : Separated cfg (· = lib) q wav body) (h' : Separated cfg (· = lib) q wav body') :
    body = body' := by
  obtain ⟨_, audio, rfl, hbody, haudio⟩ := h
  obtain ⟨_, audio', rfl, hbody', haudio'⟩ := h'
  rw [haudio hc] at hbody
  rw [haudio' hc] at hbody'
  exact Except.ok.inj (hbody.symm.trans hbody')

theorem Measured.unique (hc : cfg.storage.Isolated) {duration bpm duration' bpm' : ℤ}
    (h : Measured cfg (· = lib) q duration bpm) (h' : Measured cfg (· = lib) q duration' bpm') :
    duration = duration' ∧ bpm = bpm' := by
  obtain ⟨_, _, audio, rfl, rfl, rfl, hbpm, haudio⟩ := h
  obtain ⟨_, _, audio', rfl, rfl, rfl, hbpm', haudio'⟩ := h'
  rw [haudio hc] at hbpm
  rw [haudio' hc] at hbpm'
  rw [haudio hc, haudio' hc]
  exact ⟨rfl, Except.ok.inj (hbpm.symm.trans hbpm')⟩

theorem KickRun.unique {filename : String} {laneCount : ℤ} {drumStem original : Bytes}
    {notes notes' : List (Note K)}
    (h : KickRun (· = lib) filename laneCount drumStem original notes)
    (h' : KickRun (· = lib) filename laneCount drumStem original notes') : notes = notes' := by
  obtain ⟨_, drums, mix, rfl, hdrums, hmix, hcase⟩ := h
  obtain ⟨_, drums', mix', rfl, hdrums', hmix', hcase'⟩ := h'
  obtain rfl := Except.ok.inj (hdrums.symm.trans hdrums')
  obtain rfl := Except.ok.inj (hmix.symm.trans hmix')
  rcases hcase with ⟨hquiet, rfl⟩ | ⟨hloud, _, rfl, hnotes⟩ <;>
    rcases hcase' with ⟨hquiet', rfl⟩ | ⟨hloud', _, rfl, hnotes'⟩
  · rfl
  · cases hquiet.symm.trans hloud'
  · cases hquiet'.symm.trans hloud
  · exact Except.ok.inj (hnotes.symm.trans hnotes')

theorem KickNotes.unique (hc : cfg.storage.Isolated) {notes notes' : List (Note K)}
    (h : KickNotes cfg (· = lib) q notes) (h' : KickNotes cfg (· = lib) q notes') :
    notes = notes' := by
  obtain ⟨drumStem, original, hrun, hfiles⟩ := h
  obtain ⟨drumStem', original', hrun', hfiles'⟩ := h'
  obtain ⟨hsep, rfl⟩ := hfiles hc
  obtain ⟨hsep', rfl⟩ := hfiles' hc
  obtain rfl := hsep.unique hc hsep'
  exact hrun.unique hrun'

theorem MelodyNotes.unique (hc : cfg.storage.Isolated) {bpm : ℤ} {notes notes' : List (Note K)}
    (h : MelodyNotes cfg (· = lib) q bpm notes) (h' : MelodyNotes cfg (· = lib) q bpm notes') :
    notes = notes' := by
  obtain ⟨stem, _, _, rfl, rfl, hnotes, hsep⟩ := h
  obtain ⟨stem', _, _, rfl, rfl, hnotes', hsep'⟩ := h'
  obtain rfl := (hsep hc).unique hc (hsep' hc)
  exact Except.ok.inj (hnotes.symm.trans hnotes')

/-- The stored beatmap of a map job. -/
theorem BeatmapMade.unique (hc : cfg.storage.Isolated) {s t : Shared K} (hs : Legit cfg (· = lib) s)
    (ht : Legit cfg (· = lib) t) {b b' : NewBeatmap K} (h : BeatmapMade cfg (· = lib) s b)
    (h' : BeatmapMade cfg (· = lib) t b') (hj : b'.jobId = b.jobId) (hq : Created s b.jobId q)
    (hq' : Created t b.jobId q) : b = b' := by
  obtain ⟨q₁, duration, bpm, kick, melody, hq₁, hm, hkick, hmelody, hb⟩ := h
  obtain ⟨q₂, duration', bpm', kick', melody', hq₂, hm', hkick', hmelody', hb'⟩ := h'
  rw [hj] at hq₂ hb'
  obtain rfl := hs.created_eq hq hq₁
  obtain rfl := ht.created_eq hq' hq₂
  obtain ⟨rfl, rfl⟩ := hm.unique hc hm'
  obtain rfl := hkick.unique hc hkick'
  obtain rfl := hmelody.unique hc hmelody'
  exact hb.trans hb'.symm

end Determined

/-- The stems of the map job `j` were separated, and each of its queue jobs succeeded. -/
def Succeeded (w : World K) (j : String) : Prop :=
  (∃ job, JobOf w j stemSeparationQueueName job) ∧
    ∀ queueName job, JobOf w j queueName job → job.state.isCompleted = true

structure Finished (cfg : Config) (q : Request) (id : ObjectId) (s : Shared K) (b : ObjectId)
    (doc : BeatmapDoc K) : Prop where
  job : s.mapJobs.findOne id = some ⟨.completed, q.name, some (q.key cfg id.str), q.lanes cfg,
    some b.str, none⟩
  beatmaps : (s.beatmaps.select fun doc => doc.jobId = id.str) = [(b, doc)]
  original : s.objects (q.key cfg id.str) ≠ none
  drum : s.objects (cfg.storage.drumKey id.str) ≠ none
  melody : s.objects (cfg.storage.melodyKey id.str) ≠ none

variable {P : Librosa K → Prop} {R : Rules} {w : World K} {id : ObjectId}

theorem Sim.finished (h : Sim cfg P R w) (hstalls : R.stalls = false) (hstrays : R.strays = false)
    (hq : Created w.shared id.str q) (hsucceeded : Succeeded w id.str) :
    ∃ b doc, Finished cfg q id w.shared b doc := by
  obtain ⟨⟨stemJob, hstemJob⟩, hall⟩ := hsucceeded
  obtain ⟨-, id', hid, hdoc⟩ := h.legit.shared.created_doc _ _ hq
  obtain rfl := ObjectId.str_injective hid
  obtain ⟨q', L, hreach, hL⟩ := h.lives id hdoc
  obtain rfl := h.legit.shared.created_eq hq hL.created
  have hinv := Life.inv_of_reachable hreach
  have hphase {role : Role} {ref : JobRef} (hr : Placed cfg q id.str w.shared role ref) :
      L.phase role = some .succeeded := by
    obtain ⟨job, p, hjob, hp, hrel⟩ := hL.tracked role ref hr
    rw [hp, hrel.isCompleted_iff.mp (hall _ job (hr.jobOf hjob))]
  obtain ⟨stemRef, -, hstem⟩ := JobOf.placed h.legit.shared hq .stem hstemJob
  obtain ⟨ref, hr⟩ := hL.placed .root (hinv.shape.song.mpr (Or.inr (hphase hstem)))
  have hroot := hphase hr
  have hcompleted := hinv.shown.completed.mpr (Or.inr hroot)
  obtain ⟨b, hmade, hb⟩ := (Life.one_beatmap hstalls hstrays hreach hroot rfl).1 hcompleted
  obtain ⟨e, he, rfl⟩ := List.map_eq_singleton_iff.mp (hL.made.trans hmade)
  have herror : L.error = none := by
    by_contra hne
    cases hcompleted.symm.trans (hinv.shown.error.mpr hne)
  obtain ⟨-, F, hF, duration, bpm, hsong⟩ := hr
  obtain ⟨j', q', hq', hkeyed, horiginal, hcase⟩ :=
    h.legit.shared.flows F (List.mem_of_getElem? hF)
  rcases hcase with hstemFlow | ⟨duration', bpm', hsong', -, hdrum, hmelody, -⟩
  · exact (stemFlow_ne_songFlow (hstemFlow.symm.trans hsong)).elim
  · obtain ⟨rfl, -⟩ := songFlow_inj (hsong.symm.trans hsong')
    obtain rfl := h.legit.shared.created_eq hq hq'
    refine ⟨e.1, e.2, ?_, he, horiginal, hdrum, hmelody⟩
    obtain ⟨d, hd, hstatus, hbeatmap, herr⟩ := hL.doc
    obtain ⟨q₂, hq₂, hname, hlanes, hkey⟩ := h.legit.shared.docs_created id d hd
    obtain rfl := h.legit.shared.created_eq hq hq₂
    obtain ⟨id₂, d₂, hid₂, hd₂, hne⟩ := hkeyed
    obtain rfl := ObjectId.str_injective hid₂
    obtain rfl := Option.some.inj (hd.symm.trans hd₂)
    rw [hd]
    cases d
    simp_all

/-- Two runs of the pipeline for one map job leave the same behind, but for the fresh id of the
beatmap and for when it was stored. -/
def SameResult (cfg : Config) (q : Request) (id : ObjectId) (s t : Shared K) : Prop :=
  (∀ key, KeyOf cfg id.str q key → s.objects key ≠ none ∧ s.objects key = t.objects key) ∧
  ∃ b doc b' doc', Finished cfg q id s b doc ∧ Finished cfg q id t b' doc' ∧
    doc' = { doc with createdAt := doc'.createdAt }

/-- Failed attempts and the order of the attempts do not show in the result. -/
def RetriesInvisible (cfg : Config) : Prop :=
  ∀ (lib : Librosa K) acts acts' w w' id q,
    World.empty.runIf cfg (World.undisturbed .strict) acts = some w →
    (∀ a ∈ acts, a.Within (· = lib)) → Created w.shared id.str q → Succeeded w id.str →
    World.empty.runIf cfg (World.undisturbed .strict) acts' = some w' →
    (∀ a ∈ acts', a.Within (· = lib)) → Created w'.shared id.str q → Succeeded w' id.str →
    SameResult cfg q id w.shared w'.shared

/-- The beatmap of a finished map job was made for it. -/
theorem Finished.made {s : Shared K} {b : ObjectId} {doc : BeatmapDoc K}
    (h : Finished cfg q id s b doc) (hs : Legit cfg P s) :
    ∃ made now, BeatmapMade cfg P s made ∧ made.jobId = id.str ∧ doc = made.document now := by
  have hmem : (b, doc) ∈ s.beatmaps.select fun doc => doc.jobId = id.str := by
    rw [h.beatmaps]
    exact List.mem_singleton_self _
  obtain ⟨hentry, hj⟩ := List.mem_filter.mp hmem
  obtain ⟨made, now, hmade, rfl⟩ := hs.beatmaps b doc (Collection.mem_entries.mp hentry)
  exact ⟨made, now, hmade, of_decide_eq_true hj, rfl⟩

/-- Two finished runs under one library agree. -/
theorem Finished.same {s t : Shared K} {b b' : ObjectId} {doc doc' : BeatmapDoc K}
    (hc : cfg.storage.Isolated) (hs : Legit cfg (· = lib) s) (ht : Legit cfg (· = lib) t)
    (hq : Created s id.str q) (hq' : Created t id.str q) (h : Finished cfg q id s b doc)
    (h' : Finished cfg q id t b' doc') : SameResult cfg q id s t := by
  have hagree {key : String} (hne : s.objects key ≠ none) (hne' : t.objects key ≠ none)
      (heq : ∀ x y, s.objects key = some x → t.objects key = some y → x = y) :
      s.objects key ≠ none ∧ s.objects key = t.objects key := by
    obtain ⟨x, hx⟩ := Option.ne_none_iff_exists'.mp hne
    obtain ⟨y, hy⟩ := Option.ne_none_iff_exists'.mp hne'
    exact ⟨hne, by rw [hx, hy, heq x y hx hy]⟩
  constructor
  · rintro key (rfl | rfl | rfl)
    · exact hagree h.original h'.original fun x y hx hy =>
        (hs.original_body hq hc hx).trans (ht.original_body hq' hc hy).symm
    · exact hagree h.drum h'.drum fun x y hx hy =>
        (hs.drum_separated hq hc hx).unique hc (ht.drum_separated hq' hc hy)
    · exact hagree h.melody h'.melody fun x y hx hy =>
        (hs.melody_separated hq hc hx).unique hc (ht.melody_separated hq' hc hy)
  · obtain ⟨made, now, hmade, hj, hdoc⟩ := h.made hs
    obtain ⟨made', now', hmade', hj', hdoc'⟩ := h'.made ht
    obtain rfl := hmade.unique hc hs ht hmade' (hj'.trans hj.symm) (hj ▸ hq) (hj ▸ hq')
    refine ⟨b, doc, b', doc', h, h', ?_⟩
    rw [hdoc, hdoc']
    rfl

theorem retries_invisible (hc : cfg.storage.Isolated) : RetriesInvisible (K := K) cfg := by
  intro lib acts acts' w w' id q hrun hacts hq hsucceeded hrun' hacts' hq' hsucceeded'
  have hsim := (Sim.empty (P := (· = lib))).run_undisturbed Locked.empty hacts hrun
  have hsim' := (Sim.empty (P := (· = lib))).run_undisturbed Locked.empty hacts' hrun'
  obtain ⟨b, doc, hfinished⟩ := hsim.finished rfl rfl hq hsucceeded
  obtain ⟨b', doc', hfinished'⟩ := hsim'.finished rfl rfl hq' hsucceeded'
  exact hfinished.same hc hsim.legit.shared hsim'.legit.shared hq hq' hfinished'

end Runs

namespace Sample

def straight (f : UploadFile) : List (Act ℚ) := .request f none :: acts.tail

/-- The storage refuses the second stem once, and the children finish in the other order. -/
def retried (f : UploadFile) : List (Act ℚ) :=
  .request f none :: creation.tail ++ .start ⟨0, none⟩ :: steps 1 7 ++
  [.step 1 (.raised unavailable), .finish 1, .promote ⟨0, none⟩, .start ⟨0, none⟩] ++ steps 2 9 ++
  [.finish 2, .start ⟨1, some 0⟩, .start ⟨1, some 1⟩] ++ steps 3 4 ++ steps 4 4 ++
  [.finish 4, .finish 3, .start ⟨1, none⟩] ++ steps 5 3 ++ [.finish 5]

theorem straight_within {P : Librosa ℚ → Prop} (h : P lib) (f : UploadFile) :
    ∀ a ∈ straight f, a.Within P := by
  intro a ha
  rcases List.mem_cons.mp ha with rfl | hrest
  · trivial
  · exact acts_within h a (List.mem_of_mem_tail hrest)

theorem retried_within {P : Librosa ℚ → Prop} (h : P lib) (f : UploadFile) :
    ∀ a ∈ retried f, a.Within P := by
  have hcreation : ∀ a ∈ creation.tail, a.Within P := fun a ha =>
    acts_within h a (by simp [acts, List.mem_of_mem_tail ha])
  have hraised : (Act.step 1 (.raised unavailable)).Within P := fun env h => by cases h
  have hsteps := steps_within h
  simp only [retried, List.forall_mem_append, List.forall_mem_cons]
  simpa [Act.within_of_ne_step, hraised] using
    (⟨⟨⟨⟨⟨hcreation, hsteps 1 7⟩, hsteps 2 9⟩, hsteps 3 4⟩, hsteps 4 4⟩, hsteps 5 3⟩ :
      (((((∀ a ∈ creation.tail, a.Within P) ∧ _) ∧ _) ∧ _) ∧ _) ∧ _)

def succeeded (f : UploadFile) (w : World ℚ) : Bool :=
  (w.shared.history.any fun ev => ev.creates = some (objectId 1).str &&
    match ev.task with
    | .api f' none => f' = f
    | _ => false) &&
  ((w.job? ⟨0, none⟩).any fun job => job.spec.queueName = stemSeparationQueueName &&
    job.spec.data.field? "job_id" Json.str? = some (objectId 1).str) &&
  w.shared.flows.all fun F => F.root.state.isCompleted &&
    F.children.all fun job => job.state.isCompleted

theorem of_succeeded {f : UploadFile} {w : World ℚ} (h : succeeded f w = true) :
    Created w.shared (objectId 1).str ⟨f, none⟩ ∧ Succeeded w (objectId 1).str := by
  simp only [succeeded, Bool.and_eq_true, List.any_eq_true, Option.any_eq_true,
    decide_eq_true_eq] at h
  obtain ⟨⟨⟨ev, hev, hcreates, htask⟩, job, hjob, hqueue, hdata⟩, hall⟩ := h
  refine ⟨?_, ⟨job, ⟨_, hjob⟩, hqueue, hdata⟩, fun _ job ⟨⟨_, hjob⟩, _⟩ =>
    World.forall_job (p := fun job => job.state.isCompleted) hall hjob⟩
  obtain ⟨i, task, eff, r⟩ := ev
  split at htask
  next f' hf' =>
    obtain rfl : f' = f := of_decide_eq_true htask
    subst hf'
    cases eff with
    | insertMapJob n => exact ⟨i, n, r, hev, hcreates⟩
    | _ => cases hcreates
  next => cases htask

end Sample

open Sample in
/-- A refused stem and another order of the children, under the default settings. -/
theorem retries_invisible_sample : ∃ w w',
    World.empty.runIf {} (World.undisturbed .strict) (straight file) = some w ∧
    World.empty.runIf {} (World.undisturbed .strict) (retried file) = some w' ∧
    SameResult {} ⟨file, none⟩ (objectId 1) w.shared w'.shared := by
  have hstraight : (World.empty.runIf {} (World.undisturbed .strict)
      (straight file)).any (succeeded file) = true := by decide +kernel
  have hretried : (World.empty.runIf {} (World.undisturbed .strict)
      (retried file)).any (succeeded file) = true := by decide +kernel
  obtain ⟨w, hw, hdone⟩ := (Option.any_eq_true _ _).mp hstraight
  obtain ⟨w', hw', hdone'⟩ := (Option.any_eq_true _ _).mp hretried
  obtain ⟨hq, hs⟩ := of_succeeded hdone
  obtain ⟨hq', hs'⟩ := of_succeeded hdone'
  exact ⟨w, w', hw, hw', retries_invisible MapsStorageConfig.isolated_default lib _ _ w w' _ _ hw
    (straight_within (P := (· = lib)) rfl file) hq hs hw'
    (retried_within (P := (· = lib)) rfl file) hq' hs'⟩

namespace Sample

def oneDirectory : Config := { storage := { separatedDir := "original" } }

def drumFile : UploadFile := ⟨some "drum.wav", some "audio/mpeg", none, [7]⟩

def drumIs (body : Bytes) (w : World ℚ) : Bool :=
  w.shared.objects (oneDirectory.storage.drumKey (objectId 1).str) = some body

end Sample

open Sample in
/-- An upload named like the drum stem, and one directory for both: the attempt that follows the
refused one separates the drum stem of the first. -/
theorem not_retriesInvisible : ¬ RetriesInvisible (K := ℚ) oneDirectory := by
  intro h
  have hstraight : (World.empty.runIf oneDirectory (World.undisturbed .strict)
      (straight drumFile)).any (fun w => succeeded drumFile w && drumIs [0, 7] w) = true := by
    decide +kernel
  have hretried : (World.empty.runIf oneDirectory (World.undisturbed .strict)
      (retried drumFile)).any (fun w => succeeded drumFile w && drumIs [0, 0, 7] w) = true := by
    decide +kernel
  obtain ⟨w, hw, hdone⟩ := (Option.any_eq_true _ _).mp hstraight
  obtain ⟨w', hw', hdone'⟩ := (Option.any_eq_true _ _).mp hretried
  obtain ⟨hdone, hdrum⟩ := Bool.and_eq_true_iff.mp hdone
  obtain ⟨hdone', hdrum'⟩ := Bool.and_eq_true_iff.mp hdone'
  obtain ⟨hq, hs⟩ := of_succeeded hdone
  obtain ⟨hq', hs'⟩ := of_succeeded hdone'
  obtain ⟨hobjects, -⟩ := h lib _ _ w w' _ _ hw
    (straight_within (P := (· = lib)) rfl drumFile) hq hs hw'
    (retried_within (P := (· = lib)) rfl drumFile) hq' hs'
  have hsame := (hobjects _ (Or.inr (Or.inl rfl))).2
  rw [of_decide_eq_true hdrum, of_decide_eq_true hdrum'] at hsame
  exact absurd hsame (by decide)

end Maps
