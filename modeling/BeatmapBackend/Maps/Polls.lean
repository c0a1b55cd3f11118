import BeatmapBackend.Maps.NotesSurvive
import BeatmapBackend.Maps.Spacing

/-! What a client has read from the API stays true. A poll never goes back to an earlier
answer, and the song list only grows, each song where it was among the others. -/
namespace Maps
open Effects Wire Queues Collections

variable {K : Type}

structure MapJobDoc.Later (d d' : MapJobDoc) : Prop where
  name : d'.originalFilename = d.originalFilename
  lanes : d'.laneCount = d.laneCount
  queued : d'.status = .queued → d.status = .queued
  objectKey : d'.objectKey = none → d.objectKey = none
  beatmapId : d'.beatmapId = none → d.beatmapId = none
  error : d'.error = none → d.error = none

namespace MapJobDoc

theorem Later.refl (d : MapJobDoc) : d.Later d := ⟨rfl, rfl, id, id, id, id⟩

theorem Later.trans {d d' d'' : MapJobDoc} (h : d.Later d') (h' : d'.Later d'') : d.Later d'' where
  name := h'.name.trans h.name
  lanes := h'.lanes.trans h.lanes
  queued hq := h.queued (h'.queued hq)
  objectKey hk := h.objectKey (h'.objectKey hk)
  beatmapId hb := h.beatmapId (h'.beatmapId hb)
  error he := h.error (h'.error he)

theorem later_setObjectKey (d : MapJobDoc) (key : String) : d.Later (d.setObjectKey key) :=
  ⟨rfl, rfl, id, nofun, id, id⟩

theorem later_markProcessing (d : MapJobDoc) : d.Later d.markProcessing :=
  ⟨rfl, rfl, nofun, id, id, id⟩

theorem later_markCompleted (d : MapJobDoc) (b : String) : d.Later (d.markCompleted b) :=
  ⟨rfl, rfl, nofun, id, nofun, id⟩

theorem later_markFailed (d : MapJobDoc) (text : String) : d.Later (d.markFailed text) :=
  ⟨rfl, rfl, nofun, id, id, nofun⟩

end MapJobDoc

structure MapJobOut.Later (out out' : MapJobOut) : Prop where
  jobId : out'.jobId = out.jobId
  queued : out'.status = .queued → out.status = .queued
  beatmapId : out'.beatmapId = none → out.beatmapId = none
  error : out'.error = none → out.error = none

/-- Nothing a client could have read from `s` is taken back in `t`. -/
structure Extends (s t : Shared K) : Prop where
  docs : ∀ id d, s.mapJobs.findOne id = some d →
    ∃ d', t.mapJobs.findOne id = some d' ∧ d.Later d'
  beatmaps : s.beatmaps.entries <+: t.beatmaps.entries

namespace Extends

variable {s t u : Shared K}

theorem of_same (hdocs : t.mapJobs = s.mapJobs) (hbeatmaps : t.beatmaps = s.beatmaps) :
    Extends s t :=
  ⟨fun _ d hd => ⟨d, hdocs ▸ hd, .refl d⟩, hbeatmaps ▸ List.prefix_refl _⟩

theorem trans (h : Extends s t) (h' : Extends t u) : Extends s u where
  docs id d hd := by
    obtain ⟨d', hd', hlater⟩ := h.docs id d hd
    obtain ⟨d'', hd'', hlater'⟩ := h'.docs id d' hd'
    exact ⟨d'', hd'', hlater.trans hlater'⟩
  beatmaps := h.beatmaps.trans h'.beatmaps

/-- An update that takes nothing back. -/
theorem updateJob {j : String} {f : MapJobDoc → MapJobDoc} {a : Unit}
    (h : s.updateJob j f = some (a, t)) (hf : ∀ d : MapJobDoc, d.Later (f d)) : Extends s t := by
  obtain ⟨id, -, h⟩ := Option.map_eq_some_iff.mp h
  obtain ⟨-, rfl⟩ := Prod.mk.inj h
  refine ⟨fun i d hd => ?_, List.prefix_refl _⟩
  have hfind := Collection.findOne_updateOne s.mapJobs id f i
  by_cases hi : i = id
  · rw [if_pos hi, hd] at hfind
    exact ⟨f d, hfind, hf d⟩
  · rw [if_neg hi, hd] at hfind
    exact ⟨d, hfind, .refl d⟩

variable [Field K] [LinearOrder K] [FloorRing K]

theorem of_exec {env : Env K} {e : Eff K} {a : Ans e} (h : exec env s e = some (a, t)) :
    Extends s t := by
  cases e with
  | insertMapJob job =>
    obtain ⟨c, hc, h⟩ := Option.map_eq_some_iff.mp h
    obtain ⟨-, rfl⟩ := Prod.mk.inj h
    refine ⟨fun id d hd => ⟨d, ?_, .refl d⟩, List.prefix_refl _⟩
    have hne : id ≠ env.newId := by
      rintro rfl
      simp [(Collection.insertOne_eq_some.mp hc).1] at hd
    exact (Collection.findOne_insertOne hc id).trans ((if_neg hne).trans hd)
  | insertBeatmap b =>
    obtain ⟨c, hc, h⟩ := Option.map_eq_some_iff.mp h
    obtain ⟨-, rfl⟩ := Prod.mk.inj h
    refine ⟨fun _ d hd => ⟨d, hd, .refl d⟩, ?_⟩
    exact ⟨[(env.newId, b.document env.now)], (Collection.insertOne_eq_some.mp hc).2.symm⟩
  | setJobObjectKey j key => exact updateJob h (MapJobDoc.later_setObjectKey · key)
  | markJobProcessing j => exact updateJob h MapJobDoc.later_markProcessing
  | markJobCompleted j b => exact updateJob h (MapJobDoc.later_markCompleted · b)
  | markJobFailed j text =>
    cases j with
    | none =>
      obtain ⟨-, rfl⟩ := Prod.mk.inj (Option.some.inj h)
      exact of_same rfl rfl
    | some j => exact updateJob h (MapJobDoc.later_markFailed · text)
  | upload | addFlow =>
    obtain ⟨-, rfl⟩ := Prod.mk.inj (Option.some.inj h)
    exact of_same rfl rfl
  | _ =>
    obtain rfl := exec_quiet rfl h
    exact of_same rfl rfl

theorem of_perform {i : ℕ} {task : Task K} {e : Eff K} {o : Outcome K} {r : Reply (Ans e) Exc}
    (h : s.perform i task e o = some (r, t)) : Extends s t := by
  rcases perform_cases h with ⟨env, a, u, -, hexec, -, rfl⟩ | ⟨-, rfl⟩
  · exact (of_exec hexec).trans (of_same rfl rfl)
  · exact of_same rfl rfl

variable {cfg : Config} {w w' : World K}

theorem of_act {a : Act K} (hact : w.act cfg a = some w') : Extends w.shared w'.shared := by
  rcases World.act_shared hact with ⟨flows, hsame⟩ | ⟨i, outcome, task, e, k, r, -, -, hperform⟩
  · rw [hsame]
    exact of_same rfl rfl
  · exact of_perform hperform

theorem of_run {more : List (Act K)} (hmore : w.run cfg more = some w') :
    Extends w.shared w'.shared :=
  World.run_invariant (I := fun v => Extends w.shared v.shared) (Q := fun _ => True)
    (fun _ _ _ h _ hact => h.trans (of_act hact)) (of_same rfl rfl) (fun _ _ => trivial) hmore

end Extends

section Listing

variable [Field K] [LinearOrder K] [FloorRing K] {cfg : Config} {w w' : World K}
  {acts : List (Act K)} {found : List (ObjectId × BeatmapDoc K)}

/-- What the API shows of a stored song. -/
def Shows (cfg : Config) (x : ObjectId × BeatmapDoc K) (shown : Beatmap K) : Prop :=
  ∃ (b : NewBeatmap K) (now : ℤ), x.2 = b.document now ∧ shown = b.shown cfg x.1 now

namespace Shows

variable {x : ObjectId × BeatmapDoc K} {shown : Beatmap K}

theorem toBeatmap_eq (h : Shows cfg x shown) : toBeatmap cfg x.1 x.2 = .ok shown := by
  obtain ⟨b, now, hx, rfl⟩ := h
  rw [hx, toBeatmap_document]

omit [Field K] [LinearOrder K] [FloorRing K] in
theorem id_eq (h : Shows cfg x shown) : shown.id = x.1.str := by
  obtain ⟨b, now, -, rfl⟩ := h
  rfl

omit [Field K] [LinearOrder K] [FloorRing K] in
theorem createdAt_eq (h : Shows cfg x shown) : shown.createdAt = x.2.createdAt := by
  obtain ⟨b, now, hx, rfl⟩ := h
  rw [hx]
  rfl

end Shows

/-- In a reachable state a stored song is shown as it is stored. -/
theorem shows_of_run (hrun : World.empty.run cfg acts = some w) {x : ObjectId × BeatmapDoc K}
    (hx : x ∈ w.shared.beatmaps.entries) : ∃ shown, Shows cfg x shown := by
  obtain ⟨b, now, hb⟩ := stored_of_run hrun x hx
  exact ⟨_, b, now, hb, rfl⟩

theorem getBeatmap_eq_ok {s : Shared K} {b : String} {shown : Beatmap K} :
    getBeatmap cfg s b = .ok shown ↔ ∃ id d, ObjectId.parse b = some id ∧
      s.beatmaps.findOne id = some d ∧ toBeatmap cfg id d = .ok shown := by
  unfold getBeatmap
  cases hid : ObjectId.parse b with
  | none => simp
  | some id =>
    cases hd : s.beatmaps.findOne id with
    | none => simp [hd]
    | some d => simp [hd]

/-- A song has a page when it is stored. -/
theorem getBeatmap_of_run (hrun : World.empty.run cfg acts = some w) {b : String}
    {shown : Beatmap K} : getBeatmap cfg w.shared b = .ok shown ↔
      ∃ x ∈ w.shared.beatmaps.entries, ObjectId.parse b = some x.1 ∧ Shows cfg x shown := by
  rw [getBeatmap_eq_ok]
  constructor
  · rintro ⟨id, d, hparse, hd, hok⟩
    have hmem := Collection.mem_entries.mpr hd
    obtain ⟨shown', hshows⟩ := shows_of_run hrun hmem
    obtain rfl := Except.ok.inj (hok.symm.trans hshows.toBeatmap_eq)
    exact ⟨(id, d), hmem, hparse, hshows⟩
  · rintro ⟨⟨id, d⟩, hmem, hparse, hshows⟩
    exact ⟨id, d, hparse, Collection.mem_entries.mp hmem, hshows.toBeatmap_eq⟩

/-- The song list shows what the database found, each song as it is stored. -/
theorem listBeatmaps_of_run (hrun : World.empty.run cfg acts = some w)
    (hfound : w.shared.Lists found) : ∃ all, listBeatmaps cfg found = .ok all ∧
      List.Forall₂ (Shows cfg) found all := by
  have hshows : ∀ x ∈ found, ∃ shown, Shows cfg x shown := fun x hx =>
    shows_of_run hrun (hfound.perm.mem_iff.mp hx)
  obtain ⟨all, hall⟩ := except_mapM_isOk fun x hx => (hshows x hx).imp fun _ h => h.toBeatmap_eq
  refine ⟨all, hall, List.Forall₂.imp ?_ ((List.forall₂_and_left found all).mpr
    ⟨hshows, except_mapM_eq_ok.mp hall⟩)⟩
  rintro x shown ⟨⟨shown', h⟩, hok⟩
  rwa [Except.ok.inj (hok.symm.trans h.toBeatmap_eq)]

/-- Every stored song is listed, and nothing else is. -/
theorem mem_listed (hrun : World.empty.run cfg acts = some w) (hfound : w.shared.Lists found)
    {all : List (Beatmap K)} (hall : listBeatmaps cfg found = .ok all) {shown : Beatmap K} :
    shown ∈ all ↔ ∃ x ∈ w.shared.beatmaps.entries, Shows cfg x shown := by
  constructor
  · intro hmem
    obtain ⟨x, hx, hok⟩ := except_mapM_source hall hmem
    have hx := hfound.perm.mem_iff.mp hx
    obtain ⟨shown', hshows⟩ := shows_of_run hrun hx
    obtain rfl := Except.ok.inj (hok.symm.trans hshows.toBeatmap_eq)
    exact ⟨x, hx, hshows⟩
  · rintro ⟨x, hx, hshows⟩
    obtain ⟨y, hy, hmem⟩ := except_mapM_mem hall (hfound.perm.mem_iff.mpr hx)
    rwa [Except.ok.inj (hshows.toBeatmap_eq.symm.trans hy)]

omit [Field K] [LinearOrder K] [FloorRing K] in
/-- The newest songs come first. -/
theorem listed_sorted (hfound : w.shared.Lists found) {all : List (Beatmap K)}
    (hall : List.Forall₂ (Shows cfg) found all) :
    all.Pairwise fun a b => b.createdAt ≤ a.createdAt := by
  have htimes : found.map (fun x => x.2.createdAt) = all.map Beatmap.createdAt := by
    rw [← List.forall₂_eq_eq_eq, List.forall₂_map_left_iff, List.forall₂_map_right_iff]
    exact hall.imp fun _ _ h => h.createdAt_eq.symm
  have hsorted : (found.map fun x => x.2.createdAt).Pairwise fun s t => t ≤ s :=
    List.pairwise_map.mpr hfound.sorted
  rw [htimes] at hsorted
  exact List.pairwise_map.mp hsorted

/-- In every reachable state the song list can be read, in whatever order the database returns
songs of one time. It shows every stored song once, newest first, each as its own page shows it,
and the song of every poll is among them. -/
theorem listing_coherent (hrun : World.empty.run cfg acts = some w)
    (hfound : w.shared.Lists found) :
    ∃ all, listBeatmaps cfg found = .ok all ∧
      all.Pairwise (fun a b => b.createdAt ≤ a.createdAt) ∧ (all.map Beatmap.id).Nodup ∧
      (∀ b shown, getBeatmap cfg w.shared b = .ok shown ↔
        shown ∈ all ∧ ObjectId.parse b = ObjectId.parse shown.id) ∧
      ∀ j out b, getJobStatus w.shared j = .ok out → out.beatmapId = some b →
        ∃ shown ∈ all, shown.id = b := by
  have hsound := ((worldLegit_empty (P := fun _ => True)).run
    (fun a _ => a.within_true) hrun).1.shared
  obtain ⟨all, hall, hshows⟩ := listBeatmaps_of_run hrun hfound
  refine ⟨all, hall, listed_sorted hfound hshows, ?_, fun b shown => ?_, fun j out b hout hb => ?_⟩
  · have hids : found.map (fun x => x.1.str) = all.map Beatmap.id := by
      rw [← List.forall₂_eq_eq_eq, List.forall₂_map_left_iff, List.forall₂_map_right_iff]
      exact hshows.imp fun _ _ h => h.id_eq.symm
    have hnodup := ((hfound.perm.map Prod.fst).nodup_iff.mpr w.shared.beatmaps.nodup).map
      ObjectId.str_injective
    rw [← hids]
    rwa [List.map_map] at hnodup
  · rw [getBeatmap_of_run hrun, mem_listed hrun hfound hall]
    constructor
    · rintro ⟨x, hx, hparse, h⟩
      exact ⟨⟨x, hx, h⟩, by rw [hparse, h.id_eq, ObjectId.parse_str]⟩
    · rintro ⟨⟨x, hx, h⟩, hparse⟩
      exact ⟨x, hx, by rw [hparse, h.id_eq, ObjectId.parse_str], h⟩
  · obtain ⟨id, d, -, hd, rfl⟩ := getJobStatus_eq_ok hout
    obtain ⟨bid, doc, rfl, hdoc, -⟩ := (hsound.docs id d hd).beatmap b hb
    have hmem := Collection.mem_entries.mpr hdoc
    obtain ⟨shown, h⟩ := shows_of_run hrun hmem
    exact ⟨shown, (mem_listed hrun hfound hall).mpr ⟨_, hmem, h⟩, h.id_eq⟩

open Sample in
theorem listing_coherent_sample : ∃ (w : World ℚ) (found : List (ObjectId × BeatmapDoc ℚ)),
    World.empty.run {} struckTwice = some w ∧ found.length = 2 ∧ w.shared.Lists found ∧
    ∃ all, listBeatmaps {} found = .ok all ∧
      all.Pairwise (fun a b => b.createdAt ≤ a.createdAt) ∧ (all.map Beatmap.id).Nodup ∧
      (∀ b shown, getBeatmap {} w.shared b = .ok shown ↔
        shown ∈ all ∧ ObjectId.parse b = ObjectId.parse shown.id) ∧
      ∀ j out b, getJobStatus w.shared j = .ok out → out.beatmapId = some b →
        ∃ shown ∈ all, shown.id = b := by
  have hsome : (World.empty.run {} struckTwice).any fun w =>
      w.shared.beatmaps.entries.length = 2 := by decide +kernel
  obtain ⟨w, hw, hlength⟩ := (Option.any_eq_true _ _).mp hsome
  obtain ⟨found, hfound⟩ := w.shared.exists_lists
  exact ⟨w, found, hw, hfound.perm.length_eq.trans (of_decide_eq_true hlength), hfound,
    listing_coherent hw hfound⟩

/-- Whatever the system does in between, a later answer agrees with an earlier one: a map job is
not queued again and loses neither its beatmap nor its error, a beatmap id that was shown once
stays valid, a song never changes, and the song list only gets new entries, songs of different
times in the order they had. -/
theorem polls_monotone {more : List (Act K)} (hrun : World.empty.run cfg acts = some w)
    (hmore : w.run cfg more = some w') {found' : List (ObjectId × BeatmapDoc K)}
    (hfound : w.shared.Lists found) (hfound' : w'.shared.Lists found') :
    (∀ j out, getJobStatus w.shared j = .ok out →
      (∃ out', getJobStatus w'.shared j = .ok out' ∧ out.Later out') ∧
      ∀ b, out.beatmapId = some b → ∃ shown, getBeatmap cfg w'.shared b = .ok shown) ∧
    (∀ b shown, getBeatmap cfg w.shared b = .ok shown → getBeatmap cfg w'.shared b = .ok shown) ∧
    ∃ all all', listBeatmaps cfg found = .ok all ∧ listBeatmaps cfg found' = .ok all' ∧
      all ⊆ all' ∧ ∀ a b, [a, b].Sublist all → a.createdAt ≠ b.createdAt →
        [a, b].Sublist all' := by
  have hext := Extends.of_run hmore
  have hrun' := (World.run_append hrun).trans hmore
  have hsound := ((worldLegit_empty (P := fun _ => True)).run
    (fun a _ => a.within_true) hrun).1.shared
  obtain ⟨all, hall, hshows⟩ := listBeatmaps_of_run hrun hfound
  obtain ⟨all', hall', hshows'⟩ := listBeatmaps_of_run hrun' hfound'
  have hsub : all ⊆ all' := fun shown hmem => by
    obtain ⟨x, hx, h⟩ := (mem_listed hrun hfound hall).mp hmem
    exact (mem_listed hrun' hfound' hall').mpr ⟨x, hext.beatmaps.subset hx, h⟩
  refine ⟨fun j out hout => ?_, fun b shown => ?_, all, all', hall, hall', hsub, ?_⟩
  · obtain ⟨id, d, hparse, hd, rfl⟩ := getJobStatus_eq_ok hout
    obtain ⟨d', hd', hlater⟩ := hext.docs id d hd
    refine ⟨⟨⟨id.str, d'.status, d'.beatmapId, d'.error⟩,
      by simp [getJobStatus, findMapJob, hparse, hd'], rfl, hlater.queued, hlater.beatmapId,
      hlater.error⟩, fun b hb => ?_⟩
    obtain ⟨bid, doc, rfl, hdoc, -⟩ := (hsound.docs id d hd).beatmap b hb
    have hmem := hext.beatmaps.subset (Collection.mem_entries.mpr hdoc)
    obtain ⟨shown, h⟩ := shows_of_run hrun' hmem
    exact ⟨shown, (getBeatmap_of_run hrun').mpr ⟨_, hmem, ObjectId.parse_str bid, h⟩⟩
  · rw [getBeatmap_of_run hrun, getBeatmap_of_run hrun']
    rintro ⟨x, hx, hparse, h⟩
    exact ⟨x, hext.beatmaps.subset hx, hparse, h⟩
  · intro a b hab hne
    exact sublist_of_pairwise (listed_sorted hfound hshows) (listed_sorted hfound' hshows') hsub hab
      fun hboth => hne (le_antisymm hboth.2 hboth.1)

open Sample in
theorem polls_monotone_sample : ∃ (w w' : World ℚ) (found found' : List (ObjectId × BeatmapDoc ℚ)),
    World.empty.run {} struckActs = some w ∧ w.run {} (struckSong 5 2 3 4) = some w' ∧
    w.shared.Lists found ∧ w'.shared.Lists found' ∧
    (∀ j out, getJobStatus w.shared j = .ok out →
      (∃ out', getJobStatus w'.shared j = .ok out' ∧ out.Later out') ∧
      ∀ b, out.beatmapId = some b → ∃ shown, getBeatmap {} w'.shared b = .ok shown) ∧
    (∀ b shown, getBeatmap {} w.shared b = .ok shown → getBeatmap {} w'.shared b = .ok shown) ∧
    ∃ all all', listBeatmaps {} found = .ok all ∧ listBeatmaps {} found' = .ok all' ∧
      all ⊆ all' ∧ ∀ a b, [a, b].Sublist all → a.createdAt ≠ b.createdAt →
        [a, b].Sublist all' := by
  have hsome : ((World.empty.run {} struckActs).bind fun w =>
      w.run {} (struckSong 5 2 3 4)).isSome = true := by decide +kernel
  obtain ⟨w', hw'⟩ := Option.isSome_iff_exists.mp hsome
  obtain ⟨w, hw, hmore⟩ := Option.bind_eq_some_iff.mp hw'
  obtain ⟨found, hfound⟩ := w.shared.exists_lists
  obtain ⟨found', hfound'⟩ := w'.shared.exists_lists
  exact ⟨w, w', found, found', hw, hmore, hfound, hfound', polls_monotone hw hmore hfound hfound'⟩

end Listing
end Maps
