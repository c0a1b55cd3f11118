import BeatmapBackend.Maps.Children
import BeatmapBackend.Maps.Runs

/-! The notes of the two child jobs on their way into the response of the API: through the
results in Redis, the stored document and the models that read it back. -/
namespace Maps
open Effects Wire Queues Program Collections

variable {K : Type} [Field K] [LinearOrder K] [FloorRing K]

/-- The children's values arrive completely, in the order the environment chose. -/
theorem exec_children {F : PipelineFlow K} {kick melody : Job ℕ (Json K) (Json K)}
    (hchildren : TwoChildren F kick melody) {k m : Json K} (hk : kick.state = .completed k)
    (hm : melody.state = .completed m) {env : Env K}
    (horder : env.childOrder.Perm (List.range 2)) {s : Shared K} {ref : JobRef}
    (hF : s.flows[ref.flow]? = some F) : ∃ values,
      exec env s (.getChildrenValues ref) = some (values, s) ∧
      childResult values kickOnsetQueueName = .ok k ∧
      childResult values melodyExtractionQueueName = .ok m := by
  have hlen : (childrenValues F).length = 2 := by
    simp [childrenValues, hchildren.children, hk, hm]
  have hexec : exec env s (.getChildrenValues ref) =
      some (env.childOrder.filterMap ((childrenValues F)[·]?), s) := by
    simp [exec, hF, hlen, horder]
  obtain ⟨G, hG, -, hmem⟩ := exec_getChildrenValues hexec
  obtain rfl := Option.some.inj (hF.symm.trans hG)
  exact ⟨_, hexec, hchildren.childResults_of_completed hmem hk hm⟩

theorem exec_insertBeatmap {env : Env K} {s : Shared K} {b : NewBeatmap K}
    {c : Collection ObjectId (BeatmapDoc K)}
    (hc : s.beatmaps.insertOne env.newId (b.document env.now) = some c) :
    exec env s (.insertBeatmap b) = some (env.newId.str, { s with beatmaps := c }) := by
  simp only [exec, hc, Option.map_some]

theorem exec_markJobCompleted {env : Env K} {s : Shared K} {j : String} {id : ObjectId}
    (hj : j = id.str) (b : String) : exec env s (.markJobCompleted j b) =
      some ((), { s with mapJobs := s.mapJobs.updateOne id (.markCompleted b) }) := by
  simp only [exec, Shared.updateJob, hj, ObjectId.parse_str, Option.map_some]

/-- With both children completed the orchestration job stores their notes. -/
theorem beatmapHandler_succeeds {F : PipelineFlow K}
    {kick melody : Job ℕ (Json K) (Json K)} (hchildren : TwoChildren F kick melody)
    {k m : List (Note K)} (hk : kick.state = .completed (KickDetectionResult.modelDump ⟨k⟩))
    (hm : melody.state = .completed (MelodyExtractionResult.modelDump ⟨m⟩))
    {payload : OrchestrateBeatmapJobPayload} {job : JobView K}
    (hdata : job.data = payload.modelDump) {id : ObjectId} (hid : payload.jobId = id.str)
    {env : Env K} (horder : env.childOrder.Perm (List.range 2)) {s : Shared K}
    (hF : s.flows[job.ref.flow]? = some F) {c : Collection ObjectId (BeatmapDoc K)}
    (hc : s.beatmaps.insertOne env.newId
      ((BeatmapHandler.newBeatmap payload (⟨k⟩, ⟨m⟩)).document env.now) = some c) (i : ℕ) :
    ∃ t, (BeatmapHandler.call job).solo (Shared.alone i (.worker job) env fun _ => none) s =
        some (.ok (.obj [("beatmap_id", .str env.newId.str)]), t) ∧ t.beatmaps = c := by
  obtain ⟨values, hvalues, hkick, hmelody⟩ := exec_children hchildren hk hm horder hF
  have hresults : childResults values = .ok (⟨k⟩, ⟨m⟩) :=
    childResults_eq_ok.mpr ⟨_, _, hkick, hmelody, by simp, by simp⟩
  let alone (e : Eff K) := Shared.alone i (.worker job) env (fun _ => none) e
  have hinsert (event : Event K) : alone (.insertBeatmap _) (s.record event) = some (.done _, _) :=
    Shared.alone_done rfl (exec_insertBeatmap (s := s.record event) hc)
  have hmark (s' : Shared K) :
      alone (.markJobCompleted payload.jobId env.newId.str) s' = some (.done (), _) :=
    Shared.alone_done rfl (exec_markJobCompleted hid _)
  have hprocess : ∃ t, (BeatmapHandler.process job.ref job.data).solo
      (Shared.alone i (.worker job) env fun _ => none) s =
        some (.ok (.obj [("beatmap_id", .str env.newId.str)]), t) ∧ t.beatmaps = c := by
    rw [BeatmapHandler.process, hdata, OrchestrateBeatmapJobPayload.modelValidate_modelDump,
      lift_ok_bind, solo_perform_bind (Shared.alone_done rfl hvalues), hresults, lift_ok_bind,
      finalizeBeatmap, Program.bind_assoc,
      solo_perform_bind (hinsert _), Program.bind_assoc]
    rw [BeatmapHandler.newBeatmap, solo_perform_bind (hmark _)]
    exact ⟨_, rfl, rfl⟩
  obtain ⟨t, hrun, ht⟩ := hprocess
  exact ⟨t, solo_recover_ok hrun, ht⟩

/-- In every reachable state the stored songs were written by `insert_beatmap`. -/
theorem stored_of_run {cfg : Config} {acts : List (Act K)} {w : World K}
    (h : World.empty.run cfg acts = some w) :
    ∀ x ∈ w.shared.beatmaps.entries, ∃ (b : NewBeatmap K) (now : ℤ), x.2 = b.document now := by
  rintro ⟨id, d⟩ hx
  have hlegit := (worldLegit_empty.run (fun a _ => a.within_true) h).1.shared
  obtain ⟨b, now, -, hd⟩ := hlegit.beatmaps id d (Collection.mem_entries.mp hx)
  exact ⟨b, now, hd⟩

/-- Documents that `insert_beatmap` wrote are all listed. -/
theorem listBeatmaps_of_documents (cfg : Config) {s : Shared K}
    (h : ∀ x ∈ s.beatmaps.entries, ∃ (b : NewBeatmap K) (now : ℤ), x.2 = b.document now)
    {found : List (ObjectId × BeatmapDoc K)} (hfound : s.Lists found) :
    ∃ all, listBeatmaps cfg found = .ok all ∧ ∀ id d, (id, d) ∈ s.beatmaps.entries →
      ∀ shown, toBeatmap cfg id d = .ok shown → shown ∈ all := by
  have hok : ∀ x ∈ found, ∃ shown, toBeatmap cfg x.1 x.2 = .ok shown := by
    rintro ⟨id, d⟩ hx
    obtain ⟨b, now, rfl⟩ := h _ (hfound.perm.mem_iff.mp hx)
    exact ⟨_, toBeatmap_document cfg id now b⟩
  obtain ⟨all, hall⟩ := except_mapM_isOk hok
  refine ⟨all, hall, fun id d hx shown hshown => ?_⟩
  obtain ⟨y, hy, hmem⟩ := except_mapM_mem hall (hfound.perm.mem_iff.mpr hx)
  rw [hshown, Except.ok.injEq] at hy
  rwa [hy]

/-- A song as the API shows it, with the notes of the kick job in the first group and those
of the melody job in the second. -/
structure ShownAs (payload : OrchestrateBeatmapJobPayload) (k m : List (Note K))
    (b : Beatmap K) : Prop where
  title : b.title = payload.originalFilename
  duration : b.duration = payload.duration
  bpm : b.bpm = some payload.bpm
  drums : b.notes.1 = ⟨payload.laneCount, k.map Note.shown⟩
  melody : b.notes.2 = ⟨payload.laneCount, m.map Note.shown⟩

/-- The notes are shown as they were returned, and the song is listed. -/
theorem notes_survive {cfg : Config} {F : PipelineFlow K}
    {kick melody : Job ℕ (Json K) (Json K)} (hchildren : TwoChildren F kick melody)
    {k m : List (Note K)} (hk : kick.state = .completed (KickDetectionResult.modelDump ⟨k⟩))
    (hm : melody.state = .completed (MelodyExtractionResult.modelDump ⟨m⟩))
    {payload : OrchestrateBeatmapJobPayload} {job : JobView K}
    (hdata : job.data = payload.modelDump) {id : ObjectId} (hid : payload.jobId = id.str)
    {env : Env K} (horder : env.childOrder.Perm (List.range 2)) {s : Shared K}
    (hF : s.flows[job.ref.flow]? = some F) (hfresh : s.beatmaps.findOne env.newId = none)
    (hstored : ∀ x ∈ s.beatmaps.entries, ∃ (b : NewBeatmap K) (now : ℤ), x.2 = b.document now)
    (i : ℕ) : ∃ t shown,
      (BeatmapHandler.call job).solo (Shared.alone i (.worker job) env fun _ => none) s =
        some (.ok (.obj [("beatmap_id", .str env.newId.str)]), t) ∧
      getBeatmap cfg t env.newId.str = .ok shown ∧ ShownAs payload k m shown ∧
      ∀ found, t.Lists found → ∃ all, listBeatmaps cfg found = .ok all ∧ shown ∈ all := by
  obtain ⟨c, hc⟩ := Collection.insertOne_isSome hfresh
    ((BeatmapHandler.newBeatmap payload (⟨k⟩, ⟨m⟩)).document env.now)
  obtain ⟨t, hrun, rfl⟩ := beatmapHandler_succeeds hchildren hk hm hdata hid horder hF hc i
  have hfind := Collection.findOne_insertOne hc env.newId
  rw [if_pos rfl] at hfind
  have hget : getBeatmap cfg t env.newId.str = _ := getBeatmap_of_findOne hfind
  have hall : ∀ x ∈ t.beatmaps.entries, ∃ (b : NewBeatmap K) (now : ℤ),
      x.2 = b.document now := by
    intro x hx
    rw [(Collection.insertOne_eq_some.mp hc).2, List.mem_append, List.mem_singleton] at hx
    rcases hx with hold | rfl
    · exact hstored x hold
    · exact ⟨_, _, rfl⟩
  refine ⟨t, _, hrun, hget, ⟨rfl, rfl, rfl, rfl, rfl⟩, fun found hfound => ?_⟩
  obtain ⟨all, hlist, hmem⟩ := listBeatmaps_of_documents cfg hall hfound
  exact ⟨all, hlist, hmem _ _ (Collection.mem_entries.mpr hfind) _ (toBeatmap_document cfg _ _ _)⟩

namespace Sample

def drumNote : Note ℚ := ⟨93, 2, 1 / 2, .drum, none, 1⟩

def melodyNote : Note ℚ := ⟨140, 0, 1 / 4, .melody, some 250, 1⟩

def payload : OrchestrateBeatmapJobPayload :=
  ⟨(objectId 1).str, (objectId 1).str ++ "/original/song.mp3", "song.mp3", 4, 2000, 120⟩

def songFlow : PipelineFlow ℚ :=
  let flow : PipelineFlow ℚ := .add (fun n => ⟨if n = 1 then "0a-1" else "-", by split <;> simp⟩)
    (buildGenerateBeatmapFlow {} payload.jobId payload.objectKey payload.originalFilename
      payload.laneCount payload.duration payload.bpm)
  (flow.complete (some 1) (MelodyExtractionResult.modelDump ⟨[melodyNote]⟩)).complete (some 0)
    (KickDetectionResult.modelDump ⟨[drumNote]⟩)

def orchestration : JobView ℚ :=
  ⟨⟨0, none⟩, beatmapOrchestrationQueueName, payload.modelDump, some 3, 0⟩

end Sample

open Sample in
theorem notes_survive_sample : ∃ t shown,
    (BeatmapHandler.call orchestration).solo
        (Shared.alone 4 (.worker orchestration) (env 2) fun _ => none)
        { Shared.empty with flows := [songFlow] } =
      some (.ok (.obj [("beatmap_id", .str (objectId 2).str)]), t) ∧
    getBeatmap {} t (objectId 2).str = .ok shown ∧
    ShownAs payload [drumNote] [melodyNote] shown ∧
    ∀ found, t.Lists found → ∃ all, listBeatmaps {} found = .ok all ∧ shown ∈ all :=
  notes_survive (F := songFlow) (k := [drumNote]) (m := [melodyNote]) ⟨rfl, rfl, rfl⟩ rfl rfl rfl
    rfl (List.Perm.swap 0 1 []) rfl rfl (by simp [Shared.empty]) 4

end Maps
