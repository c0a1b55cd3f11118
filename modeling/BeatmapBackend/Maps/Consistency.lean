import BeatmapBackend.Maps.Runs

/-! What a client can rely on when it polls a job, in every run: attempts may raise at any
operation, be lost, stall and be delivered again. -/
namespace Maps
open Effects

variable {K : Type} [Field K] [LinearOrder K] [FloorRing K]

/-- A stored beatmap is shown as long as the system runs. -/
theorem WorldLegit.getBeatmap_ok {cfg : Config} {P : Librosa K → Prop} {w : World K}
    (h : WorldLegit cfg P w) {id : ObjectId} {d : BeatmapDoc K}
    (hd : w.shared.beatmaps.findOne id = some d) :
    ∃ beatmap, getBeatmap cfg w.shared id.str = .ok beatmap ∧ beatmap.id = id.str := by
  obtain ⟨b, now, -, rfl⟩ := h.shared.beatmaps id d hd
  exact ⟨_, getBeatmap_of_findOne hd, rfl⟩

/-- Every job document is consistent with the stored beatmaps, and a beatmap that a
completed job names is found from then on. -/
theorem mapJobs_consistent {cfg : Config} {acts : List (Act K)} {w : World K}
    (hrun : World.empty.run cfg acts = some w) :
    (∀ id d, w.shared.mapJobs.findOne id = some d → DocSound w.shared id d) ∧
    ∀ j out, getJobStatus w.shared j = .ok out → out.status = .completed →
      ∃ b, out.beatmapId = some b ∧ ∀ later w', w.run cfg later = some w' →
        (∃ id d, b = id.str ∧ w'.shared.beatmaps.findOne id = some d ∧ d.jobId = out.jobId) ∧
        ∃ beatmap, getBeatmap cfg w'.shared b = .ok beatmap ∧ beatmap.id = b := by
  obtain ⟨hw, -⟩ := (worldLegit_empty (P := fun _ => True)).run
    (fun a _ => a.within_true) hrun
  refine ⟨hw.shared.docs, fun j out hout hstatus => ?_⟩
  obtain ⟨id, d, -, hd, rfl⟩ := getJobStatus_eq_ok hout
  have hsound := hw.shared.docs id d hd
  obtain ⟨b, hb⟩ := Option.ne_none_iff_exists'.mp (hsound.completed hstatus)
  refine ⟨b, hb, fun later w' hlater => ?_⟩
  obtain ⟨bid, doc, rfl, hdoc, hj⟩ := hsound.beatmap b hb
  obtain ⟨hw', hg⟩ := hw.run (fun a _ => a.within_true) hlater
  have hdoc' := hg.beatmaps bid doc hdoc
  exact ⟨⟨bid, doc, rfl, hdoc', hj⟩, hw'.getBeatmap_ok hdoc'⟩

theorem mapJobs_consistent_sample : ∃ w, World.empty.run {} Sample.acts = some w ∧
    (∀ id d, w.shared.mapJobs.findOne id = some d → DocSound w.shared id d) ∧
    ∀ j out, getJobStatus w.shared j = .ok out → out.status = .completed →
      ∃ b, out.beatmapId = some b ∧ ∀ later w', w.run {} later = some w' →
        (∃ id d, b = id.str ∧ w'.shared.beatmaps.findOne id = some d ∧ d.jobId = out.jobId) ∧
        ∃ beatmap, getBeatmap {} w'.shared b = .ok beatmap ∧ beatmap.id = b := by
  obtain ⟨w, hw⟩ := Option.isSome_iff_exists.mp
    (show (World.empty.run {} Sample.acts).isSome = true by decide +kernel)
  exact ⟨w, hw, mapJobs_consistent hw⟩

end Maps
