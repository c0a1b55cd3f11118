import BeatmapBackend.Maps.NotesSurvive
import BeatmapBackend.Maps.Progress
import BeatmapBackend.Maps.Spacing
import BeatmapBackend.Queues.Release

/-! The hand-over between the queues: an orchestration attempt always finds the results of its
two children, also when it was delivered again or lost its lock, and can read both. -/
namespace Maps
open Effects Wire Queues Program

variable {K : Type}

theorem Moves.released {n t : ℕ} {a : Act K} {F F' : PipelineFlow K} (h : Moves n t a F F')
    (hF : F.Released) : F'.Released := by
  cases h with
  | idle => exact hF
  | start h => exact hF.start h
  | promote h => exact hF.promote h
  | stall h => exact hF.stall h
  | complete h v => exact hF.complete h v
  | fail h => exact hF.fail h

theorem Moves.allDone {n t : ℕ} {a : Act K} {F F' : PipelineFlow K} (h : Moves n t a F F')
    (hF : F.AllDone) : F'.AllDone := by
  cases h with
  | idle => exact hF
  | start h => exact hF.start h
  | promote h => exact hF.promote h
  | stall h => exact hF.stall h
  | complete h v => exact hF.complete h v
  | fail h => exact hF.fail h

section Reads

variable {cfg : Config} {job : JobView K} {ref : JobRef}

theorem createMap_reads_nothing {file : UploadFile} {laneCount : Option ℤ} :
    ¬ (createMap cfg file laneCount).Performs (.getChildrenValues (K := K) ref) := by
  rw [createMap, performs_lift_bind]
  rintro ⟨-, -, h⟩
  simp [createMapJob, Program.bind_assoc, performs_lift_bind, performs_perform_bind] at h

variable [Field K] [LinearOrder K] [FloorRing K]

theorem stem_reads_nothing : ¬ (StemHandler.call cfg job).Performs (.getChildrenValues ref) := by
  rw [StemHandler.call, performs_handled (by simp), StemHandler.process]
  simp [performs_lift_bind, performs_perform_bind, markProcessing]

theorem kick_reads_nothing : ¬ (KickHandler.call cfg job).Performs (.getChildrenValues ref) := by
  rw [KickHandler.call, performs_handled (by simp), KickHandler.process]
  simp only [performs_lift_bind, performs_perform_bind, not_exists, not_and, not_or]
  refine fun p _ => ⟨by simp, fun _ => ⟨by simp, fun _ => ⟨by simp, fun _ _ _ _ _ =>
    ⟨by simp, fun significant => ?_⟩⟩⟩⟩
  cases significant <;> simp [performs_lift_bind, performs_perform_bind]

theorem melody_reads_nothing :
    ¬ (MelodyHandler.call cfg job).Performs (.getChildrenValues ref) := by
  rw [MelodyHandler.call, performs_handled (by simp), MelodyHandler.process]
  simp [performs_lift_bind, performs_perform_bind]

theorem beatmap_reads (h : (BeatmapHandler.call job).Performs (.getChildrenValues ref)) :
    ref = job.ref := by
  rw [BeatmapHandler.call, performs_handled (by simp), BeatmapHandler.process] at h
  have href : (∃ p, OrchestrateBeatmapJobPayload.modelValidate job.data = .ok p) ∧
      job.ref = ref := by
    simpa [performs_lift_bind, performs_perform_bind, finalizeBeatmap, Program.bind_assoc] using h
  exact href.2.symm

/-- Only the orchestration reads results, and only those of its own children. -/
theorem handlerOf_reads {program : Prog K (Json K)} (hp : handlerOf cfg job = some program)
    (h : program.Performs (.getChildrenValues ref)) :
    job.queueName = beatmapOrchestrationQueueName ∧ ref = job.ref := by
  unfold handlerOf at hp
  split at hp
  · obtain rfl := Option.some.inj hp
    exact (stem_reads_nothing h).elim
  split at hp
  · obtain rfl := Option.some.inj hp
    exact (kick_reads_nothing h).elim
  split at hp
  · obtain rfl := Option.some.inj hp
    exact (melody_reads_nothing h).elim
  split at hp
  next hqueue =>
    obtain rfl := Option.some.inj hp
    exact ⟨hqueue, beatmap_reads h⟩
  next => cases hp

end Reads

/-- What an attempt may rely on when it reads the results of its children. -/
structure Handed (w : World K) : Prop where
  released : ∀ F ∈ w.shared.flows, F.Released
  attempts : ∀ (i : ℕ) (view : JobView K) (program : Prog K (Json K)),
    w.threads[i]? = some ⟨.worker view, program⟩ → view.ref.child = none →
      ∀ F, w.shared.flows[view.ref.flow]? = some F → F.AllDone
  reads : ∀ (i : ℕ) (task : Task K) (program : Prog K (Json K)) (ref : JobRef),
    w.threads[i]? = some ⟨task, program⟩ → program.Performs (.getChildrenValues ref) →
      ∃ view, task = .worker view ∧ view.queueName = beatmapOrchestrationQueueName ∧
        ref = view.ref

theorem handed_empty : Handed (World.empty : World K) :=
  ⟨nofun, fun _ _ _ => nofun, fun _ _ _ _ => nofun⟩

variable [Field K] [LinearOrder K] [FloorRing K] {cfg : Config} {P : Librosa K → Prop}

/-- The results of a song flow were made for the job and the tempo of that flow. -/
theorem Legit.result_of_song {s : Shared K} (hs : Legit cfg P s) {n : ℕ} {F : PipelineFlow K}
    {j : String} {q : Request} {duration bpm : ℤ} (hF : s.flows[n]? = some F)
    (hspec : F.spec = q.songFlow cfg j duration bpm) (hq : Created s j q) :
    ∀ i v, F.value? i = some v → ResultMade cfg P q bpm i v := by
  obtain ⟨j', q', hq', -, -, hcase⟩ := hs.flows F (List.mem_of_getElem? hF)
  rw [hspec] at hcase
  rcases hcase with hstem | ⟨d', b', hsong, -, -, -, hres⟩
  · exact (stemFlow_ne_songFlow hstem.symm).elim
  · obtain ⟨rfl, rfl, rfl⟩ := songFlow_inj hsong
    obtain ⟨a, ha⟩ := hq
    obtain ⟨b, hb⟩ := hq'
    obtain ⟨-, rfl⟩ := hs.created_unique _ _ _ _ _ ha hb
    exact hres

namespace Handed

variable {w w' : World K} {a : Act K}

private theorem released_act (h : Handed w) (hact : w.act cfg a = some w') :
    ∀ F ∈ w'.shared.flows, F.Released := by
  intro F' hF'
  obtain ⟨n, hn⟩ := List.getElem?_of_mem hF'
  cases hF : w.shared.flows[n]? with
  | none =>
    obtain ⟨-, ids, spec, rfl⟩ := World.act_newFlow hact hF hn
    exact Flow.Released.add ids spec
  | some F =>
    obtain ⟨G, hG, hmoves⟩ := World.act_flow hact hF
    obtain rfl := Option.some.inj (hG.symm.trans hn)
    exact hmoves.released (h.released F (List.mem_of_getElem? hF))

/-- The children an attempt has found completed stay completed. -/
private theorem allDone_act (h : Handed w) (hlegit : WorldLegit cfg P w)
    (hact : w.act cfg a = some w') {i : ℕ} {view : JobView K} {program : Prog K (Json K)}
    (hth : w.threads[i]? = some ⟨.worker view, program⟩) (hchild : view.ref.child = none)
    {F' : PipelineFlow K} (hF' : w'.shared.flows[view.ref.flow]? = some F') : F'.AllDone := by
  obtain ⟨F, hF, -⟩ := hlegit.assigned i _ hth
  obtain ⟨G, hG, hmoves⟩ := World.act_flow hact hF
  obtain rfl := Option.some.inj (hG.symm.trans hF')
  exact hmoves.allDone (h.attempts i view program hth hchild F hF)

omit [Field K] [LinearOrder K] [FloorRing K] in
/-- A root begins once its children are completed. -/
private theorem allDone_start (h : Handed w) {ref : JobRef} {F F' : PipelineFlow K} {t : ℕ}
    (hF : w.shared.flows[ref.flow]? = some F) (hstart : F.start ref.child t = some F')
    (hchild : ref.child = none) : F'.AllDone := by
  obtain ⟨⟨job, hjob, hwaiting⟩, -⟩ := Flow.start_eq_some.mp hstart
  rw [hchild] at hjob
  obtain rfl := Option.some.inj hjob
  exact ((h.released F (List.mem_of_getElem? hF)).of_waiting hwaiting).start hstart

theorem act (h : Handed w) (hlegit : WorldLegit cfg P w) (hact : w.act cfg a = some w') :
    Handed w' := by
  constructor
  case released => exact h.released_act hact
  case attempts =>
    intro i view program hth hchild F' hF'
    cases World.act_threadMoves hact hth with
    | idle hold | step hold _ => exact h.allDone_act hlegit hact hold hchild hF'
    | start hF hnew hstart _ _ =>
      obtain rfl := Option.some.inj (hnew.symm.trans hF')
      exact h.allDone_start hF hstart hchild
  case reads =>
    intro i task program ref hth hp
    cases World.act_threadMoves hact hth with
    | idle hold => exact h.reads i task program ref hold hp
    | step hold _ => exact h.reads i task _ ref hold (Or.inr ⟨_, hp⟩)
    | request file laneCount => exact (createMap_reads_nothing hp).elim
    | start _ _ _ _ hprogram =>
      obtain ⟨hqueue, href⟩ := handlerOf_reads hprogram hp
      exact ⟨_, rfl, hqueue, href⟩

end Handed

/-- The orchestration attempt `view` works for the flow of the map job `j`, whose children have
made these notes. -/
structure Gathers (cfg : Config) (P : Librosa K → Prop) (s : Shared K) (view : JobView K)
    (j : String) (q : Request) (duration bpm : ℤ) (kick melody : List (Note K)) : Prop where
  queue : view.queueName = beatmapOrchestrationQueueName
  data : view.data = OrchestrateBeatmapJobPayload.modelDump
    ⟨j, q.key cfg j, q.name, q.lanes cfg, duration, bpm⟩
  created : Created s j q
  measured : Measured cfg P q duration bpm
  flow : ∃ F kickJob melodyJob, s.flows[view.ref.flow]? = some F ∧
    F.spec = q.songFlow cfg j duration bpm ∧ TwoChildren F kickJob melodyJob ∧
    kickJob.state = .completed (KickDetectionResult.modelDump ⟨kick⟩) ∧
    melodyJob.state = .completed (MelodyExtractionResult.modelDump ⟨melody⟩)
  kickMade : KickNotes cfg P q kick
  melodyMade : MelodyNotes cfg P q bpm melody

/-- The results are read, however `env` orders them. -/
theorem Gathers.read {s : Shared K} {view : JobView K} {j : String} {q : Request}
    {duration bpm : ℤ} {kick melody : List (Note K)}
    (h : Gathers cfg P s view j q duration bpm kick melody) {env : Env K}
    (horder : env.childOrder.Perm (List.range 2)) :
    ∃ values, exec env s (.getChildrenValues view.ref) = some (values, s) ∧
      childResults values = .ok (⟨kick⟩, ⟨melody⟩) := by
  obtain ⟨F, kickJob, melodyJob, hF, -, htwo, hk, hm⟩ := h.flow
  obtain ⟨values, hexec, hkick, hmelody⟩ := exec_children htwo hk hm horder hF
  exact ⟨values, hexec, childResults_eq_ok.mpr ⟨_, _, hkick, hmelody, by simp, by simp⟩⟩

theorem Handed.gathers {w : World K} (h : Handed w) (hlegit : WorldLegit cfg P w) {i : ℕ}
    {task : Task K} {ref : JobRef} {k : Except Exc (List (String × Json K)) → Prog K (Json K)}
    (hth : w.threads[i]? = some ⟨task, .op (.getChildrenValues ref) k⟩) :
    ∃ view j q duration bpm kick melody, task = .worker view ∧ ref = view.ref ∧
      Gathers cfg P w.shared view j q duration bpm kick melody := by
  obtain ⟨view, rfl, hqueue, rfl⟩ := h.reads i task _ ref hth (Or.inl rfl)
  obtain ⟨j, q, hready, hheld⟩ := hlegit.shared.held (hlegit.assigned i _ hth)
  cases hheld with
  | stem _ hstem _ => exact absurd (hstem.symm.trans hqueue) (by decide)
  | song duration bpm F hF hspec hmeasured hdrum hmelody hplace =>
    rcases hplace with ⟨hchild, -, hdata⟩ | ⟨-, hkick, -⟩ | ⟨-, hmel, -⟩
    · have hdone := h.attempts i view _ hth hchild F hF
      obtain ⟨kickJob, melodyJob, htwo⟩ := twoChildren hspec
      obtain ⟨v, hv⟩ := JobState.isCompleted_iff.mp (hdone kickJob (by simp [htwo.children]))
      obtain ⟨m, hm⟩ := JobState.isCompleted_iff.mp (hdone melodyJob (by simp [htwo.children]))
      have hresult := hlegit.shared.result_of_song hF hspec hready.created
      obtain ⟨kick, rfl, hkn⟩ := hresult 0 v (by rw [htwo.value?_kick, hv, JobState.value?])
      obtain ⟨melody, rfl, hmn⟩ := hresult 1 m (by rw [htwo.value?_melody, hm, JobState.value?])
      exact ⟨view, j, q, duration, bpm, kick, melody, rfl, rfl, hqueue, hdata, hready.created,
        hmeasured, ⟨F, kickJob, melodyJob, hF, hspec, htwo, hv, hm⟩, hkn, hmn⟩
    · exact absurd (hkick.symm.trans hqueue) (by decide)
    · exact absurd (hmel.symm.trans hqueue) (by decide)

theorem handed_of_run {acts : List (Act K)} {w : World K} (hacts : ∀ a ∈ acts, a.Within P)
    (hrun : World.empty.run cfg acts = some w) : WorldLegit cfg P w ∧ Handed w := by
  refine World.run_invariant (I := fun v => WorldLegit cfg P v ∧ Handed v) ?_
    ⟨worldLegit_empty, handed_empty⟩ hacts hrun
  rintro v a v' ⟨hlegit, hhanded⟩ ha hact
  exact ⟨(hlegit.act ha hact).1, hhanded.act hlegit hact⟩

/-- Whenever a thread reads the results of children, it is an orchestration attempt and both results
are there and can be read, in whatever order they arrive: the notes the two other queues made for
the map job of its payload, with the tempo of its flow. -/
theorem children_ready {acts : List (Act K)} {w : World K} (hacts : ∀ a ∈ acts, a.Within P)
    (hrun : World.empty.run cfg acts = some w) {i : ℕ} {task : Task K} {ref : JobRef}
    {k : Except Exc (List (String × Json K)) → Prog K (Json K)}
    (hth : w.threads[i]? = some ⟨task, .op (.getChildrenValues ref) k⟩) :
    ∃ view j q duration bpm kick melody, task = .worker view ∧ ref = view.ref ∧
      Gathers cfg P w.shared view j q duration bpm kick melody ∧
      ∀ env : Env K, env.childOrder.Perm (List.range 2) → ∃ values,
        exec env w.shared (.getChildrenValues ref) = some (values, w.shared) ∧
          childResults values = .ok (⟨kick⟩, ⟨melody⟩) := by
  obtain ⟨hlegit, hhanded⟩ := handed_of_run hacts hrun
  obtain ⟨view, j, q, duration, bpm, kick, melody, htask, rfl, hgathers⟩ :=
    hhanded.gathers hlegit hth
  exact ⟨view, j, q, duration, bpm, kick, melody, htask, rfl, hgathers, fun env => hgathers.read⟩

namespace Sample

def reading (th : Thread ℚ) : Option JobRef :=
  match th.program with
  | .ret _ => none
  | .op e _ =>
    match e with
    | .getChildrenValues ref => some ref
    | _ => none

theorem eq_of_reading {task : Task ℚ} {program : Prog ℚ (Json ℚ)} {ref : JobRef}
    (h : reading ⟨task, program⟩ = some ref) :
    ∃ k, program = .op (.getChildrenValues ref) k := by
  unfold reading at h
  cases program with
  | ret r => cases h
  | op e k =>
    cases e with
    | getChildrenValues ref' =>
      obtain rfl := Option.some.inj h
      exact ⟨k, rfl⟩
    | _ => cases h

end Sample

open Sample in
/-- The second of two songs, whose children found two notes each. -/
theorem children_ready_sample : ∃ (w : World ℚ) (task : Task ℚ) (ref : JobRef)
    (k : Except Exc (List (String × Json ℚ)) → Prog ℚ (Json ℚ)) (view : JobView ℚ) (j : String)
    (q : Request) (duration bpm : ℤ) (kick melody : List (Note ℚ)),
    World.empty.run {} (struckTwice.take (struckTwice.length - 4)) = some w ∧
    w.threads[9]? = some ⟨task, .op (.getChildrenValues ref) k⟩ ∧
    kick.length = 2 ∧ melody.length = 2 ∧ task = .worker view ∧ ref = view.ref ∧
    Gathers {} Librosa.Documented w.shared view j q duration bpm kick melody ∧
    ∀ env : Env ℚ, env.childOrder.Perm (List.range 2) → ∃ values,
      exec env w.shared (.getChildrenValues ref) = some (values, w.shared) ∧
        childResults values = .ok (⟨kick⟩, ⟨melody⟩) := by
  have hreads : ((World.empty.run {} (struckTwice.take (struckTwice.length - 4))).any fun w =>
      (w.threads[9]?.bind reading).any fun ref =>
        (exec (struckEnv 4) w.shared (.getChildrenValues ref)).any fun read =>
          (childResults read.1).toOption.any fun found =>
            found.1.notes.length = 2 && found.2.notes.length = 2) = true := by decide +kernel
  obtain ⟨w, hw, href⟩ := (Option.any_eq_true _ _).mp hreads
  obtain ⟨ref, href, hfound⟩ := (Option.any_eq_true _ _).mp href
  obtain ⟨⟨task, program⟩, hth, hreading⟩ := Option.bind_eq_some_iff.mp href
  obtain ⟨k, rfl⟩ := eq_of_reading hreading
  obtain ⟨view, j, q, duration, bpm, kick, melody, htask, hview, hgathers, hread⟩ :=
    children_ready (fun a ha =>
      struckTwice_within struck_documented a (List.mem_of_mem_take ha)) hw hth
  obtain ⟨values, hexec, hresults⟩ := hread (struckEnv 4) (List.Perm.swap 0 1 [])
  rw [hexec, Option.any_some, hresults] at hfound
  obtain ⟨hkick, hmelody⟩ := Bool.and_eq_true_iff.mp hfound
  exact ⟨w, task, ref, k, view, j, q, duration, bpm, kick, melody, hw, hth,
    of_decide_eq_true hkick, of_decide_eq_true hmelody, htask, hview, hgathers, hread⟩

end Maps
