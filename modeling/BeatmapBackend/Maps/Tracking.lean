import BeatmapBackend.Maps.Protocols
import BeatmapBackend.Maps.Runs

/-! How the running system shows the life of one map job: its document, the beatmaps that
carry its id, and the queue jobs of its two flows with the attempts that hold them. -/
namespace Maps
open Effects Wire Queues Program

variable {K : Type}

theorem stemFlow_inj [Ring K] [LinearOrder K] [FloorRing K] {cfg : Config} {q q' : Request}
    {j j' : String} (h : (q.stemFlow cfg j : FlowSpec (Json K)) = q'.stemFlow cfg j') : j = j' := by
  have hdata := congrArg (fun spec => SeparateStemsJobPayload.modelValidate spec.root.data) h
  simp only [Request.stemFlow, buildSeparateStemsJob,
    SeparateStemsJobPayload.modelValidate_modelDump, Except.ok.injEq,
    SeparateStemsJobPayload.mk.injEq] at hdata
  exact hdata.1

/-- The queue job at `ref` has this role for the map job `j`. -/
def Placed (cfg : Config) (q : Request) (j : String) (s : Shared K) (role : Role) (ref : JobRef) :
    Prop :=
  ref.child = role.child ∧
    ∃ F : PipelineFlow K, s.flows[ref.flow]? = some F ∧ FlowOf cfg q j role F.spec

/-- The event settles what becomes of a queue job. -/
def Event.decides (ev : Event K) : Bool :=
  (match ev.eff with
    | .addFlow _ | .markJobFailed _ _ | .markJobCompleted _ _ => true
    | _ => false) && ev.reply.applied.isSome

/-- A queue job in a phase. A running attempt is the thread that holds the job's lock, and it
follows the protocol from its stage on. -/
def PhaseRel (cfg : Config) (q : Request) (j : String) (w : World K) (role : Role) (ref : JobRef)
    (job : Job ℕ (Json K) (Json K)) : Phase → Prop
  | .waiting => job.state = .waiting
  | .delayed => job.state = .delayed
  | .blocked => job.state = .waitingChildren
  | .active s => ∃ t program, job.state = .active t ∧
      w.threads[t]? = some ⟨.worker (.ofJob ref job), program⟩ ∧
      Follows (workerProtocol cfg role j q job.exhausted) (Settled role job.exhausted) s program ∧
      (s.decided = true → ∃ ev ∈ w.shared.history, ev.actor = t ∧ ev.decides = true)
  | .succeeded => ∃ v, job.state = .completed v
  | .failed => job.state = .failed

/-- The world shows the life `L` for the map job `id` of the request `q`. -/
structure Tracks (cfg : Config) (q : Request) (id : ObjectId) (w : World K) (L : Life) : Prop where
  created : Created w.shared id.str q
  doc : ∃ d, w.shared.mapJobs.findOne id = some d ∧ d.status = L.status ∧
    d.beatmapId = L.beatmapId ∧ d.error = L.error
  made : (w.shared.beatmaps.select fun d => d.jobId = id.str).map (fun e => e.1.str) = L.made
  unique : ∀ role ref ref', Placed cfg q id.str w.shared role ref →
    Placed cfg q id.str w.shared role ref' → ref = ref'
  tracked : ∀ role ref, Placed cfg q id.str w.shared role ref → ∃ job p,
    w.job? ref = some job ∧ L.phase role = some p ∧ PhaseRel cfg q id.str w role ref job p
  placed : ∀ role, L.phase role ≠ none → ∃ ref, Placed cfg q id.str w.shared role ref

section Phases

variable {cfg : Config} {q : Request} {j : String} {w w' : World K} {role : Role} {ref : JobRef}
  {job : Job ℕ (Json K) (Json K)} {p : Phase}

namespace PhaseRel

theorem mono (h : PhaseRel cfg q j w role ref job p)
    (hthreads : ∀ t th, job.state = .active t → w.threads[t]? = some th → w'.threads[t]? = some th)
    (hhistory : ∀ ev ∈ w.shared.history, ev ∈ w'.shared.history) :
    PhaseRel cfg q j w' role ref job p := by
  cases p with
  | active s =>
    obtain ⟨t, program, hstate, hth, hfollows, hdecided⟩ := h
    refine ⟨t, program, hstate, hthreads t _ hstate hth, hfollows, fun hs => ?_⟩
    obtain ⟨ev, hev, hactor⟩ := hdecided hs
    exact ⟨ev, hhistory ev hev, hactor⟩
  | _ => exact h

theorem waiting_of (h : PhaseRel cfg q j w role ref job p) (hs : job.state = .waiting) :
    p = .waiting := by
  cases p <;> simp [PhaseRel, hs] at h ⊢

theorem delayed_of (h : PhaseRel cfg q j w role ref job p) (hs : job.state = .delayed) :
    p = .delayed := by
  cases p <;> simp [PhaseRel, hs] at h ⊢

theorem blocked_of (h : PhaseRel cfg q j w role ref job p) (hs : job.state = .waitingChildren) :
    p = .blocked := by
  cases p <;> simp [PhaseRel, hs] at h ⊢

theorem succeeded_of (h : PhaseRel cfg q j w role ref job p) {v : Json K}
    (hs : job.state = .completed v) : p = .succeeded := by
  cases p <;> simp [PhaseRel, hs] at h ⊢

theorem active_of (h : PhaseRel cfg q j w role ref job p) {t : ℕ} (hs : job.state = .active t) :
    ∃ s program, p = .active s ∧ w.threads[t]? = some ⟨.worker (.ofJob ref job), program⟩ ∧
      Follows (workerProtocol cfg role j q job.exhausted) (Settled role job.exhausted) s program ∧
      (s.decided = true → ∃ ev ∈ w.shared.history, ev.actor = t ∧ ev.decides = true) := by
  cases p with
  | active s =>
    obtain ⟨t', program, hstate, hrest⟩ := h
    rw [hs, JobState.active.injEq] at hstate
    subst hstate
    exact ⟨s, program, rfl, hrest⟩
  | _ => simp [PhaseRel, hs] at h

theorem blocked_iff (h : PhaseRel cfg q j w role ref job p) :
    job.state = .waitingChildren ↔ p = .blocked :=
  ⟨h.blocked_of, fun hp => by rw [hp] at h; exact h⟩

theorem isCompleted_iff (h : PhaseRel cfg q j w role ref job p) :
    job.state.isCompleted = true ↔ p = .succeeded := by
  rw [JobState.isCompleted_iff]
  exact ⟨fun ⟨_, hs⟩ => h.succeeded_of hs, fun hp => by rw [hp] at h; exact h⟩

theorem isOver (h : PhaseRel cfg q j w role ref job p) : p.isOver = job.state.isOver := by
  cases p with
  | active s =>
    obtain ⟨t, program, hstate, -⟩ := h
    rw [hstate]
    rfl
  | succeeded =>
    obtain ⟨v, hstate⟩ := h
    rw [hstate]
    rfl
  | _ => rw [show job.state = _ from h]; rfl

end PhaseRel

end Phases

section Places

variable [Field K] [LinearOrder K] [FloorRing K]
variable {cfg : Config} {P : Librosa K → Prop} {s : Shared K} {q q' : Request} {j j' : String}
  {role role' : Role} {ref : JobRef}

/-- A flow belongs to one map job, and a root to one queue. -/
theorem FlowOf.inj {spec : FlowSpec (Json K)} (h : FlowOf cfg q j role spec)
    (h' : FlowOf cfg q' j' role' spec) : j = j' ∧ (role = .stem ↔ role' = .stem) := by
  have hsong {r : Role} (hr : r ≠ .stem) {q : Request} {j : String}
      (hf : FlowOf cfg q j r spec) : ∃ duration bpm, spec = q.songFlow cfg j duration bpm := by
    cases r with
    | stem => exact absurd rfl hr
    | _ => exact hf
  by_cases hr : role = .stem <;> by_cases hr' : role' = .stem
  · subst hr hr'
    exact ⟨stemFlow_inj ((show spec = _ from h).symm.trans h'), Iff.rfl⟩
  · subst hr
    obtain ⟨_, _, hs⟩ := hsong hr' h'
    exact (stemFlow_ne_songFlow ((show spec = _ from h).symm.trans hs)).elim
  · subst hr'
    obtain ⟨_, _, hs⟩ := hsong hr h
    exact (stemFlow_ne_songFlow ((show spec = _ from h').symm.trans hs)).elim
  · obtain ⟨_, _, hs⟩ := hsong hr h
    obtain ⟨_, _, hs'⟩ := hsong hr' h'
    exact ⟨(songFlow_inj (hs.symm.trans hs')).1, iff_of_false hr hr'⟩

theorem Role.child_inj {role role' : Role} (h : role.child = role'.child)
    (hstem : role = .stem ↔ role' = .stem) : role = role' := by
  cases role <;> cases role' <;> simp_all [Role.child]

/-- A queue job has one role, for one map job. -/
theorem Placed.inj (h : Placed cfg q j s role ref) (h' : Placed cfg q' j' s role' ref) :
    j = j' ∧ role = role' := by
  obtain ⟨hchild, F, hF, hflow⟩ := h
  obtain ⟨hchild', F', hF', hflow'⟩ := h'
  obtain rfl := Option.some.inj (hF.symm.trans hF')
  obtain ⟨rfl, hstem⟩ := hflow.inj hflow'
  exact ⟨rfl, Role.child_inj (hchild.symm.trans hchild') hstem⟩

/-- Every queue job belongs to a map job that exists. -/
theorem Legit.owner (hs : Legit cfg P s) {F : PipelineFlow K} (hF : s.flows[ref.flow]? = some F)
    {job : Job ℕ (Json K) (Json K)} (hjob : F.job? ref.child = some job) :
    ∃ q id role, s.mapJobs.findOne id ≠ none ∧ Created s id.str q ∧
      Placed cfg q id.str s role ref := by
  have hspec : F.spec.job? ref.child = some job.spec := by rw [Flow.job?_spec, hjob]; rfl
  obtain ⟨j, q, hq, -, -, hcase⟩ := hs.flows F (List.mem_of_getElem? hF)
  obtain ⟨-, id, rfl, hdoc⟩ := hs.created_doc j q hq
  rcases hcase with hstem | ⟨duration, bpm, hsong, -⟩
  · refine ⟨q, id, .stem, hdoc, hq, ?_, F, hF, hstem⟩
    cases hchild : ref.child with
    | none => rfl
    | some i =>
      rw [hstem, hchild] at hspec
      simp [FlowSpec.job?, Request.stemFlow, buildSeparateStemsJob] at hspec
  · rcases hchild : ref.child with _ | _ | _ | i
    · exact ⟨q, id, .root, hdoc, hq, hchild, F, hF, duration, bpm, hsong⟩
    · exact ⟨q, id, .kick, hdoc, hq, hchild, F, hF, duration, bpm, hsong⟩
    · exact ⟨q, id, .melody, hdoc, hq, hchild, F, hF, duration, bpm, hsong⟩
    · rw [hsong, hchild] at hspec
      simp [FlowSpec.job?, Request.songFlow, buildGenerateBeatmapFlow] at hspec

end Places

section Transfer

variable {cfg : Config} {q : Request} {id : ObjectId} {w w' : World K} {L L' : Life}
  {n : ℕ} {F F' : PipelineFlow K}

/-- From one world to the next when no queue job appears: it is enough to say what becomes
of each queue job that is there. -/
theorem Tracks.transfer (h : Tracks cfg q id w L) (hcreated : Created w'.shared id.str q)
    (hdoc : ∃ d, w'.shared.mapJobs.findOne id = some d ∧ d.status = L'.status ∧
      d.beatmapId = L'.beatmapId ∧ d.error = L'.error)
    (hmade : (w'.shared.beatmaps.select fun d => d.jobId = id.str).map (fun e => e.1.str) = L'.made)
    (hplaced : ∀ role ref, Placed cfg q id.str w'.shared role ref ↔
      Placed cfg q id.str w.shared role ref)
    (hnone : ∀ role, L'.phase role ≠ none → L.phase role ≠ none)
    (hphase : ∀ role ref job p, Placed cfg q id.str w.shared role ref → w.job? ref = some job →
      L.phase role = some p → PhaseRel cfg q id.str w role ref job p → ∃ job' p',
        w'.job? ref = some job' ∧ L'.phase role = some p' ∧
          PhaseRel cfg q id.str w' role ref job' p') : Tracks cfg q id w' L' where
  created := hcreated
  doc := hdoc
  made := hmade
  unique role ref ref' hr hr' :=
    h.unique role ref ref' ((hplaced role ref).mp hr) ((hplaced role ref').mp hr')
  tracked role ref hr := by
    obtain ⟨job, p, hjob, hp, hrel⟩ := h.tracked role ref ((hplaced role ref).mp hr)
    exact hphase role ref job p ((hplaced role ref).mp hr) hjob hp hrel
  placed role hrole := by
    obtain ⟨ref, hr⟩ := h.placed role (hnone role hrole)
    exact ⟨ref, (hplaced role ref).mpr hr⟩

theorem placed_setFlow {s : Shared K} {j : String} {role : Role} {ref : JobRef}
    (hF : s.flows[n]? = some F) (hspec : F'.spec = F.spec) :
    Placed cfg q j { s with flows := s.flows.set n F' } role ref ↔ Placed cfg q j s role ref := by
  have hlt := (List.getElem?_eq_some_iff.mp hF).1
  unfold Placed
  refine and_congr_right fun _ => ?_
  rw [List.getElem?_set]
  by_cases hn : n = ref.flow
  · subst hn
    rw [if_pos rfl, if_pos hlt, hF]
    simp [hspec]
  · rw [if_neg hn]

namespace Tracks

/-- Another thread appears. -/
theorem addThread (h : Tracks cfg q id w L) (th : Thread K) :
    Tracks cfg q id (w.addThread th) L := by
  refine h.transfer h.created h.doc h.made (fun _ _ => Iff.rfl) (fun _ hp => hp) ?_
  intro role ref job p _ hjob hp hrel
  refine ⟨job, p, hjob, hp, hrel.mono (fun t th' _ hth => ?_) fun _ hev => hev⟩
  exact (List.getElem?_append_left (List.getElem?_eq_some_iff.mp hth).1).trans hth

/-- A queue operation on the flow of another map job. -/
theorem otherFlow (h : Tracks cfg q id w L) (hF : w.shared.flows[n]? = some F)
    (hspec : F'.spec = F.spec)
    (hother : ∀ role ref, Placed cfg q id.str w.shared role ref → ref.flow ≠ n) :
    Tracks cfg q id (w.setFlow n F') L := by
  refine h.transfer (h.created.mono (Grows.setFlow hF hspec)) h.doc h.made
    (fun _ _ => placed_setFlow hF hspec) (fun _ hp => hp) ?_
  intro role ref job p hr hjob hp hrel
  refine ⟨job, p, ?_, hp, hrel.mono (fun _ _ _ hth => hth) fun _ hev => hev⟩
  rw [World.job?_setFlow w hF, if_neg (hother role ref hr), hjob]

variable {role : Role} {ref : JobRef} {job : Job ℕ (Json K) (Json K)}
  {f : Job ℕ (Json K) (Json K) → Job ℕ (Json K) (Json K)} {p : Phase}

/-- A step of a thread that works for no queue job of this map job. -/
theorem frame (h : Tracks cfg q id w L) {s : Shared K} {i : ℕ} {th : Thread K}
    (hg : Grows w.shared s) (hflows : s.flows = w.shared.flows)
    (hdoc : ∃ d, s.mapJobs.findOne id = some d ∧ d.status = L.status ∧
      d.beatmapId = L.beatmapId ∧ d.error = L.error)
    (hmade : (s.beatmaps.select fun d => d.jobId = id.str).map (fun e => e.1.str) = L.made)
    (hi : ∀ role ref job, Placed cfg q id.str w.shared role ref → w.job? ref = some job →
      job.state ≠ .active i) :
    Tracks cfg q id ⟨s, w.threads.set i th⟩ L := by
  refine h.transfer (h.created.mono hg) hdoc hmade (fun _ _ => by simp only [Placed, hflows])
    (fun _ hp => hp) ?_
  intro role ref job p hr hjob hp hrel
  refine ⟨job, p, by rw [← hjob]; simp only [World.job?, hflows], hp,
    hrel.mono (fun t th' ht hth => ?_) hg.history⟩
  have hne : i ≠ t := fun he => hi role ref job hr hjob (he ▸ ht)
  exact (List.getElem?_set_ne hne).trans hth

/-- A flow is added. Its jobs, if they are jobs of this map job, are the first in their roles. -/
theorem addFlow (h : Tracks cfg q id w L) {flows : List (PipelineFlow K)}
    (hflows : flows = w.shared.flows ++ [F])
    (hL : L' = { L with phase := L'.phase })
    (hold : ∀ role, ¬ FlowOf cfg q id.str role F.spec → L'.phase role = L.phase role)
    (hnew : ∀ role, FlowOf cfg q id.str role F.spec → L.phase role = none ∧
      ∃ job p, F.job? role.child = some job ∧ L'.phase role = some p ∧
        PhaseRel cfg q id.str w role ⟨w.shared.flows.length, role.child⟩ job p) :
    Tracks cfg q id { w with shared := { w.shared with flows := flows } } L' := by
  subst hflows
  have hcase {role : Role} {ref : JobRef} (hr : Placed cfg q id.str
      { w.shared with flows := w.shared.flows ++ [F] } role ref) :
      Placed cfg q id.str w.shared role ref ∨
        (ref = ⟨w.shared.flows.length, role.child⟩ ∧ FlowOf cfg q id.str role F.spec) := by
    obtain ⟨hchild, G, hG, hflow⟩ := hr
    rcases getElem?_concat_cases hG with hold | ⟨hn, rfl⟩
    · exact Or.inl ⟨hchild, G, hold, hflow⟩
    · exact Or.inr ⟨by cases ref; cases hn; cases hchild; rfl, hflow⟩
  have hplaced {role : Role} {ref : JobRef} (hr : Placed cfg q id.str w.shared role ref) :
      Placed cfg q id.str { w.shared with flows := w.shared.flows ++ [F] } role ref := by
    obtain ⟨hchild, G, hG, hflow⟩ := hr
    exact ⟨hchild, G,
      (List.getElem?_append_left (List.getElem?_eq_some_iff.mp hG).1).trans hG, hflow⟩
  have hnot {role : Role} {ref : JobRef} (hr : Placed cfg q id.str w.shared role ref) :
      ¬ FlowOf cfg q id.str role F.spec := by
    intro hflow
    obtain ⟨_, p, _, hp, -⟩ := h.tracked role ref hr
    simp [(hnew role hflow).1] at hp
  rw [hL]
  refine ⟨h.created.mono (Grows.addFlow w.shared F), h.doc, h.made, ?_, ?_, ?_⟩
  · intro role ref ref' hr hr'
    rcases hcase hr with hr | ⟨rfl, hflow⟩ <;> rcases hcase hr' with hr' | ⟨rfl, hflow'⟩
    · exact h.unique role ref ref' hr hr'
    · exact (hnot hr hflow').elim
    · exact (hnot hr' hflow).elim
    · rfl
  · intro role ref hr
    rcases hcase hr with hr | ⟨rfl, hflow⟩
    · obtain ⟨job, p, hjob, hp, hrel⟩ := h.tracked role ref hr
      refine ⟨job, p, ?_, (hold role (hnot hr)).trans hp,
        hrel.mono (fun _ _ _ hth => hth) fun _ hev => hev⟩
      obtain ⟨G, hG, hGjob⟩ := Option.bind_eq_some_iff.mp hjob
      exact Option.bind_eq_some_iff.mpr ⟨G,
        (List.getElem?_append_left (List.getElem?_eq_some_iff.mp hG).1).trans hG, hGjob⟩
    · obtain ⟨-, job, p, hjob, hp, hrel⟩ := hnew role hflow
      refine ⟨job, p, ?_, hp, hrel.mono (fun _ _ _ hth => hth) fun _ hev => hev⟩
      rw [World.job?_eq _ _ List.getElem?_concat_length]
      exact hjob
  · intro role hp
    by_cases hflow : FlowOf cfg q id.str role F.spec
    · exact ⟨⟨w.shared.flows.length, role.child⟩, rfl, F, List.getElem?_concat_length, hflow⟩
    · obtain ⟨ref, hr⟩ := h.placed role (hold role hflow ▸ hp)
      exact ⟨ref, hplaced hr⟩

/-- The root's job and the two children stand in one flow. -/
private theorem song (hr : Placed cfg q id.str w.shared role ref) (hrole : role.isChild = true)
    (hF : w.shared.flows[ref.flow]? = some F) :
    (Placed cfg q id.str w.shared .root ⟨ref.flow, none⟩ ∧
      Placed cfg q id.str w.shared .kick ⟨ref.flow, some 0⟩ ∧
      Placed cfg q id.str w.shared .melody ⟨ref.flow, some 1⟩) ∧
    ∃ kick melody, F.children = [kick, melody] := by
  obtain ⟨hchild, F', hF', hflow⟩ := hr
  obtain rfl := Option.some.inj (hF.symm.trans hF')
  have hsong : ∃ duration bpm, F.spec = q.songFlow cfg id.str duration bpm := by
    cases role <;> first | exact hflow | cases hrole
  refine ⟨⟨⟨rfl, F, hF, hsong⟩, ⟨rfl, F, hF, hsong⟩, ⟨rfl, F, hF, hsong⟩⟩, ?_⟩
  obtain ⟨duration, bpm, hspec⟩ := hsong
  obtain ⟨kick, melody, htwo⟩ := twoChildren hspec
  exact ⟨kick, melody, htwo.children⟩

variable [Field K] [LinearOrder K] [FloorRing K]

/-- A queue operation on one job. -/
theorem setJob (h : Tracks cfg q id w L) (hr : Placed cfg q id.str w.shared role ref)
    (hF : w.shared.flows[ref.flow]? = some F) (hf : ∀ job, (f job).spec = job.spec)
    (hp : ∀ job, w.job? ref = some job → PhaseRel cfg q id.str w role ref (f job) p) :
    Tracks cfg q id (w.setFlow ref.flow (F.modify ref.child f)) (L.set role p) := by
  have hspec := F.spec_modify ref.child hf
  refine h.transfer (h.created.mono (Grows.setFlow hF hspec)) h.doc h.made
    (fun _ _ => placed_setFlow hF hspec) (fun role' hp' => ?_) ?_
  · by_cases hrole : role' = role
    · subst hrole
      obtain ⟨_, p', _, hp', _⟩ := h.tracked role' ref hr
      simp [hp']
    · rwa [Life.set_phase, if_neg hrole] at hp'
  · intro role' ref' job' p' hr' hjob' hp' hrel
    by_cases hrole : role' = role
    · subst hrole
      obtain rfl := h.unique role' ref ref' hr hr'
      refine ⟨f job', p, ?_, L.set_phase_self role' p,
        (hp job' hjob').mono (fun _ _ _ hth => hth) fun _ hev => hev⟩
      rw [World.job?_setFlow w hF, if_pos rfl, Flow.job?_modify_self, ← w.job?_eq ref hF, hjob']
      rfl
    · refine ⟨job', p', ?_, by rw [Life.set_phase, if_neg hrole, hp'],
        hrel.mono (fun _ _ _ hth => hth) fun _ hev => hev⟩
      rw [World.job?_setFlow w hF]
      split
      next hflow =>
        have hchild : ref'.child ≠ ref.child := by
          intro hchild
          obtain rfl : ref' = ref := by cases ref; cases ref'; cases hflow; cases hchild; rfl
          exact hrole (hr'.inj hr).2
        rw [Flow.job?_modify, if_neg hchild, ← w.job?_eq ref' (hflow ▸ hF), hjob']
      next => exact hjob'

/-- The root of the flow is released exactly when the life says so. -/
theorem release (h : Tracks cfg q id w L) (hr : Placed cfg q id.str w.shared role ref)
    (hrole : role.isChild = true) (hF : w.shared.flows[ref.flow]? = some F) :
    Tracks cfg q id (w.setFlow ref.flow F.release) L.release := by
  obtain ⟨⟨hroot, hkick, hmelody⟩, kick, melody, hchildren⟩ := song hr hrole hF
  obtain ⟨rootJob, pr, hrootJob, hpr, hrootRel⟩ := h.tracked _ _ hroot
  obtain ⟨kickJob, pk, hkickJob, hpk, hkickRel⟩ := h.tracked _ _ hkick
  obtain ⟨melodyJob, pm, hmelodyJob, hpm, hmelodyRel⟩ := h.tracked _ _ hmelody
  rw [w.job?_eq ⟨ref.flow, none⟩ hF] at hrootJob
  rw [w.job?_eq ⟨ref.flow, some 0⟩ hF] at hkickJob
  rw [w.job?_eq ⟨ref.flow, some 1⟩ hF] at hmelodyJob
  simp only [Flow.job?, hchildren, Option.some.injEq, List.getElem?_cons_zero,
    List.getElem?_cons_succ] at hrootJob hkickJob hmelodyJob
  subst hrootJob hkickJob hmelodyJob
  have hready : (F.root.state = .waitingChildren ∧
      ∀ j ∈ F.children, j.state.isCompleted = true) ↔
      L.phase .root = some .blocked ∧ L.phase .kick = some .succeeded ∧
        L.phase .melody = some .succeeded := by
    rw [hpr, hpk, hpm, hrootRel.blocked_iff, hchildren]
    simp [hkickRel.isCompleted_iff, hmelodyRel.isCompleted_iff]
  by_cases hc : F.root.state = .waitingChildren ∧ ∀ j ∈ F.children, j.state.isCompleted = true
  · rw [Flow.release_of_ready hc.1 hc.2, Life.release, if_pos (hready.mp hc)]
    exact h.setJob hroot hF (fun _ => rfl) fun _ _ => rfl
  · rw [Flow.release_of_not hc, Life.release, if_neg (mt hready.mpr hc)]
    rwa [World.setFlow_self w hF]

/-- And it fails with a child exactly when the life says so. -/
theorem failParent (h : Tracks cfg q id w L) (hr : Placed cfg q id.str w.shared role ref)
    (hrole : role.isChild = true) (hF : w.shared.flows[ref.flow]? = some F) :
    Tracks cfg q id (w.setFlow ref.flow F.failParent) L.failParent := by
  obtain ⟨⟨hroot, -, -⟩, -⟩ := song hr hrole hF
  obtain ⟨rootJob, pr, hrootJob, hpr, hrootRel⟩ := h.tracked _ _ hroot
  obtain rfl := Option.some.inj ((w.job?_eq ⟨ref.flow, none⟩ hF).symm.trans hrootJob)
  have hblocked : F.root.state = .waitingChildren ↔ L.phase .root = some .blocked := by
    rw [hpr, Option.some.injEq]
    exact hrootRel.blocked_iff
  by_cases hc : F.root.state = .waitingChildren
  · rw [Flow.failParent_of_waiting hc, Life.failParent, if_pos (hblocked.mp hc)]
    exact h.setJob hroot hF (fun _ => rfl) fun _ _ => rfl
  · rw [Flow.failParent_of_not hc, Life.failParent, if_neg (mt hblocked.mpr hc)]
    rwa [World.setFlow_self w hF]

/-- A step of the attempt that holds the lock of a queue job. -/
theorem perform (h : Tracks cfg q id w L) {s : Shared K} {i : ℕ} {program : Prog K (Json K)}
    {stage : Stage} (hr : Placed cfg q id.str w.shared role ref) (hjob : w.job? ref = some job)
    (hactive : job.state = .active i) (hg : Grows w.shared s) (hflows : s.flows = w.shared.flows)
    (hdoc : ∃ d, s.mapJobs.findOne id = some d ∧ d.status = L'.status ∧
      d.beatmapId = L'.beatmapId ∧ d.error = L'.error)
    (hmade : (s.beatmaps.select fun d => d.jobId = id.str).map (fun e => e.1.str) = L'.made)
    (hphase : L'.phase = (L.set role (.active stage)).phase)
    (hfollows : Follows (workerProtocol cfg role id.str q job.exhausted)
      (Settled role job.exhausted) stage program)
    (hdecided : stage.decided = true → ∃ ev ∈ s.history, ev.actor = i ∧ ev.decides = true) :
    Tracks cfg q id ⟨s, w.threads.set i ⟨.worker (.ofJob ref job), program⟩⟩ L' := by
  have hself : ∃ stage₀ program₀, L.phase role = some (.active stage₀) ∧
      w.threads[i]? = some ⟨.worker (.ofJob ref job), program₀⟩ := by
    obtain ⟨job₀, p, hjob₀, hp, hrel⟩ := h.tracked role ref hr
    obtain rfl := Option.some.inj (hjob.symm.trans hjob₀)
    obtain ⟨stage₀, program₀, rfl, hth, -⟩ := hrel.active_of hactive
    exact ⟨stage₀, program₀, hp, hth⟩
  obtain ⟨stage₀, program₀, hold, hthread⟩ := hself
  have hlt := (List.getElem?_eq_some_iff.mp hthread).1
  refine h.transfer (h.created.mono hg) hdoc hmade (fun _ _ => by simp only [Placed, hflows])
    (fun role' hp => ?_) ?_
  · by_cases hrole : role' = role
    · simp [hrole, hold]
    · rwa [hphase, Life.set_phase, if_neg hrole] at hp
  · intro role' ref' job' p' hr' hjob' hp' hrel
    have hsame : (⟨s, w.threads.set i ⟨.worker (.ofJob ref job), program⟩⟩ : World K).job? ref' =
        some job' := by
      rw [← hjob']
      simp only [World.job?, hflows]
    by_cases hrole : role' = role
    · subst hrole
      obtain rfl := h.unique role' ref ref' hr hr'
      obtain rfl := Option.some.inj (hjob.symm.trans hjob')
      refine ⟨job, .active stage, hsame, by rw [hphase, Life.set_phase_self], i, program, hactive,
        ?_, hfollows, hdecided⟩
      exact List.getElem?_set_self hlt
    · refine ⟨job', p', hsame, by rw [hphase, Life.set_phase, if_neg hrole, hp'],
        hrel.mono (fun t th' ht hth => ?_) hg.history⟩
      have hne : i ≠ t := by
        rintro rfl
        obtain ⟨_, _, rfl, hth', -⟩ := hrel.active_of ht
        obtain ⟨hview, -⟩ := Thread.mk.inj (Option.some.inj (hthread.symm.trans hth'))
        have href : ref = ref' := congrArg JobView.ref (Task.worker.inj hview)
        exact hrole (hr'.inj (href ▸ hr)).2
      exact (List.getElem?_set_ne hne).trans hth

end Tracks

end Transfer

end Maps
