import BeatmapBackend.Maps.Tracking

/-! The running system against the life of a map job: as long as the rules are kept, every
action of the system is a step in the life of one job, or of none. -/
namespace Maps
open Effects Wire Collections Queues

variable {K : Type}

/-- What may happen to an operation of a worker. A write that settles the attempt is not lost,
and it raises without effect only where the rules say so. -/
def smooth (R : Rules) : Eff K → Outcome K → Bool
  | .addFlow _, .lost _ _ => false
  | .markJobCompleted _ _, .lost _ _ => false
  | .markJobCompleted _ _, .raised _ => R.strays
  | .insertBeatmap _, .lost _ _ => R.strays
  | .markJobFailed _ _, .raised _ => R.givesUp
  | _, _ => true

namespace World

def live (w : World K) (view : JobView K) (i : ℕ) : Bool :=
  (w.job? view.ref).any fun job => job.state.heldBy i

/-- No attempt that holds the lock of the job has settled what becomes of it. -/
def undecided (w : World K) (ref : JobRef) : Bool :=
  w.shared.history.all fun ev =>
    !(ev.decides && (w.job? ref).any fun job => job.state.heldBy ev.actor)

/-- The job is delivered again if its lock expires now. -/
def redelivered (w : World K) (ref : JobRef) : Bool :=
  (w.job? ref).any fun job => decide (job.stalls < Job.maxStalledCount)

/-- A lock expires only while no attempt has settled what becomes of the queue job, and only as
often as the queue puts up with, unless jobs may fail unreported. -/
def timely (R : Rules) (w : World K) : Act K → Bool
  | .stall ref => R.stalls && w.undecided ref && (R.givesUp || w.redelivered ref)
  | _ => true

/-- An attempt whose job was delivered again performs no further operation. -/
def exclusive (w : World K) : Act K → Bool
  | .step i _ => match w.threads[i]? with
    | some ⟨.worker view, _⟩ => w.live view i
    | _ => true
  | _ => true

def acknowledged (R : Rules) (w : World K) : Act K → Bool
  | .step i outcome => match w.threads[i]? with
    | some ⟨.worker _, .op e _⟩ => smooth R e outcome
    | _ => true
  | _ => true

def orderly (R : Rules) (w : World K) (a : Act K) : Bool :=
  w.timely R a && w.exclusive a && w.acknowledged R a

def undisturbed (R : Rules) (w : World K) : Act K → Bool
  | .stall _ => false
  | a => w.acknowledged R a

variable [Field K] [LinearOrder K] [FloorRing K]

def runIf (cfg : Config) (Q : World K → Act K → Bool) : World K → List (Act K) → Option (World K)
  | w, [] => some w
  | w, a :: acts => if Q w a then (w.act cfg a).bind fun w' => runIf cfg Q w' acts else none

variable {cfg : Config} {Q : World K → Act K → Bool} {w w' : World K} {acts : List (Act K)}

theorem runIf_cons_eq_some {a : Act K} : w.runIf cfg Q (a :: acts) = some w' ↔
    Q w a = true ∧ ∃ v, w.act cfg a = some v ∧ v.runIf cfg Q acts = some w' := by
  rw [runIf]
  cases Q w a with
  | true => simp [Option.bind_eq_some_iff]
  | false => simp

/-- A property kept by each action that satisfies `Q` holds at the end of such a run. -/
theorem runIf_invariant {I : World K → Prop} {P : Act K → Prop}
    (hstep : ∀ w a w', I w → P a → Q w a = true → w.act cfg a = some w' → I w') (hw : I w)
    (hacts : ∀ a ∈ acts, P a) (h : w.runIf cfg Q acts = some w') : I w' := by
  induction acts generalizing w with
  | nil => exact Option.some.inj h ▸ hw
  | cons a acts ih =>
    obtain ⟨hQ, v, hv, h⟩ := runIf_cons_eq_some.mp h
    exact ih (hstep w a v hw (hacts a List.mem_cons_self) hQ hv)
      (fun b hb => hacts b (List.mem_cons_of_mem _ hb)) h

end World

section Operations

variable [Field K] [LinearOrder K] [FloorRing K]
variable {env : Env K} {s t : Shared K} {e : Eff K} {id : ObjectId}

def Eff.target : Eff K → Option String
  | .setJobObjectKey j _ | .markJobProcessing j | .markJobCompleted j _ => some j
  | .markJobFailed j _ => j
  | .insertBeatmap b => some b.jobId
  | _ => none

omit [Field K] [LinearOrder K] [FloorRing K] in
theorem Eff.target_of_silent (he : e.silent = true) : e.target = none := by
  cases e <;> first | rfl | cases he

inductive Wrote (env : Env K) (s : Shared K) : Eff K → Shared K → Prop
  | nothing (e : Eff K) (he : ∀ flow, e ≠ .addFlow flow) : Wrote env s e s
  | job (job : NewMapJob) {c : Collection ObjectId MapJobDoc}
      (hc : s.mapJobs.insertOne env.newId job.document = some c) :
      Wrote env s (.insertMapJob job) { s with mapJobs := c }
  | update {e : Eff K} {j : String} {id : ObjectId} (he : e.target = some j)
      (hid : ObjectId.parse j = some id) (f : MapJobDoc → MapJobDoc) :
      Wrote env s e { s with mapJobs := s.mapJobs.updateOne id f }
  | beatmap (b : NewBeatmap K) {c : Collection ObjectId (BeatmapDoc K)}
      (hc : s.beatmaps.insertOne env.newId (b.document env.now) = some c) :
      Wrote env s (.insertBeatmap b) { s with beatmaps := c }
  | object (key : String) (body : Bytes) : Wrote env s (.upload key body)
      { s with objects := fun k => if k = key then some body else s.objects k }
  | flow (flow : FlowSpec (Json K)) :
      Wrote env s (.addFlow flow) { s with flows := s.flows ++ [.add env.jobIds flow] }

omit [Field K] [LinearOrder K] [FloorRing K] in
private theorem wrote_updateJob {j : String} {f : MapJobDoc → MapJobDoc} {a : Unit}
    (h : s.updateJob j f = some (a, t)) (he : e.target = some j) : Wrote env s e t := by
  obtain ⟨id, hid, h⟩ := Option.map_eq_some_iff.mp h
  obtain ⟨-, rfl⟩ := Prod.mk.inj h
  exact .update he hid f

theorem wrote_of_exec {a : Ans e} (h : exec env s e = some (a, t)) : Wrote env s e t := by
  cases e with
  | insertMapJob job =>
    obtain ⟨c, hc, h⟩ := Option.map_eq_some_iff.mp h
    obtain ⟨-, rfl⟩ := Prod.mk.inj h
    exact .job job hc
  | insertBeatmap b =>
    obtain ⟨c, hc, h⟩ := Option.map_eq_some_iff.mp h
    obtain ⟨-, rfl⟩ := Prod.mk.inj h
    exact .beatmap b hc
  | setJobObjectKey j key | markJobProcessing j | markJobCompleted j b =>
    exact wrote_updateJob h rfl
  | markJobFailed j error =>
    cases j with
    | none =>
      obtain ⟨-, rfl⟩ := Prod.mk.inj (Option.some.inj h)
      exact .nothing _ nofun
    | some j => exact wrote_updateJob h rfl
  | upload key body =>
    obtain ⟨-, rfl⟩ := Prod.mk.inj (Option.some.inj h)
    exact .object key body
  | addFlow flow =>
    obtain ⟨-, rfl⟩ := Prod.mk.inj (Option.some.inj h)
    exact .flow flow
  | _ =>
    obtain rfl := exec_quiet rfl h
    exact .nothing _ nofun

/-- What a poll and the beatmap list have to say about a map job. -/
structure Untouched (s t : Shared K) (id : ObjectId) : Prop where
  doc : t.mapJobs.findOne id = s.mapJobs.findOne id
  beatmaps : (t.beatmaps.select fun d => d.jobId = id.str) =
    s.beatmaps.select fun d => d.jobId = id.str

omit [Field K] [LinearOrder K] [FloorRing K] in
/-- An operation about another map job. -/
theorem Wrote.untouched (h : Wrote env s e t)
    (htarget : ∀ j, e.target = some j → ObjectId.parse j ≠ some id)
    (hid : s.mapJobs.findOne id ≠ none) : Untouched s t id := by
  cases h with
  | job n hc =>
    have hne : id ≠ env.newId := fun hid' => hid (hid' ▸ (Collection.insertOne_eq_some.mp hc).1)
    exact ⟨(Collection.findOne_insertOne hc id).trans (if_neg hne), rfl⟩
  | update he hid' f =>
    refine ⟨Collection.findOne_updateOne_ne _ _ fun hid => ?_, rfl⟩
    exact htarget _ he (hid ▸ hid')
  | beatmap b hc =>
    refine ⟨rfl, ?_⟩
    have hne : ¬ b.jobId = id.str := fun hj => htarget b.jobId rfl (by rw [hj, ObjectId.parse_str])
    rw [Collection.select_insertOne hc]
    simp [NewBeatmap.document, hne]
  | _ => exact ⟨rfl, rfl⟩

omit [Field K] [LinearOrder K] [FloorRing K] in
/-- Only `addFlow` changes the queues. -/
theorem Wrote.flows (h : Wrote env s e t) : t.flows = s.flows ∨
    ∃ flow, e = .addFlow flow ∧ t.flows = s.flows ++ [.add env.jobIds flow] := by
  cases h with
  | flow flow => exact Or.inr ⟨flow, rfl, rfl⟩
  | _ => exact Or.inl rfl

omit [Field K] [LinearOrder K] [FloorRing K] in
/-- Only `insertMapJob` adds a map job. -/
theorem Wrote.docs (h : Wrote env s e t) (hid : t.mapJobs.findOne id ≠ none) :
    s.mapJobs.findOne id ≠ none ∨ ∃ n, e = .insertMapJob n ∧ id = env.newId := by
  cases h with
  | job n hc =>
    by_cases hnew : id = env.newId
    · exact Or.inr ⟨n, rfl, hnew⟩
    · refine Or.inl (mt (fun hold => ?_) hid)
      exact (Collection.findOne_insertOne hc id).trans ((if_neg hnew).trans hold)
  | update he hid' f =>
    refine Or.inl (mt (fun hold => ?_) hid)
    show (s.mapJobs.updateOne _ f).findOne id = none
    rw [Collection.findOne_updateOne, hold]
    simp
  | _ => exact Or.inl hid

variable {u : Shared K} {i : ℕ} {task : Task K} {o : Outcome K} {r : Reply (Ans e) Exc}

theorem perform_untouched (h : s.perform i task e o = some (r, u))
    (htarget : ∀ j, e.target = some j → ObjectId.parse j ≠ some id)
    (hid : s.mapJobs.findOne id ≠ none) : Untouched s u id := by
  rcases perform_cases h with ⟨env, a, t, -, hexec, -, rfl⟩ | ⟨-, rfl⟩
  · have hun := (wrote_of_exec hexec).untouched htarget hid
    exact ⟨hun.doc, hun.beatmaps⟩
  · exact ⟨rfl, rfl⟩

theorem perform_flows (h : s.perform i task e o = some (r, u)) : u.flows = s.flows ∨
    ∃ ids flow, e = .addFlow flow ∧ r.applied ≠ none ∧
      u.flows = s.flows ++ [.add ids flow] := by
  rcases perform_cases h with ⟨env, a, t, -, hexec, ha, rfl⟩ | ⟨-, rfl⟩
  · rcases (wrote_of_exec hexec).flows with hsame | ⟨flow, he, hadd⟩
    · exact Or.inl hsame
    · exact Or.inr ⟨env.jobIds, flow, he, by simp [ha], hadd⟩
  · exact Or.inl rfl

/-- Only `addFlow` changes the flows. -/
theorem perform_flows_of_ne (h : s.perform i task e o = some (r, u))
    (he : ∀ flow, e ≠ .addFlow flow) : u.flows = s.flows := by
  rcases perform_flows h with hsame | ⟨_, flow, hadd, -⟩
  · exact hsame
  · exact (he flow hadd).elim

/-- A flow was there before, or is the one that was added. -/
theorem mem_flows_of_perform (h : s.perform i task e o = some (r, u)) {F : PipelineFlow K}
    (hF : F ∈ u.flows) : F ∈ s.flows ∨ ∃ ids flow, e = .addFlow flow ∧ F = .add ids flow := by
  rcases perform_flows h with hsame | ⟨ids, flow, he, -, hadd⟩
  · exact Or.inl (hsame ▸ hF)
  · rw [hadd] at hF
    rcases List.mem_append.mp hF with hold | hnew
    · exact Or.inl hold
    · exact Or.inr ⟨ids, flow, he, List.mem_singleton.mp hnew⟩

theorem perform_docs (h : s.perform i task e o = some (r, u))
    (hid : u.mapJobs.findOne id ≠ none) :
    s.mapJobs.findOne id ≠ none ∨ (∃ n, e = .insertMapJob n) ∧ r.applied ≠ none := by
  rcases perform_cases h with ⟨env, a, t, -, hexec, ha, rfl⟩ | ⟨-, rfl⟩
  · rcases (wrote_of_exec hexec).docs hid with hold | ⟨n, he, -⟩
    · exact Or.inl hold
    · exact Or.inr ⟨⟨n, he⟩, by simp [ha]⟩
  · exact Or.inl hid

/-- An update of one map job that took effect, or none. -/
theorem perform_update {f : MapJobDoc → MapJobDoc} {d : MapJobDoc}
    (h : s.perform i task e o = some (r, u))
    (he : ∀ env a t, exec env s e = some (a, t) →
      t = { s with mapJobs := s.mapJobs.updateOne id f })
    (hd : s.mapJobs.findOne id = some d) :
    (r.applied = none ∧ u.mapJobs.findOne id = some d ∨
      r.applied ≠ none ∧ u.mapJobs.findOne id = some (f d)) ∧
      u.beatmaps = s.beatmaps ∧ u.flows = s.flows := by
  rcases perform_cases h with ⟨env, a, t, -, hexec, ha, rfl⟩ | ⟨ha, rfl⟩
  · obtain rfl := he env a t hexec
    refine ⟨Or.inr ⟨by simp [ha], ?_⟩, rfl, rfl⟩
    exact (Collection.findOne_updateOne_self _ _ _).trans (congrArg (Option.map f) hd)
  · exact ⟨Or.inl ⟨ha, hd⟩, rfl, rfl⟩

theorem perform_raised {x : Exc} (h : s.perform i task e o = some (.raised x, u)) :
    o = .raised x := by
  cases o <;> simp_all [Shared.perform]

theorem perform_lost {a : Ans e} {x : Exc} (h : s.perform i task e o = some (.lost a x, u)) :
    ∃ env, o = .lost env x := by
  cases o with
  | lost env y =>
    obtain ⟨at', -, he⟩ := Option.map_eq_some_iff.mp h
    obtain ⟨-, rfl⟩ := Reply.lost.inj (Prod.mk.inj he).1
    exact ⟨env, rfl⟩
  | _ => simp [Shared.perform] at h

theorem perform_event (h : s.perform i task e o = some (r, u)) :
    (⟨i, task, e, r⟩ : Event K) ∈ u.history := by
  rcases perform_cases h with ⟨_, _, t, -, -, -, rfl⟩ | ⟨-, rfl⟩ <;>
    exact List.mem_append_right _ (List.mem_singleton_self _)

end Operations

section Workers

theorem Life.set_self {L : Life} {role : Role} {p : Phase} (h : L.phase role = some p) :
    L.set role p = L := by
  rw [set, ← h, Function.update_eq_self]

theorem workerNext_silent {stage : Stage} {e : Eff K} (he : e.silent = true)
    (r : Reply (Ans e) Exc) : workerNext stage e r = stage := by
  cases e <;> first | rfl | cases he

theorem target_of_allowed {cfg : Config} {role : Role} {j j' : String} {q : Request}
    {final : Bool} {stage : Stage} {e : Eff K}
    (h : WorkerAllows cfg role j q final stage e) (ht : e.target = some j') : j' = j := by
  cases stage with
  | working =>
    cases e with
    | markJobProcessing j₁ => exact (Option.some.inj ht).symm.trans h.2
    | markJobFailed j₁ error => exact Option.some.inj (ht.symm.trans h.2)
    | insertBeatmap b => exact (Option.some.inj ht).symm.trans h.2
    | setJobObjectKey j₁ key | markJobCompleted j₁ b => cases h
    | _ => cases ht
  | inserted b =>
    cases e with
    | markJobCompleted j₁ b₁ => exact (Option.some.inj ht).symm.trans h.2.1
    | _ => cases h
  | _ => cases h

/-- An attempt is decided by an event of its own. -/
theorem workerNext_decided {stage : Stage} (i : ℕ) (task : Task K) {e : Eff K}
    {r : Reply (Ans e) Exc} (h : (workerNext stage e r).decided = true) :
    stage.decided = true ∨ (⟨i, task, e, r⟩ : Event K).decides = true := by
  cases e with
  | addFlow flow | insertBeatmap b | markJobCompleted j b | markJobFailed j error =>
    cases r <;> first | exact Or.inl h | exact Or.inr rfl | cases h
  | _ => exact Or.inl h

/-- Thread `i` is the attempt at the job `ref`, and `e` is its next operation. -/
structure Turn (cfg : Config) (q : Request) (id : ObjectId) (w : World K) (L : Life) (role : Role)
    (ref : JobRef) (job : Job ℕ (Json K) (Json K)) (i : ℕ) (stage : Stage) (e : Eff K)
    (k : Except Exc (Ans e) → Prog K (Json K)) : Prop where
  tracks : Tracks cfg q id w L
  placed : Placed cfg q id.str w.shared role ref
  found : w.job? ref = some job
  active : job.state = .active i
  phase : L.phase role = some (.active stage)
  allowed : WorkerAllows cfg role id.str q job.exhausted stage e
  follows : ∀ r, Follows (workerProtocol cfg role id.str q job.exhausted)
    (Settled role job.exhausted) (workerNext stage e r) (k r.seen)
  decided : stage.decided = true → ∃ ev ∈ w.shared.history, ev.actor = i ∧ ev.decides = true

def World.after (w : World K) (s : Shared K) (i : ℕ) (ref : JobRef)
    (job : Job ℕ (Json K) (Json K)) (program : Prog K (Json K)) : World K :=
  ⟨s, w.threads.set i ⟨.worker (.ofJob ref job), program⟩⟩

namespace Turn

variable [Field K] [LinearOrder K] [FloorRing K]
variable {cfg : Config} {q : Request} {id : ObjectId} {w : World K} {L L' : Life} {role : Role}
  {ref : JobRef} {job : Job ℕ (Json K) (Json K)} {i : ℕ} {stage : Stage} {e : Eff K}
  {k : Except Exc (Ans e) → Prog K (Json K)} {s : Shared K} {o : Outcome K}
  {r : Reply (Ans e) Exc}

/-- The attempt goes on in its protocol. -/
theorem next (h : Turn cfg q id w L role ref job i stage e k) (hg : Grows w.shared s)
    (hevent : (⟨i, .worker (.ofJob ref job), e, r⟩ : Event K) ∈ s.history)
    (hflows : s.flows = w.shared.flows)
    (hdoc : ∃ d, s.mapJobs.findOne id = some d ∧ d.status = L'.status ∧
      d.beatmapId = L'.beatmapId ∧ d.error = L'.error)
    (hmade : (s.beatmaps.select fun d => d.jobId = id.str).map (fun e => e.1.str) = L'.made)
    (hphase : L'.phase = (L.set role (.active (workerNext stage e r))).phase) :
    Tracks cfg q id (w.after s i ref job (k r.seen)) L' := by
  refine h.tracks.perform h.placed h.found h.active hg hflows hdoc hmade hphase (h.follows r) ?_
  intro hdecided
  rcases workerNext_decided i (.worker (.ofJob ref job)) hdecided with hold | hnew
  · obtain ⟨ev, hev, hactor⟩ := h.decided hold
    exact ⟨ev, hg.history ev hev, hactor⟩
  · exact ⟨_, hevent, rfl, hnew⟩

/-- An operation that leaves the life as it is. -/
theorem same (h : Turn cfg q id w L role ref job i stage e k) (hg : Grows w.shared s)
    (hperform : w.shared.perform i (.worker (.ofJob ref job)) e o = some (r, s))
    (hdoc : Untouched w.shared s id) (hflows : s.flows = w.shared.flows)
    (hnext : workerNext stage e r = stage) :
    Tracks cfg q id (w.after s i ref job (k r.seen)) L := by
  refine h.next hg (perform_event hperform) hflows (hdoc.doc ▸ h.tracks.doc)
    (hdoc.beatmaps ▸ h.tracks.made) ?_
  rw [hnext, Life.set_self h.phase]

theorem silent (h : Turn cfg q id w L role ref job i stage e k) (hg : Grows w.shared s)
    (he : e.silent = true)
    (hperform : w.shared.perform i (.worker (.ofJob ref job)) e o = some (r, s)) :
    Tracks cfg q id (w.after s i ref job (k r.seen)) L := by
  obtain ⟨d, hd, -⟩ := h.tracks.doc
  have hdoc : Untouched w.shared s id := by
    refine perform_untouched hperform (fun j hj => ?_) (by simp [hd])
    simp [Eff.target_of_silent he] at hj
  refine h.same hg hperform hdoc (perform_flows_of_ne hperform ?_) (workerNext_silent he r)
  rintro flow rfl
  cases he

omit [Field K] [LinearOrder K] [FloorRing K] in
private theorem exec_update {s t : Shared K} {f : MapJobDoc → MapJobDoc} {a : Unit}
    (h : s.updateJob id.str f = some (a, t)) :
    t = { s with mapJobs := s.mapJobs.updateOne id f } := by
  simpa [Shared.updateJob, eq_comm] using h

variable {R : Rules}

theorem markJobProcessing {j : String} {k : Except Exc Unit → Prog K (Json K)}
    {r : Reply Unit Exc} (h : Turn cfg q id w L role ref job i stage (.markJobProcessing j) k)
    (hg : Grows w.shared s)
    (hperform : w.shared.perform i (.worker (.ofJob ref job)) (.markJobProcessing j) o =
      some (r, s)) : ∃ L', Relation.ReflTransGen (Life.Step R) L L' ∧
        Tracks cfg q id (w.after s i ref job (k r.seen)) L' := by
  obtain ⟨rfl, rfl, rfl⟩ : stage = .working ∧ role = .stem ∧ j = id.str := by
    cases stage <;> first | exact ⟨rfl, h.allowed⟩ | exact h.allowed.elim
  obtain ⟨d, hd, hstatus, hb, herror⟩ := h.tracks.doc
  obtain ⟨hdoc, hbeatmaps, hflows⟩ := perform_update hperform (fun _ _ _ => exec_update) hd
  rcases hdoc with ⟨-, hd'⟩ | ⟨-, hd'⟩
  · exact ⟨L, .refl, h.same hg hperform ⟨hd'.trans hd.symm, by rw [hbeatmaps]⟩ hflows rfl⟩
  · refine ⟨_, .single (.markProcessing h.phase), ?_⟩
    refine h.next hg (perform_event hperform) hflows ⟨_, hd', rfl, hb, herror⟩
      (hbeatmaps ▸ h.tracks.made) ?_
    show L.phase = (L.set .stem (.active .working)).phase
    rw [Life.set_self h.phase]

theorem markJobFailed {j : Option String} {error : String} {k : Except Exc Unit → Prog K (Json K)}
    {r : Reply Unit Exc} (h : Turn cfg q id w L role ref job i stage (.markJobFailed j error) k)
    (hg : Grows w.shared s) (hsmooth : smooth R (.markJobFailed j error : Eff K) o = true)
    (hperform : w.shared.perform i (.worker (.ofJob ref job)) (.markJobFailed j error) o =
      some (r, s)) : ∃ L', Relation.ReflTransGen (Life.Step R) L L' ∧
        Tracks cfg q id (w.after s i ref job (k r.seen)) L' := by
  obtain ⟨rfl, -, rfl⟩ : stage = .working ∧ job.exhausted = true ∧ j = some id.str := by
    cases stage <;> first | exact ⟨rfl, h.allowed⟩ | exact h.allowed.elim
  obtain ⟨d, hd, hstatus, hb, herror⟩ := h.tracks.doc
  obtain ⟨hdoc, hbeatmaps, hflows⟩ := perform_update hperform (fun _ _ _ => exec_update) hd
  have hmade := hbeatmaps ▸ h.tracks.made
  cases r with
  | raised x =>
    have hgaveUp : R.givesUp = true := by
      obtain rfl := perform_raised hperform
      exact hsmooth
    refine ⟨_, .single (.move role h.phase (.giveUp hgaveUp)), ?_⟩
    rcases hdoc with ⟨-, hd'⟩ | ⟨hr, -⟩
    · exact h.next hg (perform_event hperform) hflows ⟨d, hd', hstatus, hb, herror⟩ hmade rfl
    · exact (hr rfl).elim
  | done a | lost a x =>
    refine ⟨_, .single (.report role error h.phase), ?_⟩
    rcases hdoc with ⟨hr, -⟩ | ⟨-, hd'⟩
    · cases hr
    · exact h.next hg (perform_event hperform) hflows ⟨_, hd', rfl, hb, rfl⟩ hmade rfl

theorem markJobCompleted {j b : String} {k : Except Exc Unit → Prog K (Json K)}
    {r : Reply Unit Exc} (h : Turn cfg q id w L role ref job i stage (.markJobCompleted j b) k)
    (hg : Grows w.shared s) (hsmooth : smooth R (.markJobCompleted j b : Eff K) o = true)
    (hperform : w.shared.perform i (.worker (.ofJob ref job)) (.markJobCompleted j b) o =
      some (r, s)) : ∃ L', Relation.ReflTransGen (Life.Step R) L L' ∧
        Tracks cfg q id (w.after s i ref job (k r.seen)) L' := by
  obtain ⟨rfl, rfl, rfl⟩ : stage = .inserted b ∧ role = .root ∧ j = id.str := by
    cases stage <;> first
      | exact ⟨by rw [h.allowed.2.2], h.allowed.1, h.allowed.2.1⟩ | cases h.allowed
  obtain ⟨d, hd, hstatus, hb, herror⟩ := h.tracks.doc
  obtain ⟨hdoc, hbeatmaps, hflows⟩ := perform_update hperform (fun _ _ _ => exec_update) hd
  have hmade := hbeatmaps ▸ h.tracks.made
  cases r with
  | raised x =>
    have hstrays : R.strays = true := by
      obtain rfl := perform_raised hperform
      exact hsmooth
    refine ⟨_, .single (.abandon b hstrays h.phase), ?_⟩
    rcases hdoc with ⟨-, hd'⟩ | ⟨hr, -⟩
    · exact h.next hg (perform_event hperform) hflows ⟨d, hd', hstatus, hb, herror⟩ hmade rfl
    · exact (hr rfl).elim
  | done a =>
    refine ⟨_, .single (.complete b h.phase), ?_⟩
    rcases hdoc with ⟨hr, -⟩ | ⟨-, hd'⟩
    · cases hr
    · exact h.next hg (perform_event hperform) hflows ⟨_, hd', rfl, rfl, herror⟩ hmade rfl
  | lost a x =>
    obtain ⟨env, rfl⟩ := perform_lost hperform
    cases hsmooth

theorem insertBeatmap {b : NewBeatmap K} {k : Except Exc String → Prog K (Json K)}
    {r : Reply String Exc} (h : Turn cfg q id w L role ref job i stage (.insertBeatmap b) k)
    (hg : Grows w.shared s) (hsmooth : smooth R (.insertBeatmap b) o = true)
    (hperform : w.shared.perform i (.worker (.ofJob ref job)) (.insertBeatmap b) o =
      some (r, s)) : ∃ L', Relation.ReflTransGen (Life.Step R) L L' ∧
        Tracks cfg q id (w.after s i ref job (k r.seen)) L' := by
  obtain ⟨rfl, rfl, hj⟩ : stage = .working ∧ role = .root ∧ b.jobId = id.str := by
    cases stage <;> first | exact ⟨rfl, h.allowed⟩ | exact h.allowed.elim
  have hevent := perform_event hperform
  rcases perform_cases hperform with ⟨env, a, t, -, hexec, ha, rfl⟩ | ⟨ha, rfl⟩
  · obtain ⟨c, hc, he⟩ := Option.map_eq_some_iff.mp hexec
    obtain ⟨rfl, rfl⟩ := Prod.mk.inj he
    have hmade : (c.select fun d => d.jobId = id.str).map (fun e => e.1.str) =
        L.made ++ [env.newId.str] := by
      rw [Collection.select_insertOne hc, List.map_append, h.tracks.made]
      simp [NewBeatmap.document, hj]
    cases r with
    | done a =>
      obtain rfl := Option.some.inj ha
      exact ⟨_, .single (.insert env.newId.str h.phase),
        h.next hg hevent rfl h.tracks.doc hmade rfl⟩
    | raised x => cases ha
    | lost a x =>
      obtain ⟨env', rfl⟩ := perform_lost hperform
      refine ⟨_, .single (.stray env.newId.str hsmooth h.phase),
        h.next hg hevent rfl h.tracks.doc hmade ?_⟩
      show L.phase = (L.set .root (.active .working)).phase
      rw [Life.set_self h.phase]
  · cases r with
    | raised x => exact ⟨L, .refl, h.same hg hperform ⟨rfl, rfl⟩ rfl rfl⟩
    | done a | lost a x => cases ha

theorem addFlow {flow : FlowSpec (Json K)} {k : Except Exc Unit → Prog K (Json K)}
    {r : Reply Unit Exc} (h : Turn cfg q id w L role ref job i stage (.addFlow flow) k)
    (hshape : Life.Shape R L) (hg : Grows w.shared s) (hsmooth : smooth R (.addFlow flow) o = true)
    (hperform : w.shared.perform i (.worker (.ofJob ref job)) (.addFlow flow) o =
      some (r, s)) : ∃ L', Relation.ReflTransGen (Life.Step R) L L' ∧
        Tracks cfg q id (w.after s i ref job (k r.seen)) L' := by
  obtain ⟨rfl, rfl, duration, bpm, rfl⟩ : stage = .working ∧ role = .stem ∧
      ∃ duration bpm, flow = q.songFlow cfg id.str duration bpm := by
    cases stage <;> first | exact ⟨rfl, h.allowed⟩ | exact h.allowed.elim
  have hevent := perform_event hperform
  rcases perform_cases hperform with ⟨env, a, t, -, hexec, ha, rfl⟩ | ⟨ha, rfl⟩
  · obtain ⟨-, rfl⟩ := Prod.mk.inj (Option.some.inj hexec)
    cases r with
    | done a =>
      refine ⟨_, .single (.addSong h.phase), ?_⟩
      have hnext : Tracks cfg q id (w.after (w.shared.record ⟨i, .worker (.ofJob ref job),
          .addFlow (q.songFlow cfg id.str duration bpm), .done a⟩) i ref job (k (.ok a)))
          (L.set .stem (.active .done)) := by
        refine h.next (r := .done a) (Grows.record _ _)
          (List.mem_append_right _ (List.mem_singleton_self _)) rfl ?_ ?_ rfl
        · exact h.tracks.doc
        · exact h.tracks.made
      refine hnext.addFlow rfl rfl (fun role hrole => ?_) fun role hrole => ?_
      · rw [Flow.spec_add] at hrole
        cases role with
        | stem => exact (Life.set_phase_self L .stem _).symm
        | _ => exact (hrole ⟨duration, bpm, rfl⟩).elim
      · rw [Flow.spec_add] at hrole
        have hne : role ≠ .stem := by
          rintro rfl
          exact stemFlow_ne_songFlow (show _ = q.stemFlow cfg id.str from hrole).symm
        refine ⟨by rw [Life.set_phase, if_neg hne, hshape.no_song h.phase hne], ?_⟩
        cases role with
        | stem => exact (hne rfl).elim
        | root => exact ⟨_, .blocked, rfl, rfl, rfl⟩
        | kick => exact ⟨_, .waiting, rfl, rfl, rfl⟩
        | melody => exact ⟨_, .waiting, rfl, rfl, rfl⟩
    | raised x => cases ha
    | lost a x =>
      obtain ⟨env', rfl⟩ := perform_lost hperform
      cases hsmooth
  · cases r with
    | raised x => exact ⟨L, .refl, h.same hg hperform ⟨rfl, rfl⟩ rfl rfl⟩
    | done a | lost a x => cases ha

/-- Whatever the attempt does next is a step in the life of its map job, or none. -/
theorem step (h : Turn cfg q id w L role ref job i stage e k) (hshape : Life.Shape R L)
    (hg : Grows w.shared s) (hsmooth : smooth R e o = true)
    (hperform : w.shared.perform i (.worker (.ofJob ref job)) e o = some (r, s)) :
    ∃ L', Relation.ReflTransGen (Life.Step R) L L' ∧
      Tracks cfg q id (w.after s i ref job (k r.seen)) L' := by
  cases e with
  | insertMapJob n | setJobObjectKey j key => cases stage <;> cases h.allowed
  | markJobProcessing j => exact h.markJobProcessing hg hperform
  | markJobFailed j error => exact h.markJobFailed hg hsmooth hperform
  | markJobCompleted j b => exact h.markJobCompleted hg hsmooth hperform
  | insertBeatmap b => exact h.insertBeatmap hg hsmooth hperform
  | addFlow flow => exact h.addFlow hshape hg hsmooth hperform
  | _ => exact ⟨L, .refl, h.silent hg rfl hperform⟩

end Turn

section Others

variable [Field K] [LinearOrder K] [FloorRing K]
variable {cfg : Config} {q q' : Request} {id id' : ObjectId} {w : World K} {L L' : Life}
  {role : Role} {ref : JobRef} {job : Job ℕ (Json K) (Json K)} {i : ℕ} {stage : Stage} {e : Eff K}
  {k : Except Exc (Ans e) → Prog K (Json K)} {s : Shared K} {o : Outcome K}
  {r : Reply (Ans e) Exc}

omit [Field K] [LinearOrder K] [FloorRing K] in
/-- A step of a thread that works for no queue job of this map job, which may add a flow of
another one. -/
theorem Tracks.onlooker (h : Tracks cfg q id w L) {th : Thread K} (hg : Grows w.shared s)
    (hdoc : ∃ d, s.mapJobs.findOne id = some d ∧ d.status = L.status ∧
      d.beatmapId = L.beatmapId ∧ d.error = L.error)
    (hmade : (s.beatmaps.select fun d => d.jobId = id.str).map (fun e => e.1.str) = L.made)
    (hflows : s.flows = w.shared.flows ∨ ∃ F, s.flows = w.shared.flows ++ [F] ∧
      ∀ role, ¬ FlowOf cfg q id.str role F.spec)
    (hi : ∀ role ref job, Placed cfg q id.str w.shared role ref → w.job? ref = some job →
      job.state ≠ .active i) : Tracks cfg q id ⟨s, w.threads.set i th⟩ L := by
  rcases hflows with hsame | ⟨F, hadd, hF⟩
  · exact h.frame hg hsame hdoc hmade hi
  · have hg' : Grows w.shared { s with flows := w.shared.flows } :=
      { hg with flows := fun _ F hF => ⟨F, hF, rfl⟩ }
    exact (h.frame hg' rfl hdoc hmade hi).addFlow hadd rfl (fun _ _ => rfl)
      fun role hrole => (hF role hrole).elim

/-- The other map jobs do not notice an attempt. -/
theorem Turn.other (hturn : Turn cfg q id w L role ref job i stage e k)
    (h : Tracks cfg q' id' w L') (hne : id' ≠ id)
    (hth : ∃ program, w.threads[i]? = some ⟨.worker (.ofJob ref job), program⟩)
    (hg : Grows w.shared s)
    (hperform : w.shared.perform i (.worker (.ofJob ref job)) e o = some (r, s)) :
    Tracks cfg q' id' (w.after s i ref job (k r.seen)) L' := by
  have hstr : id'.str ≠ id.str := fun he => hne (ObjectId.str_injective he)
  obtain ⟨d, hd, -⟩ := h.doc
  have hun : Untouched w.shared s id' := by
    refine perform_untouched hperform (fun j hj => ?_) (by simp [hd])
    obtain rfl : j = id.str := target_of_allowed hturn.allowed hj
    simpa using hne.symm
  refine h.onlooker hg (hun.doc ▸ h.doc) (hun.beatmaps ▸ h.made) ?_ ?_
  · rcases perform_flows hperform with hsame | ⟨ids, flow, rfl, -, hadd⟩
    · exact Or.inl hsame
    · refine Or.inr ⟨_, hadd, fun role' hrole' => ?_⟩
      obtain ⟨-, duration, bpm, rfl⟩ : role = .stem ∧
          ∃ duration bpm, flow = q.songFlow cfg id.str duration bpm := by
        have hallowed := hturn.allowed
        cases stage <;> first | exact hallowed | exact hallowed.elim
      rw [Flow.spec_add] at hrole'
      exact hstr (hrole'.inj (show FlowOf cfg q id.str .root _ from ⟨duration, bpm, rfl⟩)).1
  · intro role' ref' job' hr' hjob' hactive'
    obtain ⟨_, p, hjob, -, hrel⟩ := h.tracked role' ref' hr'
    obtain rfl := Option.some.inj (hjob'.symm.trans hjob)
    obtain ⟨_, _, rfl, hth', -⟩ := hrel.active_of hactive'
    obtain ⟨program, hth⟩ := hth
    obtain ⟨hview, -⟩ := Thread.mk.inj (Option.some.inj (hth.symm.trans hth'))
    have href : ref = ref' := congrArg JobView.ref (Task.worker.inj hview)
    exact hstr (hr'.inj (href ▸ hturn.placed)).1

end Others

end Workers

end Maps
