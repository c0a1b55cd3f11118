import BeatmapBackend.Effects.Blame
import BeatmapBackend.Maps.PublicAccess
import BeatmapBackend.Maps.Readiness

/-! What a failure may be blamed on. No attempt fails over its payload, the results of its
children, the lanes or its own files: what it raises was raised to it by an operation, or it
is that demucs wrote the stems under another name. The error a client reads is one of these. -/
namespace Maps
open Effects Wire Queues Program Collections

variable {K : Type}

def RaisedTo (s : Shared K) (i : ℕ) (x : Exc) : Prop :=
  ∃ (task : Task K) (e : Eff K) (r : Reply (Ans e) Exc),
    (⟨i, task, e, r⟩ : Event K) ∈ s.history ∧ r.seen = .error x

def StemMissing (name : String) (x : Exc) : Prop :=
  stemDir (scratch.join name) ≠ demucsDir (scratch.join name) ∧
    ∃ wav, Files.empty.read ((stemDir (scratch.join name)).join wav) = .error x

def Blamed (s : Shared K) (i : ℕ) (view : JobView K) (x : Exc) : Prop :=
  RaisedTo s i x ∨ view.queueName = stemSeparationQueueName ∧ ∃ j q, Created s j q ∧
    view.data.get? "job_id" = some (.str j) ∧ StemMissing q.name x

/-- A failure is reported on the final attempt, for the map job of the payload, with the text
of an exception that `blamed` allows. -/
def Reports (view : JobView K) (blamed : Exc → Prop) : Eff K → Prop
  | .markJobFailed j text => isFinalAttempt view = true ∧
      (∃ id, j = some id ∧ view.data.get? "job_id" = some (.str id)) ∧
      ∃ x, blamed x ∧ text = x.str
  | _ => True

theorem Blamed.mono {s t : Shared K} {i : ℕ} {view : JobView K} {x : Exc}
    (h : Blamed s i view x) (hg : Grows s t) : Blamed t i view x := by
  rcases h with ⟨task, e, r, hev, hr⟩ | ⟨hqueue, j, q, hq, hid, hx⟩
  · exact Or.inl ⟨task, e, r, hg.history _ hev, hr⟩
  · exact Or.inr ⟨hqueue, j, q, hq.mono hg, hid, hx⟩

section Reads

open Paths

variable {fs : Files} {path a b : PurePath} {x : Exc}

theorem Files.read_error (h : fs.read path = .error x) : Files.empty.read path = .error x := by
  unfold read at h ⊢
  split at h
  · cases h
  · exact h

/-- A file that was written can be read, whatever was written later. -/
theorem Files.read_write_ne_error (fs : Files) (a b : PurePath) (v w : Bytes) :
    ((fs.write a v).write b w).read a ≠ .error x := by
  by_cases hab : a = b
  · subst hab
    simp
  · have hbeq : (a == b) = false := beq_eq_false_iff_ne.mpr hab
    simp [read, write, List.lookup_cons, hbeq]

/-- A missing stem is a stem in another place. -/
theorem stemMissing_of_read {name wav : String} {stems : Bytes × Bytes}
    (hwav : wav = "drums.wav" ∨ wav = "no_drums.wav")
    (h : (fs.separate (scratch.join name) stems).read
      ((stemDir (scratch.join name)).join wav) = .error x) : StemMissing name x := by
  refine ⟨fun hsame => ?_, wav, Files.read_error h⟩
  rw [hsame, Files.separate] at h
  rcases hwav with rfl | rfl
  · exact Files.read_write_ne_error fs _ _ _ _ h
  · simp at h

end Reads

section Answers

variable [Field K] [LinearOrder K] [FloorRing K]

def Answers : (e : Eff K) → Ans e → Prop
  | .getChildrenValues _, values => ∃ results, childResults (K := K) values = .ok results
  | _, _ => True

theorem buildDrumNotes_isOk (onsetTimes : List K) (onseter : KickOnseter K) {laneCount : ℤ}
    (h : 1 ≤ laneCount) : ∃ notes, buildDrumNotes onsetTimes onseter laneCount = .ok notes := by
  refine except_mapM_isOk fun x _ => ?_
  have hlane : laneCount ≠ 0 := by omega
  exact ⟨_, by simp only [buildDrumNote, floorMod, if_neg hlane]; rfl⟩

variable {cfg : Config} {view : JobView K} {blamed : Exc → Prop} {q : Request} {j : String}

theorem handled_accounts {process : Prog K (Json K)}
    (h : Accounts (Reports view blamed) Answers blamed process)
    (hid : view.data.get? "job_id" = some (.str j)) :
    Accounts (Reports view blamed) Answers blamed (handled view process) := by
  refine h.recover fun x hx => ?_
  cases hfinal : isFinalAttempt view with
  | true =>
    have hreported : reportedJobId view.data = .ok (some j) := by rw [reportedJobId, hid]
    rw [if_pos rfl, hreported, lift_ok_bind, markFailed]
    exact Accounts.perform_bind ⟨hfinal, ⟨j, rfl, hid⟩, x, hx, rfl⟩
      fun _ _ => Accounts.error_iff.mpr hx
  | false =>
    rw [if_neg (by simp)]
    exact Accounts.error_iff.mpr hx

theorem stem_accounts (hdata : view.data = (q.stemFlow cfg j).root.data)
    (hmissing : ∀ x, StemMissing q.name x → blamed x) :
    Accounts (Reports view blamed) Answers blamed (StemHandler.call cfg view) := by
  refine handled_accounts ?_ (by rw [hdata]; rfl)
  rw [StemHandler.process, hdata, Request.stemFlow, buildSeparateStemsJob,
    SeparateStemsJobPayload.modelValidate_modelDump, lift_ok_bind, markProcessing]
  refine Accounts.perform_bind trivial fun _ _ => Accounts.perform_bind trivial fun _ _ =>
    Accounts.perform_bind trivial fun downloaded _ => Accounts.lift_bind (fun audio _ => ?_) ?_
  · refine Accounts.perform_bind trivial fun _ _ => Accounts.perform_bind trivial fun _ _ =>
      Accounts.perform_bind trivial fun stems _ => ?_
    refine Accounts.lift_bind (fun drumStem _ => ?_)
      fun x hx => hmissing x (stemMissing_of_read (Or.inl rfl) hx)
    refine Accounts.perform_bind trivial fun _ _ => Accounts.lift_bind (fun melodyStem _ => ?_)
      fun x hx => hmissing x (stemMissing_of_read (Or.inr rfl) hx)
    exact Accounts.perform_bind trivial fun _ _ => Accounts.perform_bind trivial
      fun _ _ => Accounts.of_ok
  · simp

theorem kick_accounts {p : DetectKickOnsetsJobPayload} (hdata : view.data = p.modelDump)
    (hlanes : 1 ≤ p.laneCount) :
    Accounts (Reports view blamed) Answers blamed (KickHandler.call cfg view) := by
  refine handled_accounts (j := p.jobId) ?_ (by rw [hdata]; rfl)
  rw [KickHandler.process, hdata, DetectKickOnsetsJobPayload.modelValidate_modelDump, lift_ok_bind]
  refine Accounts.perform_bind trivial fun _ _ => Accounts.perform_bind trivial fun drumStem _ =>
    Accounts.perform_bind trivial fun original _ => Accounts.lift_bind (fun drums _ => ?_)
      fun x hx => (Files.read_write_ne_error _ _ _ _ _ hx).elim
  refine Accounts.lift_bind (fun mix _ => ?_) fun x hx => ?_
  · refine Accounts.perform_bind trivial fun significant _ => ?_
    split
    · refine Accounts.perform_bind trivial fun detected _ =>
        Accounts.lift_bind (fun notes _ => Accounts.of_ok) fun x hx => ?_
      obtain ⟨notes, hnotes⟩ := buildDrumNotes_isOk detected.1 detected.2 hlanes
      rw [hnotes] at hx
      cases hx
    · exact Accounts.of_ok
  · simp at hx

theorem melody_accounts {p : ExtractMelodyJobPayload} (hdata : view.data = p.modelDump) :
    Accounts (Reports view blamed) Answers blamed (MelodyHandler.call cfg view) := by
  refine handled_accounts (j := p.jobId) ?_ (by rw [hdata]; rfl)
  rw [MelodyHandler.process, hdata, ExtractMelodyJobPayload.modelValidate_modelDump, lift_ok_bind]
  refine Accounts.perform_bind trivial fun _ _ => Accounts.perform_bind trivial fun melodyStem _ =>
    Accounts.lift_bind (fun audio _ => ?_) (by simp)
  exact Accounts.perform_bind trivial fun _ _ => Accounts.perform_bind trivial
    fun _ _ => Accounts.of_ok

theorem beatmap_accounts {p : OrchestrateBeatmapJobPayload} (hdata : view.data = p.modelDump) :
    Accounts (Reports view blamed) Answers blamed (BeatmapHandler.call view) := by
  refine handled_accounts (j := p.jobId) ?_ (by rw [hdata]; rfl)
  rw [BeatmapHandler.process, hdata, OrchestrateBeatmapJobPayload.modelValidate_modelDump,
    lift_ok_bind]
  refine Accounts.perform_bind trivial fun values hvalues =>
    Accounts.lift_bind (fun results _ => ?_) fun x hx => ?_
  · simp only [finalizeBeatmap, Program.bind_assoc]
    exact Accounts.perform_bind trivial fun _ _ => Accounts.perform_bind trivial
      fun _ _ => Accounts.of_ok
  · obtain ⟨results, hok⟩ := hvalues
    rw [hok] at hx
    cases hx

/-- Whatever its job, an attempt accounts for what it raises and reports. -/
theorem handlerOf_accounts {P : Librosa K → Prop} {s : Shared K} {i : ℕ}
    {program : Prog K (Json K)} (hs : Legit cfg P s) (ha : Assigned s (.worker view))
    (hp : handlerOf cfg view = some program) (hblamed : ∀ x, Blamed s i view x → blamed x) :
    Accounts (Reports view blamed) Answers blamed program := by
  obtain ⟨j, q, hready, hheld⟩ := hs.held ha
  have hlanes : 1 ≤ q.lanes cfg :=
    (lanes_of_validateRequest (hs.created_doc j q hready.created).1).1
  have hid := hheld.jobId
  have hkick : kickOnsetQueueName ≠ stemSeparationQueueName := by decide
  have hmelody : melodyExtractionQueueName ≠ stemSeparationQueueName := by decide
  have hmelody' : melodyExtractionQueueName ≠ kickOnsetQueueName := by decide
  have hroot : beatmapOrchestrationQueueName ≠ stemSeparationQueueName := by decide
  have hroot' : beatmapOrchestrationQueueName ≠ kickOnsetQueueName := by decide
  have hroot'' : beatmapOrchestrationQueueName ≠ melodyExtractionQueueName := by decide
  cases hheld with
  | stem hchild hqueue hdata =>
    rw [handlerOf, if_pos hqueue] at hp
    obtain rfl := Option.some.inj hp
    exact stem_accounts hdata fun x hx =>
      hblamed x (Or.inr ⟨hqueue, j, q, hready.created, hid, hx⟩)
  | song duration bpm F hF hspec hm hdrum hmel hplace =>
    rcases hplace with ⟨-, hqueue, hdata⟩ | ⟨-, hqueue, hdata⟩ | ⟨-, hqueue, hdata⟩
    · simp only [handlerOf, hqueue, if_neg hroot, if_neg hroot', if_neg hroot'', if_pos] at hp
      obtain rfl := Option.some.inj hp
      exact beatmap_accounts hdata
    · simp only [handlerOf, hqueue, if_neg hkick, if_pos] at hp
      obtain rfl := Option.some.inj hp
      exact kick_accounts hdata hlanes
    · simp only [handlerOf, hqueue, if_neg hmelody, if_neg hmelody', if_pos] at hp
      obtain rfl := Option.some.inj hp
      exact melody_accounts hdata

end Answers

section Reported

variable {s u : Shared K} {i : ℕ} {id : ObjectId}

private theorem updateJob_doc {j : String} {f : MapJobDoc → MapJobDoc} {a : Unit}
    (h : s.updateJob j f = some (a, u)) {d : MapJobDoc} (hd : u.mapJobs.findOne id = some d) :
    s.mapJobs.findOne id = some d ∨
      ObjectId.parse j = some id ∧ ∃ d₀, s.mapJobs.findOne id = some d₀ ∧ d = f d₀ := by
  obtain ⟨id', hparse, h⟩ := Option.map_eq_some_iff.mp h
  obtain ⟨-, rfl⟩ := Prod.mk.inj h
  have hfind := (Collection.findOne_updateOne s.mapJobs id' f id).symm.trans hd
  by_cases hid : id = id'
  · rw [if_pos hid] at hfind
    obtain ⟨d₀, hd₀, rfl⟩ := Option.map_eq_some_iff.mp hfind
    exact Or.inr ⟨hid ▸ hparse, d₀, hd₀, rfl⟩
  · rw [if_neg hid] at hfind
    exact Or.inl hfind

variable [Field K] [LinearOrder K] [FloorRing K]

/-- Only `markJobFailed` writes an error. -/
theorem exec_error {env : Env K} {e : Eff K} {a : Ans e} (h : exec env s e = some (a, u))
    {d : MapJobDoc} {text : String} (hd : u.mapJobs.findOne id = some d)
    (herror : d.error = some text) :
    (∃ d₀, s.mapJobs.findOne id = some d₀ ∧ d₀.error = some text) ∨
      ∃ j, e = .markJobFailed (some j) text ∧ ObjectId.parse j = some id := by
  cases e with
  | insertMapJob job =>
    obtain ⟨c, hc, h⟩ := Option.map_eq_some_iff.mp h
    obtain ⟨-, rfl⟩ := Prod.mk.inj h
    have hfind := (Collection.findOne_insertOne hc id).symm.trans hd
    split at hfind
    · obtain rfl := Option.some.inj hfind
      cases herror
    · exact Or.inl ⟨d, hfind, herror⟩
  | insertBeatmap b =>
    obtain ⟨c, hc, h⟩ := Option.map_eq_some_iff.mp h
    obtain ⟨-, rfl⟩ := Prod.mk.inj h
    exact Or.inl ⟨d, hd, herror⟩
  | setJobObjectKey | markJobProcessing | markJobCompleted =>
    rcases updateJob_doc h hd with hold | ⟨-, d₀, hold, rfl⟩
    · exact Or.inl ⟨d, hold, herror⟩
    · exact Or.inl ⟨d₀, hold, herror⟩
  | markJobFailed j text' =>
    cases j with
    | none =>
      obtain ⟨-, rfl⟩ := Prod.mk.inj (Option.some.inj h)
      exact Or.inl ⟨d, hd, herror⟩
    | some j =>
      rcases updateJob_doc h hd with hold | ⟨hparse, d₀, hold, rfl⟩
      · exact Or.inl ⟨d, hold, herror⟩
      · obtain rfl := Option.some.inj herror
        exact Or.inr ⟨j, rfl, hparse⟩
  | upload | addFlow =>
    obtain ⟨-, rfl⟩ := Prod.mk.inj (Option.some.inj h)
    exact Or.inl ⟨d, hd, herror⟩
  | _ =>
    obtain rfl := exec_quiet rfl h
    exact Or.inl ⟨d, hd, herror⟩

theorem perform_error {task : Task K} {e : Eff K} {o : Outcome K} {r : Reply (Ans e) Exc}
    (h : s.perform i task e o = some (r, u)) {d : MapJobDoc} {text : String}
    (hd : u.mapJobs.findOne id = some d) (herror : d.error = some text) :
    (∃ d₀, s.mapJobs.findOne id = some d₀ ∧ d₀.error = some text) ∨
      ∃ j, e = .markJobFailed (some j) text ∧ ObjectId.parse j = some id := by
  rcases perform_cases h with ⟨env, a, t, -, hexec, -, rfl⟩ | ⟨-, rfl⟩
  · exact exec_error hexec hd herror
  · exact Or.inl ⟨d, hd, herror⟩

/-- The error of the map job `id` was reported by an attempt at one of its queue jobs. -/
def Reported (w : World K) (id : ObjectId) (text : String) : Prop :=
  ∃ (i : ℕ) (view : JobView K) (program : Prog K (Json K)) (x : Exc),
    w.threads[i]? = some ⟨.worker view, program⟩ ∧ isFinalAttempt view = true ∧
      view.data.get? "job_id" = some (.str id.str) ∧ Blamed w.shared i view x ∧ text = x.str

/-- Every thread accounts for its exceptions, and every map job for its error. -/
structure Explained (w : World K) : Prop where
  threads : ∀ (i : ℕ) (view : JobView K) (program : Prog K (Json K)),
    w.threads[i]? = some ⟨.worker view, program⟩ → ∀ blamed : Exc → Prop,
      (∀ x, Blamed w.shared i view x → blamed x) →
        Accounts (Reports view blamed) Answers blamed program
  errors : ∀ id d text, w.shared.mapJobs.findOne id = some d → d.error = some text →
    Reported w id text

theorem explained_empty : Explained (World.empty : World K) :=
  ⟨fun _ _ _ => nofun, fun _ _ _ => nofun⟩

variable {cfg : Config} {P : Librosa K → Prop} {w w' : World K} {a : Act K}

theorem Reported.act {text : String} (h : Reported w id text) (hg : Grows w.shared w'.shared)
    (hact : w.act cfg a = some w') : Reported w' id text := by
  obtain ⟨i, view, program, x, hth, hfinal, hid, hx, htext⟩ := h
  obtain ⟨program', hth'⟩ := World.act_thread hact hth
  exact ⟨i, view, program', x, hth', hfinal, hid, hx.mono hg, htext⟩

/-- What is read of the children's results can be validated. -/
theorem Handed.answers (h : Handed w) (hlegit : WorldLegit cfg P w) {task : Task K} {e : Eff K}
    {k : Except Exc (Ans e) → Prog K (Json K)} (hth : w.threads[i]? = some ⟨task, .op e k⟩)
    {o : Outcome K} {v : Ans e} (hperform : w.shared.perform i task e o = some (.done v, u)) :
    Answers e v := by
  cases e with
  | getChildrenValues ref =>
    obtain ⟨view, j, q, duration, bpm, kick, melody, -, rfl, hgathers⟩ := h.gathers hlegit hth
    obtain ⟨F, kickJob, melodyJob, hF, -, htwo, hk, hm⟩ := hgathers.flow
    rcases perform_cases hperform with ⟨env, values, t, -, hexec, hv, -⟩ | ⟨hv, -⟩
    · obtain rfl := Option.some.inj hv
      obtain ⟨F', hF', -, hvalues⟩ := exec_getChildrenValues hexec
      obtain rfl := Option.some.inj (hF.symm.trans hF')
      obtain ⟨hkick, hmelody⟩ := htwo.childResults_of_completed hvalues hk hm
      exact ⟨(⟨kick⟩, ⟨melody⟩), childResults_eq_ok.mpr ⟨_, _, hkick, hmelody, by simp, by simp⟩⟩
    · cases hv
  | _ => trivial

namespace Explained

/-- The thread that performs an operation accounts for what it does next. -/
private theorem step (h : Explained w) (hlegit : WorldLegit cfg P w) (hhanded : Handed w)
    {view : JobView K} {e : Eff K} {k : Except Exc (Ans e) → Prog K (Json K)}
    (hth : w.threads[i]? = some ⟨.worker view, .op e k⟩) {o : Outcome K} {r : Reply (Ans e) Exc}
    (hperform : w.shared.perform i (.worker view) e o = some (r, u)) (hg : Grows w.shared u)
    {blamed : Exc → Prop} (hblamed : ∀ x, Blamed u i view x → blamed x) :
    Accounts (Reports view blamed) Answers blamed (k r.seen) := by
  have hop := h.threads i view _ hth blamed fun x hx => hblamed x (hx.mono hg)
  refine hop.reply (fun v hv => ?_) fun x hx => ?_
  · exact hhanded.answers hlegit hth (hv ▸ hperform)
  · exact hblamed x (Or.inl ⟨_, e, r, perform_event hperform, hx⟩)

/-- The operation that writes an error is the report of a final attempt. -/
private theorem reported_of_op (h : Explained w) (hlegit : WorldLegit cfg P w)
    (howned : Owned cfg w) {task : Task K} {j text : String}
    {k : Except Exc Unit → Prog K (Json K)}
    (hth : w.threads[i]? = some ⟨task, .op (.markJobFailed (some j) text) k⟩)
    (hparse : ObjectId.parse j = some id) : Reported w id text := by
  cases task with
  | api file laneCount =>
    obtain ⟨st, -, hfollows⟩ := howned.requests i ⟨file, laneCount⟩ _ hth
    have hallow := (Follows.op_iff.mp hfollows).1
    cases st <;> cases hallow
  | worker view =>
    have hop := h.threads i view _ hth (Blamed w.shared i view) fun _ hx => hx
    obtain ⟨hfinal, ⟨j', hj, hdata⟩, x, hx, htext⟩ := (Accounts.op_iff.mp hop).1
    obtain rfl := Option.some.inj hj
    obtain ⟨j', q, hready, hheld⟩ := hlegit.shared.held (hlegit.assigned i _ hth)
    obtain rfl := Json.str.inj (Option.some.inj (hheld.jobId.symm.trans hdata))
    obtain ⟨-, id', rfl, -⟩ := hlegit.shared.created_doc _ q hready.created
    rw [ObjectId.parse_str] at hparse
    exact ⟨i, view, _, x, hth, hfinal, Option.some.inj hparse ▸ hdata, hx, htext⟩

theorem act (h : Explained w) (hlegit : WorldLegit cfg P w) (howned : Owned cfg w)
    (hhanded : Handed w) (ha : a.Within P) (hact : w.act cfg a = some w') : Explained w' := by
  obtain ⟨hlegit', hg⟩ := hlegit.act ha hact
  constructor
  case threads =>
    intro i view program hth blamed hblamed
    cases World.act_threadMoves hact hth with
    | idle hold => exact h.threads i view program hold blamed fun x hx => hblamed x (hx.mono hg)
    | step hold hperform => exact h.step hlegit hhanded hold hperform hg hblamed
    | start _ _ _ _ hprogram =>
      exact handlerOf_accounts hlegit'.shared (hlegit'.assigned i _ hth) hprogram hblamed
  case errors =>
    intro id d text hd herror
    rcases World.act_shared hact with
      ⟨flows, hsame⟩ | ⟨i, outcome, task, e, k, r, -, hth, hperform⟩
    · rw [hsame] at hd
      exact (h.errors id d text hd herror).act hg hact
    · rcases perform_error hperform hd herror with ⟨d₀, hd₀, herror₀⟩ | ⟨j, rfl, hparse⟩
      · exact (h.errors id d₀ text hd₀ herror₀).act hg hact
      · exact (h.reported_of_op hlegit howned hth hparse).act hg hact

end Explained

theorem explained_of_run {acts : List (Act K)} (hrun : World.empty.run cfg acts = some w) :
    Explained w := by
  have hinvariant : WorldLegit cfg (fun _ => True) w ∧ Owned cfg w ∧ Handed w ∧ Explained w := by
    refine World.run_invariant (Q := fun _ => True)
      (I := fun v => WorldLegit cfg (fun _ => True) v ∧ Owned cfg v ∧ Handed v ∧ Explained v)
      ?_ ⟨worldLegit_empty, Owned.empty, handed_empty, explained_empty⟩ (fun _ _ => trivial) hrun
    rintro v a v' ⟨hlegit, howned, hhanded, hexplained⟩ - hact
    exact ⟨(hlegit.act a.within_true hact).1, howned.act hlegit a.within_true hact,
      hhanded.act hlegit hact, hexplained.act hlegit howned hhanded a.within_true hact⟩
  exact hinvariant.2.2.2

/-- In every reachable state an attempt that ended with an exception got it from one of its
operations, or demucs wrote the stems under another name, and the error that a client reads was
reported by a final attempt at a queue job of that map job, which had got that exception. -/
theorem failures_explained {acts : List (Act K)} (hrun : World.empty.run cfg acts = some w) :
    (∀ (i : ℕ) (view : JobView K) (x : Exc),
      w.threads[i]? = some ⟨.worker view, .ret (.error x)⟩ → Blamed w.shared i view x) ∧
    ∀ id out text, getJobStatus w.shared id.str = .ok out → out.error = some text →
      Reported w id text := by
  have h := explained_of_run hrun
  refine ⟨fun i view x hth => ?_, fun id out text hout herror => ?_⟩
  · exact Accounts.error_iff.mp (h.threads i view _ hth _ fun _ hx => hx)
  · obtain ⟨id', d, hparse, hd, rfl⟩ := getJobStatus_eq_ok hout
    rw [ObjectId.parse_str] at hparse
    obtain rfl := Option.some.inj hparse
    exact h.errors id d text hd herror

namespace Sample

def failing : List (Act ℚ) :=
  let attempt (i : ℕ) : List (Act ℚ) :=
    [.start ⟨0, none⟩, .step i (.raised ⟨.other "ConnectionFailure", "no primary"⟩)]
  creation ++ attempt 1 ++ [.finish 1, .promote ⟨0, none⟩] ++ attempt 2 ++
    [.finish 2, .promote ⟨0, none⟩] ++ attempt 3 ++ steps 3 1 ++ [.finish 3]

end Sample

open Sample in
theorem failures_explained_sample : ∃ w, World.empty.run {} failing = some w ∧
    (∀ (i : ℕ) (view : JobView ℚ) (x : Exc),
      w.threads[i]? = some ⟨.worker view, .ret (.error x)⟩ → Blamed w.shared i view x) ∧
    ∀ id out text, getJobStatus w.shared id.str = .ok out → out.error = some text →
      Reported w id text := by
  obtain ⟨w, hw⟩ := Option.isSome_iff_exists.mp
    (show (World.empty.run {} failing).isSome = true by decide +kernel)
  exact ⟨w, hw, failures_explained hw⟩

end Reported
end Maps
