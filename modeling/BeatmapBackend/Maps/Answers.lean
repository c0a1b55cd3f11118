import BeatmapBackend.Maps.NotesSurvive
import BeatmapBackend.Maps.Progress

/-! A client that polls gets its answer: an orderly run can always go on until nothing moves,
and then every map job that was handed to the queues is completed or failed. -/
namespace Maps
open Effects Wire Queues

variable {K : Type}

namespace Life

/-- A queue job never disappears. -/
theorem Step.phase_ne_none {R : Rules} {L L' : Life} (hs : Step R L L') {role : Role}
    (h : L.phase role ≠ none) : L'.phase role ≠ none := by
  have hset {M : Life} (r : Role) (p : Phase) (hM : M.phase role ≠ none) :
      (M.set r p).phase role ≠ none := by
    rw [set_phase]
    split
    · exact Option.some_ne_none p
    · exact hM
  cases hs with
  | markProcessing => exact h
  | stray => exact h
  | addSong => cases role <;> exact Option.some_ne_none _
  | succeedChild =>
    unfold release
    split
    · exact hset _ _ (hset _ _ h)
    · exact hset _ _ h
  | failChild =>
    unfold failParent
    split
    · exact hset _ _ (hset _ _ h)
    · exact hset _ _ h
  | _ => exact hset _ _ h

/-- A job whose stem separation is in no queue is as it was created. -/
theorem eq_created {R : Rules} {L : Life} (h : Reachable R L) (hstem : L.phase .stem = none) :
    L = created := by
  induction h with
  | refl => rfl
  | tail _ hs ih =>
    have hbefore := ih (by_contra fun hne => hs.phase_ne_none hne hstem)
    subst hbefore
    cases hs with
    | enqueue => simp at hstem
    | _ => contradiction

end Life

instance : Inhabited ObjectId := ⟨⟨List.replicate 24 0, rfl⟩⟩

instance : Inhabited JobId := ⟨⟨"", by simp⟩⟩

deriving instance Inhabited for Numerics.Grid
deriving instance Inhabited for Tempo
deriving instance Inhabited for Librosa
deriving instance Inhabited for Env

variable [Field K] [LinearOrder K] [FloorRing K] {cfg : Config} {P : Librosa K → Prop} {R : Rules}
  {w : World K}

/-- An attempt that holds its lock has an operation it may perform. -/
theorem Sim.step_enabled (h : Sim cfg P R w) {i : ℕ} {view : JobView K}
    {e : Eff K} {k : Except Exc (Ans e) → Prog K (Json K)}
    (hth : w.threads[i]? = some ⟨.worker view, .op e k⟩) (hlive : w.live view i = true) :
    ∃ outcome, w.orderly R (.step i outcome) = true ∧ w.act cfg (.step i outcome) ≠ none := by
  have : Inhabited K := ⟨0⟩
  have horderly {o : Outcome K} (ho : smooth R e o = true) :
      w.orderly R (.step i o) = true := by
    simp [World.orderly, World.timely, World.exclusive, World.acknowledged, hth, hlive, ho]
  have hraised {x : Exc} : w.act cfg (.step i (.raised x)) ≠ none := by
    simp [World.act, hth, Shared.perform]
  have hdone {env : Env K} (hexec : exec env w.shared e ≠ none) :
      w.act cfg (.step i (.done env)) ≠ none := by
    obtain ⟨out, hout⟩ := Option.ne_none_iff_exists'.mp hexec
    simp [World.act, hth, Shared.perform, hout]
  obtain ⟨q, id, L, role, ref, job, stage, -, hturn⟩ := h.turn hth hlive
  have htarget {j : String} (hj : e.target = some j) : j = id.str :=
    target_of_allowed hturn.allowed hj
  cases e with
  | markJobCompleted j b =>
    obtain rfl := htarget rfl
    refine ⟨.done default, horderly rfl, hdone ?_⟩
    simp [exec_markJobCompleted (s := w.shared) rfl b]
  | markJobFailed j error =>
    cases j with
    | none => exact ⟨.done default, horderly rfl, hdone (Option.some_ne_none _)⟩
    | some j =>
      obtain rfl := htarget rfl
      refine ⟨.done default, horderly rfl, hdone ?_⟩
      simp [exec, Shared.updateJob]
  | _ => exact ⟨.raised ⟨.keyError, ""⟩, horderly rfl, hraised⟩

/-- A map job as a client may find it when nothing moves any more: over, or never enqueued. -/
def HasAnswer (w : World K) (id : ObjectId) (d : MapJobDoc) : Prop :=
  (d.status = .completed ∨ d.status = .failed) ∨
    (d.status = .queued ∧ ∀ queueName job, ¬ JobOf w id.str queueName job)

/-- A job of a queue belongs to the map job that its payload names. -/
theorem JobOf.phase (hs : Legit cfg P w.shared) {q : Request} {id : ObjectId} {L : Life}
    (hL : Tracks cfg q id w L) {queueName : String} {job : Job ℕ (Json K) (Json K)}
    (h : JobOf w id.str queueName job) : ∃ role, L.phase role ≠ none := by
  obtain ⟨⟨ref, hjob⟩, -, hdata⟩ := h
  obtain ⟨F, hF, hFjob⟩ := Option.bind_eq_some_iff.mp hjob
  obtain ⟨q', id', role, -, hq', hr⟩ := hs.owner hF hFjob
  obtain ⟨-, -, hdata'⟩ := hr.jobOf hjob
  obtain rfl := ObjectId.str_injective (Option.some.inj (hdata.symm.trans hdata'))
  obtain rfl := hs.created_eq hL.created hq'
  obtain ⟨-, p, -, hp, -⟩ := hL.tracked role ref hr
  exact ⟨role, by simp [hp]⟩

theorem Sim.hasAnswer (h : Sim cfg P R w) (hR : R.givesUp = false) (hlively : Lively w)
    (hrest : w.AtRest cfg (World.orderly R)) {id : ObjectId} {d : MapJobDoc}
    (hd : w.shared.mapJobs.findOne id = some d) : HasAnswer w id d := by
  have hreturned (t : ℕ) (view : JobView K) (program : Prog K (Json K))
      (hlive : w.live view t = true) (hth : w.threads[t]? = some ⟨.worker view, program⟩) :
      ∃ r, program = .ret r := by
    cases program with
    | ret r => exact ⟨r, rfl⟩
    | op e k =>
      obtain ⟨outcome, horderly, hact⟩ := h.step_enabled hth hlive
      exact (hact (hrest _ rfl horderly)).elim
  obtain ⟨q, L, hreach, hL⟩ := h.lives id (by simp [hd])
  obtain ⟨d', hd', hstatus, -⟩ := hL.doc
  obtain rfl := Option.some.inj (hd.symm.trans hd')
  by_cases hstem : L.phase .stem = none
  · obtain rfl := Life.eq_created hreach hstem
    refine Or.inr ⟨hstatus, fun queueName job hjob => ?_⟩
    obtain ⟨role, hrole⟩ := hjob.phase h.legit.shared hL
    exact hrole rfl
  · have hquiet : L.Quiet := by
      intro role p hp
      obtain ⟨ref, hr⟩ := hL.placed role (by simp [hp])
      obtain ⟨job, p', hjob, hp', hrel⟩ := hL.tracked role ref hr
      obtain rfl := Option.some.inj (hp.symm.trans hp')
      exact hrel.isOver.trans (hrest.jobs_over (unhindered_orderly R) hlively h.legit.shared
        hreturned hjob)
    exact Or.inl (hstatus ▸ (Life.settled hR hreach hstem hquiet).1)

/-- An orderly run can go on by itself until nothing moves, and whenever nothing moves every
map job that was enqueued is completed or failed. Stalls and lost answers are allowed. -/
theorem jobs_answered {acts : List (Act K)} (hR : R.givesUp = false)
    (hrun : World.empty.runIf cfg (World.orderly R) acts = some w) :
    (∃ more w', (∀ a ∈ more, a.internal = true) ∧
      w.runIf cfg (World.orderly R) more = some w' ∧ w'.AtRest cfg (World.orderly R)) ∧
    ∀ more w', w.runIf cfg (World.orderly R) more = some w' →
      w'.AtRest cfg (World.orderly R) →
      ∀ id d, w'.shared.mapJobs.findOne id = some d → HasAnswer w' id d := by
  have hrun' := World.run_of_runIf hrun
  obtain ⟨-, hsim⟩ := (Sim.empty (P := fun _ => True)).run (fun a _ => a.within_true) hrun
  obtain ⟨n, hn⟩ := owes_of_run hrun'
  refine ⟨hn.exists_atRest _, fun more w' hmore hrest id d hd => ?_⟩
  obtain ⟨-, hsim'⟩ := hsim.run (fun a _ => a.within_true) hmore
  exact hsim'.hasAnswer hR
    (lively_of_run ((World.run_append hrun').trans (World.run_of_runIf hmore))) hrest hd

open Sample in
theorem jobs_answered_sample : ∃ w,
    World.empty.runIf {} (World.orderly { Rules.free with givesUp := false }) creation = some w ∧
    (∃ more w', (∀ a ∈ more, a.internal = true) ∧
      w.runIf {} (World.orderly { Rules.free with givesUp := false }) more = some w' ∧
      w'.AtRest {} (World.orderly { Rules.free with givesUp := false })) ∧
    ∀ more w', w.runIf {} (World.orderly { Rules.free with givesUp := false }) more = some w' →
      w'.AtRest {} (World.orderly { Rules.free with givesUp := false }) →
      ∀ id d, w'.shared.mapJobs.findOne id = some d → HasAnswer w' id d := by
  obtain ⟨w, hw⟩ := Option.isSome_iff_exists.mp
    (show (World.empty.runIf {} (World.orderly { Rules.free with givesUp := false })
      creation).isSome = true by decide +kernel)
  exact ⟨w, hw, jobs_answered rfl hw⟩

end Maps
