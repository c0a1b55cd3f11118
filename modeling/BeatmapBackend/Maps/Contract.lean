import BeatmapBackend.Effects.Safety
import BeatmapBackend.Maps.Legitimacy

/-! The contract one thread keeps among the others: what each operation may rely on and
what it must establish first. Every operation under its precondition keeps the provenance
invariant, whatever happens to it. -/
namespace Maps
open Effects Wire Collections Queues

variable {K : Type}

def Outcome.env? : Outcome K → Option (Env K)
  | .done env => some env
  | .raised _ => none
  | .lost env _ => some env

/-- The library functions an operation ran with satisfy `P`. -/
def Outcome.Within (P : Librosa K → Prop) (o : Outcome K) : Prop :=
  ∀ env, o.env? = some env → P env.lib

/-- The operations that leave the shared state as it is. -/
def Eff.quiet : Eff K → Bool
  | .insertMapJob _ | .setJobObjectKey _ _ | .markJobProcessing _ | .markJobCompleted _ _
  | .markJobFailed _ _ | .insertBeatmap _ | .upload _ _ | .addFlow _ => false
  | _ => true

private theorem docSound_markCompleted {s : Shared K} {id bid : ObjectId} {d : MapJobDoc}
    {doc : BeatmapDoc K} (hdoc : s.beatmaps.findOne bid = some doc)
    (hj : doc.jobId = id.str) : DocSound s id (d.markCompleted bid.str) where
  completed _ := nofun
  failed := nofun
  queued := nofun
  beatmap _ hb := ⟨bid, doc, (Option.some.inj hb).symm, hdoc, hj⟩

private theorem docSound_markProcessing {s : Shared K} {id : ObjectId} {d : MapJobDoc}
    (h : DocSound s id d) : DocSound s id d.markProcessing where
  completed := nofun
  failed := nofun
  queued := nofun
  beatmap := h.beatmap

private theorem docSound_markFailed {s : Shared K} {id : ObjectId} {d : MapJobDoc}
    (h : DocSound s id d) (error : String) : DocSound s id (d.markFailed error) where
  completed := nofun
  failed _ := nofun
  queued := nofun
  beatmap := h.beatmap

private theorem docSound_setObjectKey {s : Shared K} {id : ObjectId} {d : MapJobDoc}
    (h : DocSound s id d) (key : String) : DocSound s id (d.setObjectKey key) :=
  ⟨h.completed, h.beatmap, h.failed, h.queued⟩

private theorem updateJob_eq_some {s t : Shared K} {j : String} {f : MapJobDoc → MapJobDoc}
    {a : Unit} (h : s.updateJob j f = some (a, t)) :
    ∃ id, ObjectId.parse j = some id ∧ t = { s with mapJobs := s.mapJobs.updateOne id f } := by
  obtain ⟨id, hid, he⟩ := Option.map_eq_some_iff.mp h
  exact ⟨id, hid, (Prod.mk.inj he).2.symm⟩

variable [Field K] [LinearOrder K] [FloorRing K]

theorem exec_quiet {env : Env K} {s t : Shared K} {e : Eff K} {a : Ans e} (he : e.quiet = true)
    (h : exec env s e = some (a, t)) : t = s := by
  cases e with
  | download | detectBpm | buildMelodyNotes =>
    obtain ⟨answer, -, hanswer⟩ := Option.map_eq_some_iff.mp h
    exact (Prod.mk.inj hanswer).2.symm
  | getChildrenValues ref =>
    obtain ⟨F, -, hF⟩ := Option.bind_eq_some_iff.mp h
    dsimp only at hF
    split at hF
    · exact (Prod.mk.inj (Option.some.inj hF)).2.symm
    · cases hF
  | insertMapJob | setJobObjectKey | markJobProcessing | markJobCompleted | markJobFailed
  | insertBeatmap | upload | addFlow => cases he
  | _ => exact (Prod.mk.inj (Option.some.inj h)).2.symm

/-- An operation takes effect and is recorded, or is only recorded. -/
theorem perform_cases {s u : Shared K} {i : ℕ} {task : Task K} {e : Eff K} {o : Outcome K}
    {r : Reply (Ans e) Exc} (h : s.perform i task e o = some (r, u)) :
    (∃ env a t, o.env? = some env ∧ exec env s e = some (a, t) ∧ r.applied = some a ∧
      u = t.record ⟨i, task, e, r⟩) ∨ (r.applied = none ∧ u = s.record ⟨i, task, e, r⟩) := by
  cases o with
  | done env =>
    obtain ⟨⟨a, t⟩, ht, he⟩ := Option.map_eq_some_iff.mp h
    obtain ⟨rfl, rfl⟩ := Prod.mk.inj he
    exact Or.inl ⟨env, a, t, rfl, ht, rfl, rfl⟩
  | raised x =>
    obtain ⟨rfl, rfl⟩ := Prod.mk.inj (Option.some.inj h)
    exact Or.inr ⟨rfl, rfl⟩
  | lost env x =>
    obtain ⟨⟨a, t⟩, ht, he⟩ := Option.map_eq_some_iff.mp h
    obtain ⟨rfl, rfl⟩ := Prod.mk.inj he
    exact Or.inl ⟨env, a, t, rfl, ht, rfl, rfl⟩

variable (cfg : Config) (P : Librosa K → Prop)

def Pre (i : ℕ) (task : Task K) : Eff K → Shared K → Prop
  | .insertMapJob n, _ => ∃ q : Request, task = q.task ∧ n = ⟨q.name, none, q.lanes cfg⟩ ∧
      validateRequest cfg q.file q.laneCount = .ok ()
  | .setJobObjectKey j key, s => ∃ q, Created s j q ∧ key = q.key cfg j
  | .markJobCompleted j b, s => (∃ q, Created s j q) ∧
      ∃ id d, b = id.str ∧ s.beatmaps.findOne id = some d ∧ d.jobId = j
  | .insertBeatmap b, s => BeatmapMade cfg P s b
  | .upload key body, s => UploadMade cfg P s i task key body
  | .download key _, s => s.objects key ≠ none ∧ ReadMade cfg s task key
  | .addFlow spec, s => FlowMade cfg P s spec fun _ => none
  | _, _ => True

def contract (i : ℕ) (task : Task K) : Contract (Eff K) Ans Exc (Shared K) where
  valid := Legit cfg P
  grows := Grows
  step e s r u := ∃ o : Outcome K, o.Within P ∧ s.perform i task e o = some (r, u)
  pre := Pre cfg P i task
  refl := Grows.refl
  trans := Grows.trans

variable {cfg P}

private theorem pre_made {i : ℕ} {task : Task K} {e : Eff K} {s : Shared K}
    (h : Pre cfg P i task e s) (r : Reply (Ans e) Exc) :
    Event.Made cfg P s ⟨i, task, e, r⟩ := by
  cases e with
  | upload key body => exact h
  | download key path => exact h.2
  | _ => trivial

private theorem Legit.parse_created {s : Shared K} (h : Legit cfg P s) {j : String} {q : Request}
    {id : ObjectId} (hq : Created s j q) (hid : ObjectId.parse j = some id) : j = id.str := by
  obtain ⟨-, id', rfl, -⟩ := h.created_doc j q hq
  rw [ObjectId.parse_str] at hid
  rw [Option.some.inj hid]

/-- What an operation that is not a creation does to the state keeps the invariant. -/
private theorem exec_legit {env : Env K} {i : ℕ} {task : Task K} {e : Eff K} {s t : Shared K}
    {a : Ans e} {r : Reply (Ans e) Exc} (hs : Legit cfg P s) (hpre : Pre cfg P i task e s)
    (h : exec env s e = some (a, t)) (hr : r.applied = some a) :
    Legit cfg P (t.record ⟨i, task, e, r⟩) ∧ Grows s (t.record ⟨i, task, e, r⟩) := by
  cases e with
  | insertMapJob n =>
    obtain ⟨q, rfl, rfl, hvalid⟩ := hpre
    obtain ⟨c, hc, he⟩ := Option.map_eq_some_iff.mp h
    obtain ⟨rfl, rfl⟩ := Prod.mk.inj he
    exact ⟨hs.create hvalid hc hr, (Grows.insertDoc hc).trans (Grows.record _ _)⟩
  | setJobObjectKey j key =>
    obtain ⟨q, hq, rfl⟩ := hpre
    obtain ⟨id, hid, rfl⟩ := updateJob_eq_some h
    obtain rfl := hs.parse_created hq hid
    obtain ⟨hdoc, hg⟩ := hs.updateDoc id (.setObjectKey (q.key cfg id.str))
      (fun d hd => docSound_setObjectKey hd _) (fun _ => rfl) (fun _ => rfl)
      fun _ => Or.inr ⟨q, hq, rfl⟩
    exact hdoc.recorded hg rfl trivial
  | markJobProcessing j =>
    obtain ⟨id, -, rfl⟩ := updateJob_eq_some h
    obtain ⟨hdoc, hg⟩ := hs.updateDoc id .markProcessing
      (fun d hd => docSound_markProcessing hd) (fun _ => rfl) (fun _ => rfl)
      fun _ => Or.inl rfl
    exact hdoc.recorded hg rfl trivial
  | markJobCompleted j b =>
    obtain ⟨⟨q, hq⟩, bid, doc, rfl, hbeatmap, hj⟩ := hpre
    obtain ⟨id, hid, rfl⟩ := updateJob_eq_some h
    obtain rfl := hs.parse_created hq hid
    obtain ⟨hdoc, hg⟩ := hs.updateDoc id (.markCompleted bid.str)
      (fun _ _ => docSound_markCompleted hbeatmap hj) (fun _ => rfl) (fun _ => rfl)
      fun _ => Or.inl rfl
    exact hdoc.recorded hg rfl trivial
  | markJobFailed j error =>
    cases j with
    | none =>
      obtain rfl : t = s := (Prod.mk.inj (Option.some.inj h)).2.symm
      exact hs.recorded (Grows.refl t) rfl trivial
    | some j =>
      obtain ⟨id, -, rfl⟩ := updateJob_eq_some h
      obtain ⟨hdoc, hg⟩ := hs.updateDoc id (.markFailed error)
        (fun d hd => docSound_markFailed hd error) (fun _ => rfl) (fun _ => rfl)
        fun _ => Or.inl rfl
      exact hdoc.recorded hg rfl trivial
  | insertBeatmap b =>
    obtain ⟨c, hc, he⟩ := Option.map_eq_some_iff.mp h
    obtain ⟨rfl, rfl⟩ := Prod.mk.inj he
    exact (hs.insertBeatmap hpre hc).recorded (Grows.insertBeatmap hc) rfl trivial
  | upload key body =>
    obtain rfl := (Prod.mk.inj (Option.some.inj h)).2
    have hrec : Legit cfg P (s.record ⟨i, task, .upload key body, r⟩) := hs.record rfl hpre
    exact ⟨hrec.putObject (List.mem_append_right _ (List.mem_singleton_self _)) hr,
      (Grows.putObject s key body).trans (Grows.record _ _)⟩
  | addFlow spec =>
    obtain rfl := (Prod.mk.inj (Option.some.inj h)).2
    have hg := Grows.addFlow s (.add env.jobIds spec)
    have hflows : Legit cfg P { s with flows := s.flows ++ [.add env.jobIds spec] } := by
      refine hs.setFlows hg fun F hF => ?_
      rcases List.mem_append.mp hF with hold | hlast
      · exact hs.flows F hold
      · rw [List.mem_singleton.mp hlast, Flow.spec_add]
        exact FlowMade.mono hpre (Grows.refl s) fun i v hv => by simp at hv
    exact hflows.recorded hg rfl trivial
  | _ =>
    obtain rfl := exec_quiet rfl h
    exact hs.recorded (Grows.refl t) rfl (pre_made hpre r)

theorem contract_sound (i : ℕ) (task : Task K) : (contract cfg P i task).Sound := by
  rintro e s r u hs hpre ⟨o, -, h⟩
  rcases perform_cases h with ⟨env, a, t, -, ht, hr, rfl⟩ | ⟨hr, rfl⟩
  · exact exec_legit hs hpre ht hr
  · have hnew : Event.creates (⟨i, task, e, r⟩ : Event K) = none := by
      cases e with
      | insertMapJob n => exact hr
      | _ => rfl
    exact hs.recorded (Grows.refl s) hnew (pre_made hpre r)

/-- What is known after an operation has answered. -/
theorem contract_done {i : ℕ} {task : Task K} {e : Eff K} {s u : Shared K} {a : Ans e}
    (h : (contract cfg P i task).step e s (.done a) u) :
    ∃ env t, P env.lib ∧ exec env s e = some (a, t) ∧ u = t.record ⟨i, task, e, .done a⟩ := by
  obtain ⟨o, ho, h⟩ := h
  rcases perform_cases h with ⟨env, b, t, henv, ht, hr, rfl⟩ | ⟨hr, -⟩
  · obtain rfl : a = b := Option.some.inj hr
    exact ⟨env, t, ho env henv, ht, rfl⟩
  · cases hr

end Maps
