import BeatmapBackend.Maps.HandlerSafety
import Mathlib.Data.Rat.Floor

/-! Runs of the whole system. Whatever raises, gets lost, stalls or is delivered again, every
reachable state satisfies the provenance invariant and only grows from there on. -/
namespace Maps
open Effects Wire Collections Queues

variable {K : Type} [Field K] [LinearOrder K] [FloorRing K]
variable {cfg : Config} {P : Librosa K → Prop}

/-- The library functions of every operation of an action satisfy `P`. -/
def Act.Within (P : Librosa K → Prop) : Act K → Prop
  | .step _ outcome => outcome.Within P
  | _ => True

omit [Field K] [LinearOrder K] [FloorRing K] in
/-- Only steps run the environment. -/
theorem Act.within_of_ne_step {a : Act K} (ha : ∀ i o, a ≠ .step i o) : a.Within P := by
  cases a with
  | step i o => exact (ha i o rfl).elim
  | _ => trivial

omit [Field K] [LinearOrder K] [FloorRing K] in
theorem Act.within_true (a : Act K) : a.Within fun _ => True := by
  cases a with
  | step i outcome => exact fun _ _ => trivial
  | _ => trivial

/-- A property kept by each action of a kind holds at the end of a run of such actions. -/
theorem World.run_invariant {I : World K → Prop} {Q : Act K → Prop}
    (hstep : ∀ w a w', I w → Q a → w.act cfg a = some w' → I w') {w w' : World K}
    {acts : List (Act K)} (hw : I w) (hacts : ∀ a ∈ acts, Q a)
    (h : w.run cfg acts = some w') : I w' := by
  induction acts generalizing w with
  | nil => exact Option.some.inj h ▸ hw
  | cons a acts ih =>
    obtain ⟨v, hv, h⟩ := Option.bind_eq_some_iff.mp h
    exact ih (hstep w a v hw (hacts a List.mem_cons_self) hv)
      (fun b hb => hacts b (List.mem_cons_of_mem _ hb)) h

theorem World.run_append {acts more : List (Act K)} {w v : World K}
    (h : w.run cfg acts = some v) :
    w.run cfg (acts ++ more) = v.run cfg more := by
  induction acts generalizing w with
  | nil => rw [List.nil_append, Option.some.inj h]
  | cons a acts ih =>
    obtain ⟨u, hu, h⟩ := Option.bind_eq_some_iff.mp h
    rw [List.cons_append, World.run, hu, Option.bind_some, ih h]

theorem Legit.setFlow {s : Shared K} (h : Legit cfg P s) {n : ℕ} {F F' : PipelineFlow K}
    (hF : s.flows[n]? = some F) (hspec : F'.spec = F.spec)
    (hv : ∀ i v, F'.value? i = some v → F.value? i = some v ∨ ∀ j q duration bpm,
      F.spec = q.songFlow cfg j duration bpm → Created s j q → ResultMade cfg P q bpm i v) :
    Legit cfg P { s with flows := s.flows.set n F' } := by
  refine h.setFlows (Grows.setFlow hF hspec) fun G hG => ?_
  rcases List.mem_or_eq_of_mem_set hG with hold | rfl
  · exact h.flows G hold
  · obtain ⟨j, q, hq, hkeyed, horig, hcase⟩ := h.flows F (List.mem_of_getElem? hF)
    rw [hspec]
    refine ⟨j, q, hq, hkeyed, horig, ?_⟩
    rcases hcase with hstem | ⟨duration, bpm, hsong, hm, hdrum, hmelody, hres⟩
    · exact Or.inl hstem
    · refine Or.inr ⟨duration, bpm, hsong, hm, hdrum, hmelody, fun i v hi => ?_⟩
      rcases hv i v hi with hold | hnew
      · exact hres i v hold
      · exact hnew j q duration bpm hsong hq

structure WorldLegit (cfg : Config) (P : Librosa K → Prop) (w : World K) : Prop where
  shared : Legit cfg P w.shared
  assigned : ∀ (i : ℕ) (th : Thread K), w.threads[i]? = some th → Assigned w.shared th.task
  safe : ∀ (i : ℕ) (th : Thread K), w.threads[i]? = some th →
    Safe (contract cfg P i th.task) (Result cfg P th.task) th.program w.shared

theorem legit_empty : Legit cfg P (Shared.empty : Shared K) where
  docs _ _ := nofun
  docs_created _ _ := nofun
  created_doc := by
    rintro j q ⟨i, n, r, hmem, -⟩
    cases hmem
  created_unique := by
    rintro i i' j q q' ⟨n, r, hmem, -⟩
    cases hmem
  uploads _ _ _ _ _ := nofun
  objects _ _ := nofun
  downloads _ _ _ _ _ := nofun
  flows _ := nofun
  beatmaps _ _ := nofun

theorem worldLegit_empty : WorldLegit cfg P (World.empty : World K) :=
  ⟨legit_empty, fun _ _ => nofun, fun _ _ => nofun⟩

namespace WorldLegit

variable {w w' : World K}

/-- The other threads do not notice that the state has grown. -/
private theorem grow (h : WorldLegit cfg P w) {s : Shared K} (hs : Legit cfg P s)
    (hg : Grows w.shared s) : WorldLegit cfg P ⟨s, w.threads⟩ where
  shared := hs
  assigned i th hth := (h.assigned i th hth).mono hg
  safe i th hth := (h.safe i th hth).mono hg

private theorem addThread (h : WorldLegit cfg P w) {th : Thread K}
    (ha : Assigned w.shared th.task)
    (hsafe : Safe (contract cfg P w.threads.length th.task) (Result cfg P th.task) th.program
      w.shared) : WorldLegit cfg P (w.addThread th) := by
  have hcase {i : ℕ} {th' : Thread K} (hi : (w.addThread th).threads[i]? = some th') :
      w.threads[i]? = some th' ∨ (i = w.threads.length ∧ th' = th) := getElem?_concat_cases hi
  refine ⟨h.shared, fun i th' hi => ?_, fun i th' hi => ?_⟩
  · rcases hcase hi with hold | ⟨rfl, rfl⟩
    · exact h.assigned i th' hold
    · exact ha
  · rcases hcase hi with hold | ⟨rfl, rfl⟩
    · exact h.safe i th' hold
    · exact hsafe

private theorem queueOp (h : WorldLegit cfg P w) {n : ℕ} {F F' : PipelineFlow K}
    (hF : w.shared.flows[n]? = some F) (hspec : F'.spec = F.spec)
    (hvalue : ∀ i v, F'.value? i = some v → F.value? i = some v) :
    WorldLegit cfg P (w.setFlow n F') ∧ Grows w.shared (w.setFlow n F').shared := by
  have hg := Grows.setFlow hF hspec
  exact ⟨h.grow (h.shared.setFlow hF hspec fun i v hv => Or.inl (hvalue i v hv)) hg, hg⟩

/-- A thread that has performed an operation goes on safely. -/
private theorem step (h : WorldLegit cfg P w) {i : ℕ} {task : Task K} {e : Eff K}
    {k : Except Exc (Ans e) → Prog K (Json K)} {outcome : Outcome K} (ha : outcome.Within P)
    (hth : w.threads[i]? = some ⟨task, .op e k⟩) {r : Reply (Ans e) Exc} {s : Shared K}
    (hperform : w.shared.perform i task e outcome = some (r, s)) :
    WorldLegit cfg P ⟨s, w.threads.set i ⟨task, k r.seen⟩⟩ ∧ Grows w.shared s := by
  obtain ⟨hpre, hrest⟩ := Safe.of_op h.shared (h.safe i _ hth)
  have hstep : (contract cfg P i task).step e w.shared r s := ⟨outcome, ha, hperform⟩
  obtain ⟨hs, hg⟩ := contract_sound i task h.shared hpre hstep
  refine ⟨⟨hs, fun n th hn => ?_, fun n th hn => ?_⟩, hg⟩
  · rcases getElem?_set_cases hn with ⟨-, hold⟩ | ⟨rfl, rfl⟩
    · exact (h.assigned n th hold).mono hg
    · exact (h.assigned n _ hth).mono hg
  · rcases getElem?_set_cases hn with ⟨-, hold⟩ | ⟨rfl, rfl⟩
    · exact (h.safe n th hold).mono hg
    · exact hrest r s hstep

/-- The queue records the result of an attempt, which the invariant has kept for it. -/
private theorem finish (h : WorldLegit cfg P w) {i : ℕ} {view : JobView K}
    {r : Except Exc (Json K)} (hth : w.threads[i]? = some ⟨.worker view, .ret r⟩)
    {F : PipelineFlow K} (hF : w.shared.flows[view.ref.flow]? = some F) :
    WorldLegit cfg P (w.setFlow view.ref.flow (World.settle r view.ref.child F)) ∧
      Grows w.shared (w.setFlow view.ref.flow (World.settle r view.ref.child F)).shared := by
  have hspec := World.spec_settle r view.ref.child F
  cases r with
  | error x => exact h.queueOp hF hspec fun i v hv => Flow.value?_fail hv
  | ok v =>
    have hres := Safe.of_ok h.shared (h.safe i _ hth)
    have hg := Grows.setFlow hF hspec
    refine ⟨h.grow (h.shared.setFlow hF hspec fun n u hu => ?_) hg, hg⟩
    rcases Flow.value?_complete hu with ⟨hchild, rfl⟩ | hold
    · exact Or.inr (hres view rfl n hchild F hF)
    · exact Or.inl hold

/-- One action: the invariant is kept and the shared state grows. -/
theorem act (h : WorldLegit cfg P w) {a : Act K} (ha : a.Within P)
    (hact : w.act cfg a = some w') : WorldLegit cfg P w' ∧ Grows w.shared w'.shared := by
  cases a with
  | request file laneCount =>
    obtain rfl := Option.some.inj hact
    refine ⟨h.addThread trivial ?_, Grows.refl _⟩
    refine createMap_safe h.shared ⟨file, laneCount⟩ fun j t _ => ?_
    rintro job hjob
    cases hjob
  | start ref =>
    obtain ⟨F, F', job, program, hF, hstart, hjob, hprogram, rfl⟩ := World.act_start hact
    obtain ⟨hlegit, hg⟩ :=
      h.queueOp hF (Flow.spec_start hstart) fun _ _ => Flow.value?_start hstart
    have hassigned : Assigned w.shared (.worker (.ofJob ref job)) :=
      ⟨F, hF, job.spec, by rw [Flow.job?_spec]; exact congrArg _ hjob, rfl, rfl⟩
    refine ⟨hlegit.addThread (hassigned.mono hg) ?_, hg⟩
    exact handlerOf_safe hlegit.shared (hassigned.mono hg) hprogram
  | promote ref =>
    obtain ⟨F, F', hF, hpromote, rfl⟩ := World.onFlow_eq_some hact
    exact h.queueOp hF (Flow.spec_promote hpromote) fun _ _ => Flow.value?_promote hpromote
  | step i outcome =>
    obtain ⟨task, e, k, r, s, hth, hperform, rfl⟩ := World.act_step hact
    exact h.step ha hth hperform
  | finish i =>
    obtain ⟨view, r, F, job, hth, hF, -, -, rfl⟩ := World.act_finish hact
    exact h.finish hth hF
  | stall ref =>
    obtain ⟨F, F', hF, hstall, rfl⟩ := World.onFlow_eq_some hact
    exact h.queueOp hF (Flow.spec_stall hstall) fun _ _ => Flow.value?_stall hstall

/-- A whole run. -/
theorem run (h : WorldLegit cfg P w) {acts : List (Act K)} (ha : ∀ a ∈ acts, a.Within P)
    (hrun : w.run cfg acts = some w') : WorldLegit cfg P w' ∧ Grows w.shared w'.shared := by
  refine World.run_invariant
    (I := fun v => WorldLegit cfg P v ∧ Grows w.shared v.shared) ?_ ⟨h, Grows.refl _⟩ ha hrun
  rintro v a v' ⟨hv, hg⟩ ha hact
  obtain ⟨hv', hg'⟩ := hv.act ha hact
  exact ⟨hv', hg.trans hg'⟩

end WorldLegit

/-! A complete run: one silent song, every operation succeeds, and the children finish in
the other order than they started. -/
namespace Sample

def lib : Librosa ℚ where
  getDuration _ := 2
  load _ _ := ([0], 44100)
  beatTrack _ _ := .array [120]
  lowpass _ _ _ y := y
  onsetStrength _ _ _ := []
  onsetDetect _ := []
  framesToTime frame sr hop := frame * hop / sr
  stftMagnitude _ nFft _ := .zeros (nFft / 2 + 1) 1
  hannWindow _ := []
  melspectrogram S _ bands _ := .zeros bands S.cols
  powerToDb S := S
  spectralCentroid _ _ _ := [0]
  demucs audio := (0 :: audio, 1 :: audio)
  argsort ranked := List.range ranked.length
  log2 x := x
  exp2 x := x
  log10 x := x
  sqrt x := x

def objectId (n : Fin 16) : ObjectId := ⟨List.replicate 23 0 ++ [n], by simp⟩

def env (n : Fin 16) : Env ℚ := ⟨objectId n, 0, fun _ => ⟨"-", by simp⟩, lib, [1, 0]⟩

def file : UploadFile := ⟨some "song.mp3", some "audio/mpeg", none, [7]⟩

def steps (i n : ℕ) : List (Act ℚ) := List.replicate n (.step i (.done (env 2)))

def creation : List (Act ℚ) :=
  .request file none :: steps 0 1 ++ .step 0 (.done (env 1)) :: steps 0 3

def acts : List (Act ℚ) :=
  creation ++ .start ⟨0, none⟩ :: steps 1 9 ++
  [.finish 1, .start ⟨1, some 0⟩, .start ⟨1, some 1⟩] ++
  steps 2 4 ++ steps 3 4 ++ [.finish 3, .finish 2, .start ⟨1, none⟩] ++ steps 4 3 ++ [.finish 4]

theorem within_done {P : Librosa ℚ → Prop} (h : P lib) (n : Fin 16) :
    (Outcome.done (env n)).Within P := by
  rintro e he
  obtain rfl := Option.some.inj he
  exact h

theorem steps_within {P : Librosa ℚ → Prop} (h : P lib) (i n : ℕ) :
    ∀ a ∈ steps i n, a.Within P := by
  intro a ha
  obtain rfl := List.eq_of_mem_replicate ha
  exact within_done h 2

theorem acts_within {P : Librosa ℚ → Prop} (h : P lib) : ∀ a ∈ acts, a.Within P := by
  have hstep : (Act.step 0 (.done (env 1))).Within P := within_done h 1
  have hsteps := steps_within h
  simp only [acts, creation, List.forall_mem_append, List.forall_mem_cons]
  simpa [Act.within_of_ne_step, hstep] using
    (⟨⟨⟨⟨⟨hsteps 0 1, hsteps 0 3⟩, hsteps 1 9⟩, hsteps 2 4⟩, hsteps 3 4⟩, hsteps 4 3⟩ :
      (((((∀ a ∈ steps 0 1, a.Within P) ∧ _) ∧ _) ∧ _) ∧ _) ∧ _)

end Sample
end Maps
