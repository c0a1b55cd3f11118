import BeatmapBackend.Migrations.Runners
import BeatmapBackend.Queues.Budget
import BeatmapBackend.Queues.Ledger

/-! Invocations of the migration runner at the same time: `_migrations` is a journal that they
share, and the unique ids of its documents are all that keeps them apart. -/
namespace Migrations
open Collections Queues
open Maps (Exc)

variable {D : Type}

def Runner.names (r : Runner D) : List String := (discover r.env).map stemOf

@[simp] theorem Runner.names_go (r : Runner D) (stage : Stage) : (r.go stage).names = r.names := rfl

@[simp] theorem Runner.names_recorded (r : Runner D) (alreadyApplied paths : List String)
    (path : String) : (r.recorded alreadyApplied path paths).names = r.names := rfl

/-- An invocation as a worker on the journal of the recorded migrations. -/
def Runner.Staged (r : Runner D) (W : Worker String) : Prop :=
  match r.stage with
  | .reading before => W.fate = .idle ∧ W.known = before ∧ W.todo = r.names ∧
      r.completed = r.appliedNow
  | .looping alreadyApplied paths => W.fate = .working ∧ W.known = alreadyApplied ∧
      paths <:+ discover r.env ∧ W.todo = paths.map stemOf ∧ r.completed = r.appliedNow
  | .running alreadyApplied path paths => W.fate = .working ∧ W.known = alreadyApplied ∧
      path :: paths <:+ discover r.env ∧ W.todo = (path :: paths).map stemOf ∧
      stemOf path ∉ alreadyApplied ∧ r.completed = r.appliedNow
  | .recording alreadyApplied path paths => W.fate = .working ∧ W.known = alreadyApplied ∧
      path :: paths <:+ discover r.env ∧ W.todo = (path :: paths).map stemOf ∧
      stemOf path ∉ alreadyApplied ∧ r.completed = r.appliedNow ++ [stemOf path]
  | .ended (.ok names) => W.fate = .finished ∧ names = r.appliedNow ∧ r.completed = r.appliedNow
  | .ended (.error e) => W.fate = .crashed ∨ W.fate = .overtaken ∧
      ∃ name, W.todo.head? = some name ∧ e = duplicateKeyError name

structure Runner.Matches (r : Runner D) (W : Worker String) : Prop where
  tasks : W.done ++ W.todo = r.names
  staged : r.Staged W
  entered : W.entered ⊆ r.completed
  appliedNow : W.fate = .crashed ∨ W.entered = r.appliedNow

structure World.Matches (w : World D) (L : Ledger String) : Prop where
  journal : L.journal = w.db.recorded
  length : L.workers.length = w.runners.length
  runners : ∀ (i : ℕ) (r : Runner D) (W : Worker String), w.runners[i]? = some r →
    L.workers[i]? = some W → r.Matches W

namespace World.Matches

variable {w : World D} {L : Ledger String} {i : ℕ} {r r' : Runner D} {V W : Worker String}

theorem worker (h : w.Matches L) (hr : w.runners[i]? = some r) :
    ∃ W, L.workers[i]? = some W ∧ r.Matches W := by
  have hi : i < L.workers.length := h.length ▸ (List.getElem?_eq_some_iff.mp hr).1
  have hW : L.workers[i]? = some L.workers[i] := List.getElem?_eq_getElem hi
  exact ⟨_, hW, h.runners i r _ hr hW⟩

theorem set (h : w.Matches L) (i : ℕ) (hr : r'.Matches V) {db : Database D}
    {journal : List String} (hjournal : journal = db.recorded) (last : Option ℕ) :
    World.Matches ⟨db, w.runners.set i r'⟩ ⟨journal, L.workers.set i V, last⟩ := by
  refine ⟨hjournal, by simpa using h.length, fun j r W hrj hWj => ?_⟩
  rcases getElem?_set_cases hrj with ⟨hj, hrj'⟩ | ⟨rfl, rfl⟩
  · rcases getElem?_set_cases hWj with ⟨-, hWj'⟩ | ⟨rfl, -⟩
    · exact h.runners j r W hrj' hWj'
    · exact (hj rfl).elim
  · rcases getElem?_set_cases hWj with ⟨hj, -⟩ | ⟨-, rfl⟩
    · exact (hj rfl).elim
    · exact hr

end World.Matches

inductive Moved (L : Ledger String) (i : ℕ) (db : Database D) (r : Runner D) (m : Move D) : Prop
  | still (hjournal : L.journal = db.recorded) {W : Worker String} (hW : L.workers[i]? = some W)
      (hr : r.Matches W)
  | step {journal : List String} {V : Worker String} {last : Option ℕ}
      (hstep : L.Step ⟨journal, L.workers.set i V, last⟩) (hjournal : journal = db.recorded)
      (hr : r.Matches V) (hfate : m.Undisturbed → V.fate ≠ .crashed)

namespace Runner

variable {w : World D} {L : Ledger String} {i : ℕ} {r r' : Runner D} {W : Worker String}
variable {db : Database D} {m : Move D}

theorem Matches.fate_of_open (hm : r.Matches W) (hopen : ∀ result, r.stage ≠ .ended result) :
    W.fate = .idle ∨ W.fate = .working := by
  have hstaged := hm.staged
  unfold Staged at hstaged
  split at hstaged
  · exact Or.inl hstaged.1
  · exact Or.inr hstaged.1
  · exact Or.inr hstaged.1
  · exact Or.inr hstaged.1
  next names hstage => exact (hopen _ hstage).elim
  next e hstage => exact (hopen _ hstage).elim

/-- An invocation that stops with an exception of its own. -/
theorem Matches.crash (hm : r.Matches W) (e : Exc) :
    (r.go (.ended (.error e))).Matches (W.stop .crashed) where
  tasks := hm.tasks
  staged := Or.inl rfl
  entered := hm.entered
  appliedNow := Or.inl rfl

theorem Matches.moved (hm : r.Matches W) (hjournal : L.journal = db.recorded)
    (hW : L.workers[i]? = some W) {db' : Database D} (h : Moves db r m db' r') :
    Moved L i db' r' m := by
  have hstaged := hm.staged
  have happliedNow (hfate : W.fate = .working) : W.entered = r.appliedNow :=
    hm.appliedNow.resolve_left (by simp [hfate])
  cases h with
  | read hstage hbefore hnames =>
    simp only [Staged, hstage] at hstaged
    obtain ⟨hfate, hknown, htodo, hcompleted⟩ := hstaged
    have hentered := hm.appliedNow.resolve_left (by simp [hfate])
    refine .step (.look hW hfate (hknown ▸ hbefore) (hjournal ▸ hnames)) hjournal ?_
      fun _ => Fate.noConfusion
    exact ⟨hm.tasks, ⟨rfl, rfl, List.suffix_refl _, htodo, hcompleted⟩, hm.entered,
      Or.inr hentered⟩
  | finish hstage =>
    simp only [Staged, hstage] at hstaged
    obtain ⟨hfate, -, -, htodo, hcompleted⟩ := hstaged
    refine .step (.finish hW hfate htodo) hjournal ?_ fun _ => Fate.noConfusion
    exact ⟨hm.tasks, ⟨rfl, rfl, hcompleted⟩, hm.entered, Or.inr (happliedNow hfate)⟩
  | skip hstage happlied =>
    simp only [Staged, hstage] at hstaged
    obtain ⟨hfate, hknown, hsuffix, htodo, hcompleted⟩ := hstaged
    refine .step (.skip hW hfate htodo (hknown ▸ happlied)) hjournal ?_ ?_
    · have htasks := hm.tasks
      rw [htodo] at htasks
      refine ⟨?_, ⟨hfate, hknown, ?_, rfl, hcompleted⟩, hm.entered, Or.inr (happliedNow hfate)⟩
      · simpa [Worker.pass] using htasks
      · exact (List.suffix_cons _ _).trans hsuffix
    · simp [Worker.pass, hfate]
  | load hstage happlied =>
    simp only [Staged, hstage] at hstaged
    obtain ⟨hfate, hknown, hsuffix, htodo, hcompleted⟩ := hstaged
    refine .still hjournal hW ⟨hm.tasks, ?_, hm.entered, hm.appliedNow⟩
    exact ⟨hfate, hknown, hsuffix, htodo, happlied, hcompleted⟩
  | work hstage change => exact .still hjournal hW hm
  | complete hstage =>
    simp only [Staged, hstage] at hstaged
    obtain ⟨hfate, hknown, hsuffix, htodo, happlied, hcompleted⟩ := hstaged
    refine .still hjournal hW ⟨hm.tasks, ?_, ?_, hm.appliedNow⟩
    · exact ⟨hfate, hknown, hsuffix, htodo, happlied, by rw [complete, hcompleted]⟩
    · exact List.Subset.trans hm.entered (List.subset_append_left _ _)
  | record hstage hfresh hrecorded =>
    simp only [Staged, hstage] at hstaged
    obtain ⟨hfate, hknown, hsuffix, htodo, happlied, hcompleted⟩ := hstaged
    refine .step (.enter hW hfate htodo (hjournal ▸ hfresh) (Or.inl rfl))
      (by rw [hjournal, hrecorded]) ?_ fun _ => Fate.noConfusion
    have htasks := hm.tasks
    rw [htodo] at htasks
    refine ⟨?_, ⟨rfl, hknown, ?_, rfl, ?_⟩, ?_, Or.inr ?_⟩
    · simpa [Worker.enter] using htasks
    · exact (List.suffix_cons _ _).trans hsuffix
    · exact hcompleted
    · simp [Worker.enter, recorded, hcompleted, happliedNow hfate]
    · simp [Worker.enter, recorded, happliedNow hfate]
  | @duplicate alreadyApplied paths path hstage hrecorded =>
    simp only [Staged, hstage] at hstaged
    obtain ⟨hfate, hknown, hsuffix, htodo, happlied, hcompleted⟩ := hstaged
    refine .step (.overtaken hW hfate htodo (hjournal ▸ hrecorded) (hknown ▸ happlied)) hjournal
      ?_ fun _ => Fate.noConfusion
    refine ⟨hm.tasks, Or.inr ⟨rfl, stemOf path, ?_, rfl⟩, hm.entered, Or.inr (happliedNow hfate)⟩
    rw [Worker.stop, htodo, List.map_cons, List.head?_cons]
  | unanswered hstage hfresh hrecorded =>
    simp only [Staged, hstage] at hstaged
    obtain ⟨hfate, hknown, hsuffix, htodo, happlied, hcompleted⟩ := hstaged
    refine .step (.enter hW hfate htodo (hjournal ▸ hfresh) (Or.inr rfl))
      (by rw [hjournal, hrecorded]) ?_ False.elim
    have htasks := hm.tasks
    rw [htodo] at htasks
    refine ⟨?_, Or.inl rfl, ?_, Or.inl rfl⟩
    · simpa [Worker.enter] using htasks
    · simp [Worker.enter, go, hcompleted, happliedNow hfate]
  | stop hstop hopen =>
    refine .step (.crash hW (hm.fate_of_open hopen)) hjournal (hm.crash _) ?_
    rcases hstop with rfl | rfl <;> exact False.elim

end Runner

/-- The journal behind a database that invocations share. -/
structure Tracked (start : List String) (w : World D) (L : Ledger String) : Prop where
  follows : w.Matches L
  sound : L.Sound start
  aligned : ∀ files, (∀ r ∈ w.runners, discover r.env = files) →
    L.Aligned start (files.map stemOf)

def Act.Undisturbed : Act D → Prop
  | .start _ => True
  | .move _ m => m.Undisturbed

/-- No worker has been stopped by a failure of its own. -/
def Uncrashed (L : Ledger String) : Prop := ∀ W ∈ L.workers, W.fate ≠ .crashed

section Tracking

variable {start : List String} {w w' : World D} {L : Ledger String} {a : Act D}

theorem World.Matches.tasks (h : w.Matches L) {files : List String}
    (hfiles : ∀ r ∈ w.runners, discover r.env = files) {W : Worker String} (hW : W ∈ L.workers) :
    W.done ++ W.todo = files.map stemOf := by
  obtain ⟨i, hi⟩ := List.mem_iff_getElem?.mp hW
  have hlt : i < w.runners.length := h.length ▸ (List.getElem?_eq_some_iff.mp hi).1
  have hr : w.runners[i]? = some w.runners[i] := List.getElem?_eq_getElem hlt
  rw [(h.runners i _ W hr hi).tasks, Runner.names, hfiles _ (List.getElem_mem hlt)]

theorem Tracked.empty (db : Database D) :
    Tracked db.recorded ⟨db, []⟩ (⟨db.recorded, [], none⟩ : Ledger String) where
  follows := ⟨rfl, rfl, by simp⟩
  sound := Ledger.Sound.empty _
  aligned _ _ := Ledger.Aligned.empty _ _

theorem Tracked.join (h : Tracked start w L) (env : Environment D) :
    Tracked start { w with runners := w.runners ++ [.begin env w.db] }
      { L with workers := L.workers ++ [.fresh L.journal ((discover env).map stemOf)] } := by
  have hstep := Ledger.Step.join (L := L) ((discover env).map stemOf)
  have hfollows : World.Matches { w with runners := w.runners ++ [.begin env w.db] }
      { L with workers := L.workers ++ [.fresh L.journal ((discover env).map stemOf)] } := by
    refine ⟨h.follows.journal, by simpa using h.follows.length, fun i r W hr hW => ?_⟩
    rcases getElem?_concat_cases hr with hr' | ⟨hi, rfl⟩
    · have hi : i < L.workers.length := h.follows.length ▸ (List.getElem?_eq_some_iff.mp hr').1
      exact h.follows.runners i r W hr' ((List.getElem?_append_left hi).symm.trans hW)
    · rcases getElem?_concat_cases hW with hW' | ⟨-, rfl⟩
      · have hlt := (List.getElem?_eq_some_iff.mp hW').1
        have hlength := h.follows.length
        omega
      · exact ⟨rfl, ⟨rfl, h.follows.journal, rfl, rfl⟩, List.nil_subset _, Or.inr rfl⟩
  refine ⟨hfollows, h.sound.step hstep, fun files hfiles => ?_⟩
  have hold := h.aligned files fun r hr => hfiles r (List.mem_append_left _ hr)
  have henv : discover env = files :=
    hfiles _ (List.mem_append_right _ (List.mem_singleton_self _))
  exact hold.step h.sound (henv ▸ discover_stems_nodup env) hstep fun W hW =>
    hfollows.tasks hfiles hW

private theorem sameFiles {r r' : Runner D} {i : ℕ} (hr : w.runners[i]? = some r)
    (henv : r'.env = r.env) {files : List String}
    (hfiles : ∀ s ∈ w.runners.set i r', discover s.env = files) :
    discover r.env = files ∧ ∀ s ∈ w.runners, discover s.env = files := by
  have hi := (List.getElem?_eq_some_iff.mp hr).1
  have hset (j : ℕ) (s : Runner D) (hs : (w.runners.set i r')[j]? = some s) :
      discover s.env = files := hfiles s (List.mem_of_getElem? hs)
  have hself : discover r.env = files := henv ▸ hset i r' (List.getElem?_set_self hi)
  refine ⟨hself, fun s hs => ?_⟩
  obtain ⟨j, hj⟩ := List.mem_iff_getElem?.mp hs
  by_cases hji : j = i
  · subst hji
    obtain rfl := Option.some.inj (hj.symm.trans hr)
    exact hself
  · exact hset j s ((List.getElem?_set_ne (Ne.symm hji)).trans hj)

/-- Whatever is done, it is a step on the journal or none. -/
theorem Tracked.act (h : Tracked start w L) (hact : w.act a = some w') :
    ∃ L', Tracked start w' L' ∧ (a.Undisturbed → Uncrashed L → Uncrashed L') := by
  cases a with
  | start env =>
    obtain rfl := Option.some.inj hact
    refine ⟨_, h.join env, fun _ hL W hW => ?_⟩
    rcases List.mem_append.mp hW with hW | hW
    · exact hL W hW
    · rw [List.mem_singleton.mp hW]
      exact Fate.noConfusion
  | move i m =>
    obtain ⟨r, db, r', hr, hmove, rfl⟩ := World.act_move_eq_some.mp hact
    have hmoves := Runner.moves_of_move hmove
    obtain ⟨W, hW, hm⟩ := h.follows.worker hr
    have hsame {files : List String}
        (hfiles : ∀ s ∈ w.runners.set i r', discover s.env = files) :=
      sameFiles hr hmoves.env_eq hfiles
    cases hm.moved h.follows.journal hW hmoves with
    | @still hjournal V hV hr' =>
      have hset : L.workers.set i V = L.workers := by
        obtain ⟨hi, rfl⟩ := List.getElem?_eq_some_iff.mp hV
        exact List.set_getElem_self hi
      have hfollows := h.follows.set i hr' hjournal L.last
      rw [hset] at hfollows
      exact ⟨L, ⟨hfollows, h.sound, fun files hfiles => h.aligned files (hsame hfiles).2⟩,
        fun _ hL => hL⟩
    | @step journal V last hstep hjournal hr' hfate =>
      have hfollows := h.follows.set i hr' hjournal last
      refine ⟨_, ⟨hfollows, h.sound.step hstep, fun files hfiles => ?_⟩, fun hquiet hL V hV => ?_⟩
      · have hnodup : (files.map stemOf).Nodup := (hsame hfiles).1 ▸ discover_stems_nodup r.env
        exact (h.aligned files (hsame hfiles).2).step h.sound hnodup hstep fun W hW =>
          hfollows.tasks hfiles hW
      · rcases List.mem_or_eq_of_mem_set hV with hV | rfl
        · exact hL V hV
        · exact hfate hquiet

theorem tracked_of_run {db : Database D} {acts : List (Act D)}
    (h : World.run ⟨db, []⟩ acts = some w) : ∃ L, Tracked db.recorded w L := by
  refine World.run_invariant (I := fun v => ∃ L, Tracked db.recorded v L) (Q := fun _ => True)
    ?_ ⟨_, Tracked.empty db⟩ (fun _ _ => trivial) h
  rintro v a v' ⟨L, hL⟩ - hact
  obtain ⟨L', hL', -⟩ := hL.act hact
  exact ⟨L', hL'⟩

theorem uncrashed_of_run {db : Database D} {acts : List (Act D)}
    (h : World.run ⟨db, []⟩ acts = some w) (hacts : ∀ a ∈ acts, a.Undisturbed) :
    ∃ L, Tracked db.recorded w L ∧ Uncrashed L := by
  refine World.run_invariant (I := fun v => ∃ L, Tracked db.recorded v L ∧ Uncrashed L)
    ?_ ⟨_, Tracked.empty db, by simp [Uncrashed]⟩ hacts h
  rintro v a v' ⟨L, hL, hcrash⟩ hquiet hact
  obtain ⟨L', hL', hcrash'⟩ := hL.act hact
  exact ⟨L', hL', hcrash' hquiet hcrash⟩

end Tracking

/-- What holds whatever invocations do at once, where `start` is what was recorded at first. -/
structure Consistent (start : List String) (w : World D) : Prop where
  grown : start <+: w.db.recorded
  /-- No migration is recorded twice. -/
  once : w.db.recorded.Nodup
  /-- What is recorded has completed. -/
  completed : ∀ name ∈ w.db.recorded, name ∈ start ∨ ∃ r ∈ w.runners, name ∈ r.completed
  /-- While `up` of a file is under way, all earlier files are recorded. -/
  inOrder : ∀ r ∈ w.runners, ∀ alreadyApplied path paths,
    r.stage = .running alreadyApplied path paths → ∀ earlier ∈ discover r.env, earlier < path →
      stemOf earlier ∈ w.db.recorded
  /-- An invocation that has returned leaves nothing to do, and what it returns it has done. -/
  returned : ∀ r ∈ w.runners, ∀ names, r.stage = .ended (.ok names) →
    (∀ path ∈ discover r.env, stemOf path ∈ w.db.recorded) ∧ names = r.completed ∧
      names.Sublist r.names ∧ start.Disjoint names
  /-- No migration is returned twice. -/
  apart : ∀ (i j : ℕ) (r r' : Runner D), w.runners[i]? = some r → w.runners[j]? = some r' →
    i ≠ j → ∀ names names', r.stage = .ended (.ok names) → r'.stage = .ended (.ok names') →
      names.Disjoint names'
  /-- Invocations that see the same files record what one of them alone would. -/
  ordered : ∀ files, (∀ r ∈ w.runners, discover r.env = files) →
    ∃ done, done <+: pending start (files.map stemOf) ∧ w.db.recorded = start ++ done

section Consistent

variable {start : List String} {w : World D} {L : Ledger String} {r : Runner D}
variable {W : Worker String} {alreadyApplied paths names : List String} {path : String}

theorem Runner.Matches.mem_done (hm : r.Matches W)
    (hstage : r.stage = .running alreadyApplied path paths) {earlier : String}
    (hmem : earlier ∈ discover r.env) (hlt : earlier < path) : stemOf earlier ∈ W.done := by
  have hstaged := hm.staged
  simp only [Runner.Staged, hstage] at hstaged
  obtain ⟨-, -, ⟨before, hbefore⟩, htodo, -⟩ := hstaged
  have hdone : W.done = before.map stemOf := by
    have htasks := hm.tasks
    rw [Runner.names, ← hbefore, List.map_append, htodo] at htasks
    exact List.append_cancel_right htasks
  have hsorted := discover_pairwise r.env
  rw [← hbefore] at hmem hsorted
  rw [hdone]
  rcases List.mem_append.mp hmem with hold | hnew
  · exact List.mem_map_of_mem hold
  · have hle : path ≤ earlier := by
      rcases List.mem_cons.mp hnew with rfl | hlater
      · exact le_rfl
      · exact ((List.pairwise_cons.mp (List.pairwise_append.mp hsorted).2.1).1 _ hlater).le
    exact absurd hlt (not_lt.mpr hle)

theorem Runner.Matches.of_returned (hm : r.Matches W) (hstage : r.stage = .ended (.ok names)) :
    W.fate = .finished ∧ names = W.entered ∧ names = r.completed := by
  have hstaged := hm.staged
  simp only [Runner.Staged, hstage] at hstaged
  obtain ⟨hfate, hnames, hcompleted⟩ := hstaged
  have hentered := hm.appliedNow.resolve_left (by simp [hfate])
  exact ⟨hfate, hnames.trans hentered.symm, hnames.trans hcompleted.symm⟩

/-- A worker that has finished has done all its tasks. -/
theorem Runner.Matches.done_of_finished {journal : List String} (hm : r.Matches W)
    (hfits : Ledger.Fits start journal W) (hfate : W.fate = .finished) : W.done = r.names := by
  have haccounted := hfits.accounted
  simp only [Worker.Accounted, hfate] at haccounted
  rw [← hm.tasks, haccounted, List.append_nil]

theorem Tracked.consistent (h : Tracked start w L) : Consistent start w := by
  have hworker {r : Runner D} (hr : r ∈ w.runners) :
      ∃ W, r.Matches W ∧ Ledger.Fits start L.journal W := by
    obtain ⟨i, hi⟩ := List.mem_iff_getElem?.mp hr
    obtain ⟨W, hW, hm⟩ := h.follows.worker hi
    exact ⟨W, hm, h.sound.fits W (List.mem_of_getElem? hW)⟩
  have hjournal := h.follows.journal
  constructor
  case grown => exact hjournal ▸ h.sound.grown
  case once => exact w.db.migrations.nodup
  case completed =>
    intro name hname
    rcases h.sound.covered name (hjournal ▸ hname) with hstart | ⟨W, hW, hentered⟩
    · exact Or.inl hstart
    · obtain ⟨i, hi⟩ := List.mem_iff_getElem?.mp hW
      have hlt : i < w.runners.length := h.follows.length ▸ (List.getElem?_eq_some_iff.mp hi).1
      have hm := h.follows.runners i _ W (List.getElem?_eq_getElem hlt) hi
      exact Or.inr ⟨_, List.getElem_mem hlt, hm.entered hentered⟩
  case inOrder =>
    intro r hr alreadyApplied path paths hstage earlier hmem hlt
    obtain ⟨W, hm, hfits⟩ := hworker hr
    exact hjournal ▸ hfits.done (hm.mem_done hstage hmem hlt)
  case returned =>
    intro r hr names hstage
    obtain ⟨W, hm, hfits⟩ := hworker hr
    obtain ⟨hfate, hentered, hcompleted⟩ := hm.of_returned hstage
    have hdone := hm.done_of_finished hfits hfate
    refine ⟨fun path hpath => ?_, hcompleted, ?_, hentered ▸ hfits.fresh⟩
    · exact hjournal ▸ hfits.done (hdone ▸ List.mem_map_of_mem hpath)
    · exact hentered ▸ hdone ▸ hfits.entered
  case apart =>
    intro i j r r' hr hr' hij names names' hstage hstage'
    obtain ⟨W, hW, hm⟩ := h.follows.worker hr
    obtain ⟨W', hW', hm'⟩ := h.follows.worker hr'
    rw [(hm.of_returned hstage).2.1, (hm'.of_returned hstage').2.1]
    exact h.sound.apart i j W W' hW hW' hij
  case ordered =>
    intro files hfiles
    obtain ⟨done, hdone, heq⟩ := (h.aligned files hfiles).journal_eq
    exact ⟨pending start done, hdone.filter _, hjournal ▸ heq⟩

end Consistent

/-- Invocations at once, with whatever failures: only migrations that have completed are recorded,
each once and for good, and none is begun before all that precede it are recorded. -/
theorem concurrent_consistent {db : Database D} {acts : List (Act D)} {w : World D}
    (h : World.run ⟨db, []⟩ acts = some w) : Consistent db.recorded w ∧
      ∀ more w', w.run more = some w' → w.db.recorded <+: w'.db.recorded := by
  obtain ⟨L, hL⟩ := tracked_of_run h
  exact ⟨hL.consistent, fun _ _ => World.run_recorded⟩

namespace Sample

def unrecorded : Database ℕ := ⟨Collection.empty, 0⟩

def directory : Environment ℕ :=
  environment ["0002_users.py", "0001_initial_indexes.py"] (by decide) []

def bothRunning : List (Act ℕ) :=
  [.start directory, .start directory, .move 0 (.read []), .move 1 (.read []), .move 0 .next,
    .move 1 .next, .move 1 (.work (· + 1)), .move 0 (.work (· + 1)), .move 1 .complete]

/-- The one that records it first loses its connection. -/
def unanswered : List (Act ℕ) :=
  bothRunning ++ [.move 1 (.recordUnanswered ⟨.other "AutoReconnect", "connection closed"⟩),
    .move 0 .complete, .move 0 .record, .start directory,
    .move 2 (.read ["0001_initial_indexes"]), .move 2 .next, .move 2 .next]

end Sample

open Sample in
theorem concurrent_consistent_sample :
    ∃ w, World.run ⟨unrecorded, []⟩ unanswered = some w ∧ Consistent [] w ∧
      ∀ more w', w.run more = some w' → w.db.recorded <+: w'.db.recorded := by
  obtain ⟨w, hw⟩ := Option.isSome_iff_exists.mp
    (show (World.run ⟨unrecorded, []⟩ unanswered).isSome = true by decide +kernel)
  exact ⟨w, hw, concurrent_consistent hw⟩

section Settling

variable {start : List String} {w w' : World D} {L : Ledger String}

def World.left (w : World D) : ℕ := (w.runners.map Runner.left).sum

def World.moves (w : World D) (moves : List (ℕ × Move D)) : Option (World D) :=
  w.run (moves.map fun x => .move x.1 x.2)

theorem World.left_le {i : ℕ} {m : Move D} (h : w.act (.move i m) = some w') :
    w'.left + (if m.isWork then 0 else 1) ≤ w.left := by
  obtain ⟨r, db, r', hr, hmove, rfl⟩ := World.act_move_eq_some.mp h
  have hle := (Runner.moves_of_move hmove).left_le
  have hsum := sum_map_modify Runner.left (fun _ => r') hr
  rw [← List.set_eq_modify] at hsum
  unfold World.left
  dsimp only
  omega

/-- Only so many moves can follow, those within an `up` aside. -/
theorem World.countP_le {moves : List (ℕ × Move D)} (h : w.moves moves = some w') :
    moves.countP (fun x => !x.2.isWork) ≤ w.left := by
  induction moves generalizing w with
  | nil => simp
  | cons x moves ih =>
    obtain ⟨v, hv, h⟩ := Option.bind_eq_some_iff.mp h
    have hle := World.left_le hv
    have hrest := ih h
    rw [List.countP_cons]
    cases hx : x.2.isWork <;> simp [hx] at hle ⊢ <;> omega

theorem World.exists_ended (h : Tracked start w L) :
    ∃ moves w', (∀ x ∈ moves, x.2.Undisturbed) ∧ w.moves moves = some w' ∧
      ∀ r ∈ w'.runners, ∃ result, r.stage = .ended result := by
  induction hn : w.left using Nat.strong_induction_on generalizing w L with
  | _ n ih =>
    by_cases hended : ∀ r ∈ w.runners, ∃ result, r.stage = .ended result
    · exact ⟨[], w, by simp, rfl, hended⟩
    · simp only [not_forall, not_exists] at hended
      obtain ⟨r, hr, hopen⟩ := hended
      obtain ⟨i, hi⟩ := List.mem_iff_getElem?.mp hr
      obtain ⟨W, hW, hm⟩ := h.follows.worker hi
      have hread (before : List String) (hstage : r.stage = .reading before) :
          before ⊆ w.db.recorded := by
        have hstaged := hm.staged
        simp only [Runner.Staged, hstage] at hstaged
        rw [← hstaged.2.1, ← h.follows.journal]
        exact (h.sound.fits W (List.mem_of_getElem? hW)).known
      obtain ⟨m, hmove, hquiet, hwork⟩ := Runner.exists_move w.db r hopen hread
      obtain ⟨⟨db, r'⟩, hmove⟩ := Option.isSome_iff_exists.mp hmove
      have hact : w.act (.move i m) = some ⟨db, w.runners.set i r'⟩ :=
        World.act_move_eq_some.mpr ⟨r, db, r', hi, hmove, rfl⟩
      have hlt := World.left_le hact
      rw [hwork, hn] at hlt
      obtain ⟨L', hL', -⟩ := h.act hact
      obtain ⟨moves, w', hmoves, hrun, hended⟩ := ih _ hlt hL' rfl
      refine ⟨(i, m) :: moves, w', List.forall_mem_cons.mpr ⟨hquiet, hmoves⟩, ?_, hended⟩
      rw [World.moves, List.map_cons, World.run, hact]
      exact hrun

end Settling

structure Converging (start : List String) (w : World D) : Prop where
  /-- What stops an invocation is that another has recorded the same migration. -/
  raised : ∀ (i : ℕ) (r : Runner D), w.runners[i]? = some r → ∀ e, r.stage = .ended (.error e) →
    ∃ name, e = duplicateKeyError name ∧ ∃ (j : ℕ) (r' : Runner D), j ≠ i ∧
      w.runners[j]? = some r' ∧ name ∈ r'.appliedNow
  /-- One invocation gets through, and nothing is left to do. -/
  ended : w.runners ≠ [] → (∀ r ∈ w.runners, ∃ result, r.stage = .ended result) →
    ∀ files, (∀ r ∈ w.runners, discover r.env = files) →
      w.db.recorded = start ++ pending start (files.map stemOf) ∧
        ∃ r ∈ w.runners, ∃ names, r.stage = .ended (.ok names)
  bounded : ∀ moves w', w.moves moves = some w' →
    moves.countP (fun x => !x.2.isWork) ≤ w.left
  /-- All invocations can still end. -/
  settles : ∃ moves w', (∀ x ∈ moves, x.2.Undisturbed) ∧ w.moves moves = some w' ∧
    ∀ r ∈ w'.runners, ∃ result, r.stage = .ended result

section Converging

variable {start : List String} {w : World D} {L : Ledger String} {r : Runner D}
variable {W : Worker String}

theorem Runner.Matches.fate_of_ended (hm : r.Matches W) {result : Except Exc (List String)}
    (hstage : r.stage = .ended result) (hcrash : W.fate ≠ .crashed) :
    W.fate = .finished ∨ W.fate = .overtaken := by
  have hstaged := hm.staged
  cases result with
  | ok names =>
    simp only [Runner.Staged, hstage] at hstaged
    exact Or.inl hstaged.1
  | error e =>
    simp only [Runner.Staged, hstage] at hstaged
    exact Or.inr (hstaged.resolve_left hcrash).1

theorem Tracked.raised (h : Tracked start w L) (hcrash : Uncrashed L) {i : ℕ}
    (hr : w.runners[i]? = some r) {e : Exc} (hstage : r.stage = .ended (.error e)) :
    ∃ name, e = duplicateKeyError name ∧ ∃ (j : ℕ) (r' : Runner D), j ≠ i ∧
      w.runners[j]? = some r' ∧ name ∈ r'.appliedNow := by
  obtain ⟨W, hW, hm⟩ := h.follows.worker hr
  have hmem := List.mem_of_getElem? hW
  have hfits := h.sound.fits W hmem
  have hstaged := hm.staged
  simp only [Runner.Staged, hstage] at hstaged
  obtain ⟨hfate, name, hhead, he⟩ := hstaged.resolve_left (hcrash W hmem)
  have haccounted := hfits.accounted
  simp only [Worker.Accounted, hfate] at haccounted
  obtain ⟨t, ht, hjournal, hknown⟩ := haccounted
  obtain rfl : name = t := Option.some.inj (hhead.symm.trans ht)
  refine ⟨name, he, ?_⟩
  obtain ⟨todo, htodo⟩ := List.head?_eq_some_iff.mp hhead
  have hdone := Ledger.not_mem_done (discover_stems_nodup r.env) hm.tasks htodo
  rcases h.sound.covered name hjournal with hstart | ⟨V, hV, hentered⟩
  · exact (hknown (hfits.saw hstart)).elim
  · obtain ⟨j, hj⟩ := List.mem_iff_getElem?.mp hV
    have hlt : j < w.runners.length := h.follows.length ▸ (List.getElem?_eq_some_iff.mp hj).1
    have hr' : w.runners[j]? = some w.runners[j] := List.getElem?_eq_getElem hlt
    have hm' := h.follows.runners j _ V hr' hj
    refine ⟨j, _, ?_, hr', hm'.appliedNow.resolve_left (hcrash V hV) ▸ hentered⟩
    intro hji
    subst hji
    obtain rfl := Option.some.inj (hj.symm.trans hW)
    exact hdone (hfits.entered.subset hentered)

theorem Tracked.ended (h : Tracked start w L) (hcrash : Uncrashed L) (hne : w.runners ≠ [])
    (hended : ∀ r ∈ w.runners, ∃ result, r.stage = .ended result) {files : List String}
    (hfiles : ∀ r ∈ w.runners, discover r.env = files) :
    w.db.recorded = start ++ pending start (files.map stemOf) ∧
      ∃ r ∈ w.runners, ∃ names, r.stage = .ended (.ok names) := by
  have hrunner {W : Worker String} (hW : W ∈ L.workers) : ∃ r ∈ w.runners, r.Matches W := by
    obtain ⟨i, hi⟩ := List.mem_iff_getElem?.mp hW
    have hlt : i < w.runners.length := h.follows.length ▸ (List.getElem?_eq_some_iff.mp hi).1
    exact ⟨_, List.getElem_mem hlt, h.follows.runners i _ W (List.getElem?_eq_getElem hlt) hi⟩
  have hworkers : L.workers ≠ [] := by
    intro hnil
    have hlength := h.follows.length
    rw [hnil, List.length_nil] at hlength
    exact hne (List.length_eq_zero_iff.mp hlength.symm)
  have hfates (W : Worker String) (hW : W ∈ L.workers) :
      W.fate = .finished ∨ W.fate = .overtaken := by
    obtain ⟨r, hr, hm⟩ := hrunner hW
    obtain ⟨result, hstage⟩ := hended r hr
    exact hm.fate_of_ended hstage (hcrash W hW)
  obtain ⟨W, hW, hfate, hjournal⟩ := (h.aligned files hfiles).finished h.sound hworkers hfates
  refine ⟨h.follows.journal ▸ hjournal, ?_⟩
  obtain ⟨r, hr, hm⟩ := hrunner hW
  obtain ⟨result, hstage⟩ := hended r hr
  refine ⟨r, hr, ?_⟩
  cases result with
  | ok names => exact ⟨names, hstage⟩
  | error e =>
    have hstaged := hm.staged
    simp only [Runner.Staged, hstage, hfate] at hstaged
    simp at hstaged

end Converging

/-- Without failures of their own invocations get in each other's way only if both come to record
one migration, and one of them always gets through. -/
theorem concurrent_converges {db : Database D} {acts : List (Act D)} {w : World D}
    (h : World.run ⟨db, []⟩ acts = some w) (hacts : ∀ a ∈ acts, a.Undisturbed) :
    Converging db.recorded w := by
  obtain ⟨L, hL, hcrash⟩ := uncrashed_of_run h hacts
  constructor
  case raised => exact fun i r hr e hstage => hL.raised hcrash hr hstage
  case ended => exact fun hne hended files hfiles => hL.ended hcrash hne hended hfiles
  case bounded => exact fun moves w' hmoves => World.countP_le hmoves
  case settles => exact World.exists_ended hL

namespace Sample

def overtaken : List (Act ℕ) :=
  bothRunning ++ [.move 1 .record, .move 0 .complete, .move 0 .record, .move 1 .next,
    .move 1 .complete, .move 1 .record, .move 1 .next]

end Sample

open Sample in
theorem concurrent_converges_sample :
    ∃ w, World.run ⟨unrecorded, []⟩ overtaken = some w ∧ Converging [] w := by
  obtain ⟨w, hw⟩ := Option.isSome_iff_exists.mp
    (show (World.run ⟨unrecorded, []⟩ overtaken).isSome = true by decide +kernel)
  refine ⟨w, hw, concurrent_converges hw ?_⟩
  simp [overtaken, bothRunning, Act.Undisturbed, Move.Undisturbed]

open Sample in
example : (World.run ⟨unrecorded, []⟩ overtaken).map (fun w => w.db.recorded) =
    some ["0001_initial_indexes", "0002_users"] := by decide +kernel

end Migrations
