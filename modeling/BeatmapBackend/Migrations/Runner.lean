import BeatmapBackend.Collections.Documents
import BeatmapBackend.Collections.Journal
import BeatmapBackend.Maps.Exceptions
import BeatmapBackend.Numerics.OrderStatistics
import BeatmapBackend.Paths.Suffixes
import Mathlib.Data.String.Basic

/-! The migration runner. It applies the files that `_migrations` does not name, in the order of
the files, and records each one when its `up` has completed. -/
namespace Migrations
open Collections Numerics Paths
open Maps (Exc)

variable {D : Type}

/-- The `applied_at` of every recorded migration, and whatever else the database holds. -/
structure Database (D : Type) where
  migrations : Collection String ℤ
  rest : D

def Database.recorded (db : Database D) : List String := db.migrations.entries.map Prod.fst

/-- What an invocation meets: the files of the directory, what loading and running each does to the
rest of the database, and the time at which each is recorded. -/
structure Environment (D : Type) where
  listing : List String
  distinct : listing.Nodup
  load : String → Except Exc (D → D × Except Exc Unit)
  clock : String → ℤ

/-- The file names that `[0-9]*.py` matches. -/
def isMigration (name : String) : Bool :=
  match name.toList with
  | [] => false
  | c :: rest => c.isDigit && ".py".toList.isSuffixOf rest

def discover (env : Environment D) : List String := sort (env.listing.filter isMigration)

def stemOf (path : String) : String := (⟨"", [path]⟩ : PurePath).stem

def duplicateKeyError (name : String) : Exc :=
  ⟨.other "DuplicateKeyError", "E11000 duplicate key error: " ++ name⟩

/-- The state of the loop; `completed` lists the migrations whose `up` has completed. -/
structure Run (D : Type) where
  db : Database D
  appliedNow : List String := []
  completed : List String := []

def applyMigration (env : Environment D) (run : Run D) (path name : String) :
    Run D × Except Exc Unit :=
  match env.load path with
  | .error e => (run, .error e)
  | .ok up =>
    match up run.db.rest with
    | (rest, .error e) => ({ run with db := { run.db with rest := rest } }, .error e)
    | (rest, .ok ()) =>
      match run.db.migrations.insertOne name (env.clock name) with
      | none =>
        ({ run with db := { run.db with rest := rest }, completed := run.completed ++ [name] },
          .error (duplicateKeyError name))
      | some migrations =>
        ({ db := ⟨migrations, rest⟩, appliedNow := run.appliedNow ++ [name],
           completed := run.completed ++ [name] }, .ok ())

def applyMigrations (env : Environment D) (alreadyApplied : List String) :
    List String → Run D → Run D × Except Exc Unit
  | [], run => (run, .ok ())
  | path :: paths, run =>
    let name := stemOf path
    if name ∈ alreadyApplied then applyMigrations env alreadyApplied paths run
    else
      match applyMigration env run path name with
      | (run, .error e) => (run, .error e)
      | (run, .ok ()) => applyMigrations env alreadyApplied paths run

/-- How an invocation leaves the database, what it completed, and what it returns or raises. -/
structure Outcome (D : Type) where
  db : Database D
  completed : List String
  result : Except Exc (List String)

def runMigrations (env : Environment D) (db : Database D) : Outcome D :=
  match applyMigrations env db.recorded (discover env) { db := db } with
  | (run, .error e) => ⟨run.db, run.completed, .error e⟩
  | (run, .ok ()) => ⟨run.db, run.completed, .ok run.appliedNow⟩

/-- What an invocation does to the rest of the database: the `up`s of `files` complete one after
another, and if it raises, then in loading a file or with what the `up` of a file has left. -/
inductive Ups (env : Environment D) : List String → D → D → Except Exc Unit → Prop
  | returned (rest : D) : Ups env [] rest rest (.ok ())
  | unloaded {path : String} {e : Exc} (rest : D) (hload : env.load path = .error e) :
      Ups env [] rest rest (.error e)
  | raised {path : String} {up : D → D × Except Exc Unit} {e : Exc} {rest rest' : D}
      (hload : env.load path = .ok up) (hup : up rest = (rest', .error e)) :
      Ups env [] rest rest' (.error e)
  | step {path : String} {files : List String} {up : D → D × Except Exc Unit} {rest rest' last : D}
      {result : Except Exc Unit} (hload : env.load path = .ok up) (hup : up rest = (rest', .ok ()))
      (h : Ups env files rest' last result) : Ups env (path :: files) rest last result

section Files

variable {env : Environment D} {path path' : String}

theorem stemOf_eq (h : isMigration path) : path = stemOf path ++ ".py" := by
  unfold isMigration at h
  split at h
  · simp at h
  next c rest hpath =>
    rw [Bool.and_eq_true, List.isSuffixOf_iff_suffix] at h
    obtain ⟨pre, hpre⟩ := h.2
    have hname : (⟨"", [path]⟩ : PurePath).name.toList = (c :: pre) ++ '.' :: ['p', 'y'] := by
      rw [List.cons_append, show pre ++ '.' :: ['p', 'y'] = rest from hpre, ← hpath]
      rfl
    rw [stemOf, PurePath.stem_eq hname (by decide), if_pos ⟨by simp, by simp⟩]
    rw [← String.toList_inj, String.toList_append, String.toList_ofList]
    exact hname

theorem stemOf_inj (h : isMigration path) (h' : isMigration path')
    (heq : stemOf path = stemOf path') : path = path' := by
  rw [stemOf_eq h, stemOf_eq h', heq]

theorem mem_discover : path ∈ discover env ↔ path ∈ env.listing ∧ isMigration path := by
  rw [discover, (sort_perm _).mem_iff, List.mem_filter]

theorem discover_pairwise (env : Environment D) : (discover env).Pairwise (· < ·) := by
  have hnodup : (discover env).Nodup := (sort_perm _).nodup_iff.mpr (env.distinct.filter _)
  exact ((sortedLE_sort _).pairwise.and hnodup).imp fun h => h.1.lt_of_ne h.2

/-- Two files of one directory have different stems. -/
theorem discover_stems_nodup (env : Environment D) : ((discover env).map stemOf).Nodup := by
  apply List.pairwise_map.mpr
  apply (discover_pairwise env).imp_of_mem
  intro a b ha hb hlt heq
  exact hlt.ne (stemOf_inj (mem_discover.mp ha).2 (mem_discover.mp hb).2 heq)

end Files

section Loop

variable {env : Environment D} {run run' : Run D}

/-- What a run of the loop adds to the migrations that are recorded, completed and to be
returned: the same ones. -/
structure Advances (run run' : Run D) (done : List String) : Prop where
  recorded : run'.db.recorded = run.db.recorded ++ done
  completed : run'.completed = run.completed ++ done
  appliedNow : run'.appliedNow = run.appliedNow ++ done

theorem Advances.refl (run : Run D) : Advances run run [] := by
  constructor <;> simp

theorem Advances.trans {run'' : Run D} {done done' : List String} (h : Advances run run' done)
    (h' : Advances run' run'' done') : Advances run run'' (done ++ done') := by
  constructor
  · rw [h'.recorded, h.recorded, List.append_assoc]
  · rw [h'.completed, h.completed, List.append_assoc]
  · rw [h'.appliedNow, h.appliedNow, List.append_assoc]

/-- A migration that raises leaves no record, and one that completes is recorded. -/
theorem applyMigration_cases (env : Environment D) (path : String) {name : String}
    (hfresh : name ∉ run.db.recorded) :
    (∃ run' e, applyMigration env run path name = (run', .error e) ∧ Advances run run' [] ∧
      Ups env [] run.db.rest run'.db.rest (.error e)) ∨
      ∃ run' up, applyMigration env run path name = (run', .ok ()) ∧ Advances run run' [name] ∧
        env.load path = .ok up ∧ up run.db.rest = (run'.db.rest, .ok ()) := by
  unfold applyMigration
  cases hload : env.load path with
  | error e => exact .inl ⟨run, e, rfl, Advances.refl run, .unloaded _ hload⟩
  | ok up =>
    dsimp only
    rcases hup : up run.db.rest with ⟨rest, e | ⟨⟩⟩
    · refine .inl ⟨_, e, rfl, ?_, .raised hload hup⟩
      constructor <;> simp [Database.recorded]
    · have hnone : run.db.migrations.findOne name = none := Collection.findOne_eq_none.mpr hfresh
      obtain ⟨migrations, hinsert⟩ := Collection.insertOne_isSome hnone (env.clock name)
      have hentries := (Collection.insertOne_eq_some.mp hinsert).2
      rw [hinsert]
      refine .inr ⟨_, up, rfl, ?_, rfl, hup⟩
      constructor <;> simp [Database.recorded, hentries]

/-- The loop does a prefix of what the snapshot lacks, all of it unless it raises. -/
theorem applyMigrations_progress (env : Environment D) (alreadyApplied paths : List String)
    (run : Run D)
    (hnodup : (paths.map stemOf).Nodup)
    (hfresh : ∀ path ∈ paths, stemOf path ∉ alreadyApplied → stemOf path ∉ run.db.recorded) :
    ∃ files, Advances run (applyMigrations env alreadyApplied paths run).1 (files.map stemOf) ∧
      Progress alreadyApplied (paths.map stemOf) (files.map stemOf)
        ((applyMigrations env alreadyApplied paths run).2 = .ok ()) ∧
      Ups env files run.db.rest (applyMigrations env alreadyApplied paths run).1.db.rest
        (applyMigrations env alreadyApplied paths run).2 := by
  induction paths generalizing run with
  | nil => exact ⟨[], Advances.refl run, Progress.nil, .returned run.db.rest⟩
  | cons path paths ih =>
    obtain ⟨hnot, hnodup⟩ := List.nodup_cons.mp hnodup
    obtain ⟨hhead, htail⟩ := List.forall_mem_cons.mp hfresh
    rw [List.map_cons]
    by_cases happlied : stemOf path ∈ alreadyApplied
    · obtain ⟨files, hadvances, hprogress, hups⟩ := ih run hnodup htail
      simp only [applyMigrations, if_pos happlied]
      exact ⟨files, hadvances, hprogress.skip happlied, hups⟩
    · simp only [applyMigrations, if_neg happlied]
      rcases applyMigration_cases env path (hhead happlied) with
        ⟨run', e, heq, hadvances, hups⟩ | ⟨run', up, heq, hadvances, hload, hup⟩
      · rw [heq]
        exact ⟨[], hadvances, Progress.stop (by simp), hups⟩
      · have hfresh' (p : String) (hp : p ∈ paths) (hpending : stemOf p ∉ alreadyApplied) :
            stemOf p ∉ run'.db.recorded := by
          rw [hadvances.recorded, List.mem_append, List.mem_singleton, not_or]
          refine ⟨htail p hp hpending, ?_⟩
          intro he
          exact hnot (he ▸ List.mem_map_of_mem hp)
        obtain ⟨files, hadvances', hprogress, hups⟩ := ih run' hnodup hfresh'
        rw [heq]
        exact ⟨path :: files, hadvances.trans hadvances', hprogress.step happlied,
          .step hload hup hups⟩

/-- A loop over recorded migrations does nothing. -/
theorem applyMigrations_of_applied {alreadyApplied paths : List String}
    (h : ∀ path ∈ paths, stemOf path ∈ alreadyApplied) (run : Run D) :
    applyMigrations env alreadyApplied paths run = (run, .ok ()) := by
  induction paths with
  | nil => rfl
  | cons path paths ih =>
    obtain ⟨hhead, htail⟩ := List.forall_mem_cons.mp h
    rw [applyMigrations, if_pos hhead]
    exact ih htail

end Loop

structure Invocation (D : Type) where
  env : Environment D
  before : Database D
  outcome : Outcome D

def history : List (Environment D) → Database D → List (Invocation D)
  | [], _ => []
  | env :: envs, db =>
    let outcome := runMigrations env db
    ⟨env, db, outcome⟩ :: history envs outcome.db

namespace Invocation

/-- The files that are not recorded when the invocation starts, by their names there. -/
def pendingFiles (inv : Invocation D) : List String :=
  ((discover inv.env).filter fun path => decide (stemOf path ∉ inv.before.recorded)).map stemOf

/-- An invocation is a pass over the migrations with `_migrations` as its journal. -/
def toPass (inv : Invocation D) : Pass String where
  tasks := (discover inv.env).map stemOf
  before := inv.before.recorded
  done := inv.outcome.completed
  after := inv.outcome.db.recorded
  finished := ∃ names, inv.outcome.result = .ok names

theorem pendingFiles_eq (inv : Invocation D) :
    inv.pendingFiles = pending inv.before.recorded ((discover inv.env).map stemOf) := by
  rw [pendingFiles, pending, List.filter_map]
  rfl

end Invocation

section History

variable {env : Environment D} {inv : Invocation D} {pre post : List (Invocation D)}

theorem runMigrations_valid (env : Environment D) (db : Database D) :
    (Invocation.toPass ⟨env, db, runMigrations env db⟩).Valid ∧
      (∀ names, (runMigrations env db).result = .ok names →
        names = (runMigrations env db).completed) ∧
      ∃ files, files.map stemOf = (runMigrations env db).completed ∧
        Ups env files db.rest (runMigrations env db).db.rest
          ((runMigrations env db).result.map fun _ => ()) := by
  obtain ⟨files, hadvances, hprogress, hups⟩ := applyMigrations_progress env db.recorded
    (discover env) { db := db } (discover_stems_nodup env) fun _ _ h => h
  have hrecorded := hadvances.recorded
  have hcompleted := hadvances.completed
  have happlied := hadvances.appliedNow
  unfold runMigrations
  rcases happly : applyMigrations env db.recorded (discover env) { db := db } with ⟨run, e | ⟨⟩⟩
  · rw [happly] at hrecorded hcompleted hprogress hups
    have hdone : run.completed = files.map stemOf := by simpa using hcompleted
    rw [← hdone] at hprogress hrecorded
    refine ⟨⟨discover_stems_nodup env, ⟨hprogress.isPrefix, ?_⟩, hrecorded⟩, by simp, files,
      hdone.symm, hups⟩
    rintro ⟨names, hnames⟩
    cases hnames
  · rw [happly] at hrecorded hcompleted happlied hprogress hups
    have hdone : run.completed = files.map stemOf := by simpa using hcompleted
    rw [← hdone] at hprogress hrecorded happlied
    refine ⟨⟨discover_stems_nodup env, ⟨hprogress.isPrefix, fun _ => hprogress.complete rfl⟩,
      hrecorded⟩, ?_, files, hdone.symm, hups⟩
    intro names hnames
    rw [← Except.ok.inj hnames]
    simpa using happlied

theorem of_mem_history {envs : List (Environment D)} {db : Database D}
    (h : inv ∈ history envs db) : inv.outcome = runMigrations inv.env inv.before := by
  induction envs generalizing db with
  | nil => simp [history] at h
  | cons env envs ih =>
    rcases List.mem_cons.mp h with rfl | hmem
    · rfl
    · exact ih hmem

theorem linked_history (envs : List (Environment D)) (db : Database D) :
    Pass.Linked db.recorded ((history envs db).map Invocation.toPass) := by
  induction envs generalizing db with
  | nil => trivial
  | cons env envs ih => exact ⟨rfl, ih _⟩

def completedIn (invs : List (Invocation D)) : List String :=
  invs.flatMap fun inv => inv.outcome.completed

/-- What holds after an invocation that follows others. -/
structure ExactlyOnce (earlier : List (Invocation D)) (inv : Invocation D) : Prop where
  recorded : ∀ name, name ∈ inv.outcome.db.recorded ↔ name ∈ completedIn (earlier ++ [inv])
  once : (completedIn (earlier ++ [inv])).Nodup
  sorted : (discover inv.env).Pairwise (· < ·)
  inOrder : inv.outcome.completed <+: inv.pendingFiles
  /-- The completed ones are those whose `up` has run. -/
  ups : ∃ files, files.map stemOf = inv.outcome.completed ∧
    Ups inv.env files inv.before.rest inv.outcome.db.rest (inv.outcome.result.map fun _ => ())
  returned : ∀ names, inv.outcome.result = .ok names →
    inv.outcome.completed = inv.pendingFiles ∧ names = inv.pendingFiles
  /-- After a normal return and with no new file there is nothing to do. -/
  idle : ∀ before ∈ earlier, ∀ names, before.outcome.result = .ok names →
    discover inv.env ⊆ discover before.env →
      inv.outcome.completed = [] ∧ inv.outcome.db = inv.before ∧ inv.outcome.result = .ok []

/-- Whatever invocations raise, every migration completes once, in the order of the files, and the
records are those that completed. -/
theorem history_exactlyOnce {envs : List (Environment D)} {rest : D}
    (h : history envs ⟨Collection.empty, rest⟩ = pre ++ inv :: post) : ExactlyOnce pre inv := by
  have houtcome (i : Invocation D) (hi : i ∈ pre ++ inv :: post) :
      i.outcome = runMigrations i.env i.before := of_mem_history (h ▸ hi)
  have hrun (i : Invocation D) (hi : i ∈ pre ++ inv :: post) : i.toPass.Valid ∧
      (∀ names, i.outcome.result = .ok names → names = i.outcome.completed) ∧
      ∃ files, files.map stemOf = i.outcome.completed ∧
        Ups i.env files i.before.rest i.outcome.db.rest (i.outcome.result.map fun _ => ()) := by
    have hvalid := runMigrations_valid i.env i.before
    rw [← houtcome i hi] at hvalid
    exact hvalid
  have hinv : inv ∈ pre ++ inv :: post := by simp
  have hlinked := linked_history envs ⟨Collection.empty, rest⟩
  rw [h, List.map_append, List.map_cons] at hlinked
  have hpre : ∀ p ∈ pre.map Invocation.toPass, p.Valid :=
    List.forall_mem_map.mpr fun i hi => (hrun i (List.mem_append_left _ hi)).1
  obtain ⟨hvalid, hreturned, hups⟩ := hrun inv hinv
  have hdone : completedIn (pre ++ [inv]) =
      (pre.map Invocation.toPass ++ [inv.toPass]).flatMap Pass.done := by
    simp [completedIn, List.flatMap_map, Invocation.toPass]
  have hafter : inv.outcome.db.recorded = completedIn (pre ++ [inv]) := by
    rw [hdone]
    exact hlinked.after_eq hpre hvalid
  constructor
  case recorded => exact fun name => by rw [hafter]
  case once =>
    rw [← hafter]
    exact hlinked.nodup_after hpre hvalid List.nodup_nil
  case sorted => exact discover_pairwise inv.env
  case inOrder =>
    rw [Invocation.pendingFiles_eq]
    exact hvalid.progress.isPrefix
  case ups => exact hups
  case returned =>
    intro names hnames
    have hall : inv.outcome.completed = inv.pendingFiles := by
      rw [Invocation.pendingFiles_eq]
      exact hvalid.progress.complete ⟨names, hnames⟩
    exact ⟨hall, (hreturned names hnames).trans hall⟩
  case idle =>
    intro before hbefore names hnames hfiles
    have hrecorded (path : String) (hpath : path ∈ discover inv.env) :
        stemOf path ∈ inv.before.recorded := by
      have htask : stemOf path ∈ before.toPass.tasks := List.mem_map_of_mem (hfiles hpath)
      exact hlinked.mem_before hpre (List.mem_map_of_mem hbefore) ⟨names, hnames⟩ htask
    rw [houtcome inv hinv, runMigrations, applyMigrations_of_applied hrecorded]
    exact ⟨rfl, rfl, rfl⟩

end History

namespace Sample

def environment (listing : List String) (distinct : listing.Nodup) (failing : List String) :
    Environment ℕ where
  listing := listing
  distinct := distinct
  load path := .ok fun count =>
    if path ∈ failing then (count, .error ⟨.other "OperationFailure", "index build failed"⟩)
    else (count + 1, .ok ())
  clock _ := 0

def first : Environment ℕ :=
  environment ["0002_users.py", "runner.py", "0001_initial_indexes.py"] (by decide)
    ["0002_users.py"]

def second : Environment ℕ :=
  environment ["0003_maps.py", "0002_users.py", "runner.py", "0001_initial_indexes.py"]
    (by decide) []

end Sample

open Sample in
theorem history_exactlyOnce_sample :
    ∃ i j, history [first, second] ⟨Collection.empty, 0⟩ = [i, j] ∧ ExactlyOnce [i] j :=
  ⟨_, _, rfl, history_exactlyOnce
    (show history [first, second] ⟨Collection.empty, 0⟩ = [_] ++ _ :: [] from rfl)⟩

open Sample in
example : completedIn (history [first, second, second] ⟨Collection.empty, 0⟩) =
    ["0001_initial_indexes", "0002_users", "0003_maps"] := by decide +kernel

end Migrations
