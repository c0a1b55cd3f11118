import BeatmapBackend.Migrations.Runner

/-! Invocations of the migration runner that share a database. Nothing locks it: while one runs a
migration, others read `_migrations`, run migrations of their own and record them. -/
namespace Migrations
open Collections
open Maps (Exc)

variable {D : Type}

inductive Stage where
  /-- `find` is under way since these were recorded. -/
  | reading (before : List String)
  | looping (alreadyApplied paths : List String)
  /-- `up` of a file is under way. -/
  | running (alreadyApplied : List String) (path : String) (paths : List String)
  /-- `up` of a file has completed. -/
  | recording (alreadyApplied : List String) (path : String) (paths : List String)
  | ended (result : Except Exc (List String))

/-- An invocation; `completed` lists the migrations whose `up` has completed in it. -/
structure Runner (D : Type) where
  env : Environment D
  stage : Stage
  appliedNow : List String := []
  completed : List String := []

inductive Move (D : Type) where
  /-- `find` may or may not return what is recorded while it is under way. -/
  | read (names : List String)
  | next
  | work (change : D → D)
  | complete
  | record
  /-- `insert_one` raises, but the server has performed it. -/
  | recordUnanswered (e : Exc)
  /-- Whatever `find`, loading a file, its `up` or `insert_one` raises. -/
  | raise (e : Exc)

/-- A part of an `up`. -/
def Move.isWork : Move D → Bool
  | .work _ => true
  | _ => false

/-- No failure of its own stops the invocation. -/
def Move.Undisturbed : Move D → Prop
  | .recordUnanswered _ => False
  | .raise _ => False
  | _ => True

namespace Runner

def begin (env : Environment D) (db : Database D) : Runner D :=
  { env, stage := .reading db.recorded }

def go (r : Runner D) (stage : Stage) : Runner D := { r with stage := stage }

def next (r : Runner D) (alreadyApplied : List String) : List String → Runner D
  | [] => r.go (.ended (.ok r.appliedNow))
  | path :: paths =>
    if stemOf path ∈ alreadyApplied then r.go (.looping alreadyApplied paths)
    else r.go (.running alreadyApplied path paths)

def complete (r : Runner D) (alreadyApplied : List String) (path : String)
    (paths : List String) : Runner D :=
  { r with
    stage := .recording alreadyApplied path paths, completed := r.completed ++ [stemOf path] }

def recorded (r : Runner D) (alreadyApplied : List String) (path : String)
    (paths : List String) : Runner D :=
  { r with stage := .looping alreadyApplied paths, appliedNow := r.appliedNow ++ [stemOf path] }

def move (db : Database D) (r : Runner D) : Move D → Option (Database D × Runner D)
  | .read names =>
    match r.stage with
    | .reading before =>
      if (∀ name ∈ before, name ∈ names) ∧ ∀ name ∈ names, name ∈ db.recorded then
        some (db, r.go (.looping names (discover r.env)))
      else none
    | _ => none
  | .next =>
    match r.stage with
    | .looping alreadyApplied paths => some (db, r.next alreadyApplied paths)
    | _ => none
  | .work change =>
    match r.stage with
    | .running _ _ _ => some ({ db with rest := change db.rest }, r)
    | _ => none
  | .complete =>
    match r.stage with
    | .running alreadyApplied path paths => some (db, r.complete alreadyApplied path paths)
    | _ => none
  | .record =>
    match r.stage with
    | .recording alreadyApplied path paths =>
      match db.migrations.insertOne (stemOf path) (r.env.clock (stemOf path)) with
      | none => some (db, r.go (.ended (.error (duplicateKeyError (stemOf path)))))
      | some migrations => some ({ db with migrations }, r.recorded alreadyApplied path paths)
    | _ => none
  | .recordUnanswered e =>
    match r.stage with
    | .recording _ path _ =>
      match db.migrations.insertOne (stemOf path) (r.env.clock (stemOf path)) with
      | none => some (db, r.go (.ended (.error e)))
      | some migrations => some ({ db with migrations }, r.go (.ended (.error e)))
    | _ => none
  | .raise e =>
    match r.stage with
    | .ended _ => none
    | _ => some (db, r.go (.ended (.error e)))

inductive Moves (db : Database D) (r : Runner D) : Move D → Database D → Runner D → Prop
  | read {before names : List String} (hstage : r.stage = .reading before)
      (hbefore : before ⊆ names) (hnames : names ⊆ db.recorded) :
      Moves db r (.read names) db (r.go (.looping names (discover r.env)))
  | finish {alreadyApplied : List String} (hstage : r.stage = .looping alreadyApplied []) :
      Moves db r .next db (r.go (.ended (.ok r.appliedNow)))
  | skip {alreadyApplied paths : List String} {path : String}
      (hstage : r.stage = .looping alreadyApplied (path :: paths))
      (happlied : stemOf path ∈ alreadyApplied) :
      Moves db r .next db (r.go (.looping alreadyApplied paths))
  | load {alreadyApplied paths : List String} {path : String}
      (hstage : r.stage = .looping alreadyApplied (path :: paths))
      (happlied : stemOf path ∉ alreadyApplied) :
      Moves db r .next db (r.go (.running alreadyApplied path paths))
  | work {alreadyApplied paths : List String} {path : String}
      (hstage : r.stage = .running alreadyApplied path paths) (change : D → D) :
      Moves db r (.work change) { db with rest := change db.rest } r
  | complete {alreadyApplied paths : List String} {path : String}
      (hstage : r.stage = .running alreadyApplied path paths) :
      Moves db r .complete db (r.complete alreadyApplied path paths)
  | record {alreadyApplied paths : List String} {path : String} {db' : Database D}
      (hstage : r.stage = .recording alreadyApplied path paths)
      (hfresh : stemOf path ∉ db.recorded)
      (hrecorded : db'.recorded = db.recorded ++ [stemOf path]) :
      Moves db r .record db' (r.recorded alreadyApplied path paths)
  | duplicate {alreadyApplied paths : List String} {path : String}
      (hstage : r.stage = .recording alreadyApplied path paths)
      (hrecorded : stemOf path ∈ db.recorded) :
      Moves db r .record db (r.go (.ended (.error (duplicateKeyError (stemOf path)))))
  | unanswered {alreadyApplied paths : List String} {path : String} {db' : Database D} {e : Exc}
      (hstage : r.stage = .recording alreadyApplied path paths)
      (hfresh : stemOf path ∉ db.recorded)
      (hrecorded : db'.recorded = db.recorded ++ [stemOf path]) :
      Moves db r (.recordUnanswered e) db' (r.go (.ended (.error e)))
  | stop {m : Move D} {e : Exc} (hm : m = .raise e ∨ m = .recordUnanswered e)
      (hopen : ∀ result, r.stage ≠ .ended result) : Moves db r m db (r.go (.ended (.error e)))

/-- How many moves are left, those within an `up` aside. -/
def left (r : Runner D) : ℕ :=
  match r.stage with
  | .reading _ => 3 * (discover r.env).length + 2
  | .looping _ paths => 3 * paths.length + 1
  | .running _ _ paths => 3 * paths.length + 3
  | .recording _ _ paths => 3 * paths.length + 2
  | .ended _ => 0

/-- Every move but those within an `up` brings an invocation closer to its end. -/
theorem Moves.left_le {db db' : Database D} {r r' : Runner D} {m : Move D}
    (h : Moves db r m db' r') : r'.left + (if m.isWork then 0 else 1) ≤ r.left := by
  cases h with
  | read hstage | finish hstage | skip hstage | load hstage | work hstage | complete hstage
  | record hstage | duplicate hstage | unanswered hstage =>
    simp only [left, go, Runner.complete, Runner.recorded, hstage, Move.isWork, List.length_cons,
      List.length_nil, Bool.false_eq_true, ↓reduceIte]
    omega
  | stop hstop hopen =>
    have hpos : 1 ≤ r.left := by
      unfold left
      split
      case h_5 result hstage => exact (hopen result hstage).elim
      all_goals omega
    rcases hstop with rfl | rfl <;> simpa [left, go, Move.isWork] using hpos

/-- Records are only ever added. -/
theorem Moves.recorded_grows {db db' : Database D} {r r' : Runner D} {m : Move D}
    (h : Moves db r m db' r') : db.recorded <+: db'.recorded := by
  cases h with
  | record _ _ hrecorded | unanswered _ _ hrecorded => exact hrecorded ▸ List.prefix_append _ _
  | _ => exact List.prefix_refl _

theorem Moves.env_eq {db db' : Database D} {r r' : Runner D} {m : Move D}
    (h : Moves db r m db' r') : r'.env = r.env := by
  cases h <;> rfl

/-- An invocation that has not ended can go on, and no failure of its own is needed for it. -/
theorem exists_move (db : Database D) (r : Runner D) (hopen : ∀ result, r.stage ≠ .ended result)
    (hread : ∀ before, r.stage = .reading before → before ⊆ db.recorded) :
    ∃ m, (r.move db m).isSome = true ∧ m.Undisturbed ∧ m.isWork = false := by
  cases hstage : r.stage with
  | reading before =>
    have hnames : (∀ name ∈ before, name ∈ db.recorded) ∧ ∀ name ∈ db.recorded,
        name ∈ db.recorded := ⟨hread before hstage, fun _ h => h⟩
    exact ⟨.read db.recorded, by simp only [move, hstage, if_pos hnames, Option.isSome_some],
      trivial, rfl⟩
  | looping => exact ⟨.next, by simp only [move, hstage, Option.isSome_some], trivial, rfl⟩
  | running => exact ⟨.complete, by simp only [move, hstage, Option.isSome_some], trivial, rfl⟩
  | recording =>
    refine ⟨.record, ?_, trivial, rfl⟩
    simp only [move, hstage]
    split <;> rfl
  | ended result => exact (hopen result hstage).elim

theorem insertOne_recorded {db : Database D} {migrations : Collection String ℤ} {name : String}
    {now : ℤ} (h : db.migrations.insertOne name now = some migrations) :
    name ∉ db.recorded ∧
      ({ db with migrations } : Database D).recorded = db.recorded ++ [name] := by
  obtain ⟨hfresh, hentries⟩ := Collection.insertOne_eq_some.mp h
  exact ⟨Collection.findOne_eq_none.mp hfresh, by simp [Database.recorded, hentries]⟩

theorem recorded_of_insertOne {db : Database D} {name : String} {now : ℤ}
    (h : db.migrations.insertOne name now = none) : name ∈ db.recorded := by
  unfold Collection.insertOne at h
  split at h
  next hmem => exact hmem
  next => cases h

theorem moves_of_move {db db' : Database D} {r r' : Runner D} {m : Move D}
    (h : r.move db m = some (db', r')) : Moves db r m db' r' := by
  cases m with
  | read names =>
    simp only [move] at h
    split at h
    next before hstage =>
      split at h
      next hread =>
        cases h
        exact .read hstage hread.1 hread.2
      next => cases h
    next => cases h
  | next =>
    simp only [move] at h
    split at h
    next alreadyApplied paths hstage =>
      cases paths with
      | nil =>
        cases h
        exact .finish hstage
      | cons path paths =>
        simp only [next] at h
        split at h
        next happlied =>
          cases h
          exact .skip hstage happlied
        next happlied =>
          cases h
          exact .load hstage happlied
    next => cases h
  | work change =>
    simp only [move] at h
    split at h
    next hstage =>
      cases h
      exact .work hstage change
    next => cases h
  | complete =>
    simp only [move] at h
    split at h
    next hstage =>
      cases h
      exact .complete hstage
    next => cases h
  | record =>
    simp only [move] at h
    split at h
    next hstage =>
      split at h
      next hinsert =>
        cases h
        exact .duplicate hstage (recorded_of_insertOne hinsert)
      next hinsert =>
        cases h
        exact .record hstage (insertOne_recorded hinsert).1 (insertOne_recorded hinsert).2
    next => cases h
  | recordUnanswered e =>
    simp only [move] at h
    split at h
    next hstage =>
      split at h
      next =>
        cases h
        exact .stop (Or.inr rfl) (by simp [hstage])
      next hinsert =>
        cases h
        exact .unanswered hstage (insertOne_recorded hinsert).1 (insertOne_recorded hinsert).2
    next => cases h
  | raise e =>
    simp only [move] at h
    split at h
    next => cases h
    next hopen =>
      cases h
      exact .stop (Or.inl rfl) hopen

end Runner

structure World (D : Type) where
  db : Database D
  runners : List (Runner D)

inductive Act (D : Type) where
  | start (env : Environment D)
  | move (i : ℕ) (m : Move D)

namespace World

def act (w : World D) : Act D → Option (World D)
  | .start env => some { w with runners := w.runners ++ [.begin env w.db] }
  | .move i m =>
    w.runners[i]?.bind fun r => (r.move w.db m).map fun x => ⟨x.1, w.runners.set i x.2⟩

def run (w : World D) : List (Act D) → Option (World D)
  | [] => some w
  | a :: acts => (w.act a).bind fun v => v.run acts

theorem act_move_eq_some {w w' : World D} {i : ℕ} {m : Move D} :
    w.act (.move i m) = some w' ↔ ∃ r db r', w.runners[i]? = some r ∧
      r.move w.db m = some (db, r') ∧ w' = ⟨db, w.runners.set i r'⟩ := by
  simp only [act, Option.bind_eq_some_iff, Option.map_eq_some_iff, Prod.exists]
  constructor
  · rintro ⟨r, hr, db, r', hmove, rfl⟩
    exact ⟨r, db, r', hr, hmove, rfl⟩
  · rintro ⟨r, db, r', hr, hmove, rfl⟩
    exact ⟨r, hr, db, r', hmove, rfl⟩

theorem run_invariant {I : World D → Prop} {Q : Act D → Prop}
    (hstep : ∀ w a w', I w → Q a → w.act a = some w' → I w') {w w' : World D}
    {acts : List (Act D)} (hw : I w) (hacts : ∀ a ∈ acts, Q a) (h : w.run acts = some w') :
    I w' := by
  induction acts generalizing w with
  | nil => exact Option.some.inj h ▸ hw
  | cons a acts ih =>
    obtain ⟨v, hv, h⟩ := Option.bind_eq_some_iff.mp h
    exact ih (hstep w a v hw (hacts a List.mem_cons_self) hv)
      (fun b hb => hacts b (List.mem_cons_of_mem _ hb)) h

theorem act_recorded {w w' : World D} {a : Act D} (h : w.act a = some w') :
    w.db.recorded <+: w'.db.recorded := by
  cases a with
  | start env =>
    obtain rfl := Option.some.inj h
    exact List.prefix_refl _
  | move i m =>
    obtain ⟨r, db, r', -, hmove, rfl⟩ := act_move_eq_some.mp h
    exact (Runner.moves_of_move hmove).recorded_grows

/-- What is recorded stays recorded, in its place. -/
theorem run_recorded {w w' : World D} {acts : List (Act D)} (h : w.run acts = some w') :
    w.db.recorded <+: w'.db.recorded :=
  run_invariant (I := fun v => w.db.recorded <+: v.db.recorded) (Q := fun _ => True)
    (fun _ _ _ hv _ hact => hv.trans (act_recorded hact)) (List.prefix_refl _)
    (fun _ _ => trivial) h

end World

section Solo

def World.soloRun (db : Database D) (r : Runner D) (moves : List (Move D)) : Option (World D) :=
  World.run ⟨db, [r]⟩ (moves.map (Act.move 0))

theorem World.soloRun_cons {db db' : Database D} {r r' : Runner D} {m : Move D}
    {moves : List (Move D)} (h : r.move db m = some (db', r')) :
    World.soloRun db r (m :: moves) = World.soloRun db' r' moves := by
  rw [World.soloRun, List.map_cons, World.run, World.act]
  simp [h, World.soloRun]

/-- Alone, the loop does what it does as one program. -/
theorem applyMigrations_solo (env : Environment D) (alreadyApplied paths : List String)
    (run : Run D) :
    ∃ moves r, World.soloRun run.db
        ⟨env, .looping alreadyApplied paths, run.appliedNow, run.completed⟩ moves =
          some ⟨(applyMigrations env alreadyApplied paths run).1.db, [r]⟩ ∧
      r.completed = (applyMigrations env alreadyApplied paths run).1.completed ∧
      r.stage = .ended ((applyMigrations env alreadyApplied paths run).2.map fun _ =>
        (applyMigrations env alreadyApplied paths run).1.appliedNow) := by
  induction paths generalizing run with
  | nil => exact ⟨[.next], _, World.soloRun_cons rfl, rfl, rfl⟩
  | cons path paths ih =>
    by_cases happlied : stemOf path ∈ alreadyApplied
    · have hnext : Runner.move run.db
          ⟨env, .looping alreadyApplied (path :: paths), run.appliedNow, run.completed⟩ .next =
            some (run.db, ⟨env, .looping alreadyApplied paths, run.appliedNow, run.completed⟩) := by
        simp only [Runner.move, Runner.next, if_pos happlied, Runner.go]
      obtain ⟨moves, r, hrun, hr⟩ := ih run
      simp only [applyMigrations, if_pos happlied]
      exact ⟨.next :: moves, r, (World.soloRun_cons hnext).trans hrun, hr⟩
    · have hnext : Runner.move run.db
          ⟨env, .looping alreadyApplied (path :: paths), run.appliedNow, run.completed⟩ .next =
            some (run.db, ⟨env, .running alreadyApplied path paths, run.appliedNow,
              run.completed⟩) := by
        simp only [Runner.move, Runner.next, if_neg happlied, Runner.go]
      simp only [applyMigrations, if_neg happlied, applyMigration]
      cases env.load path with
      | error e => exact ⟨[.raise e], _, World.soloRun_cons rfl, rfl, rfl⟩
      | ok up =>
        dsimp only
        rcases up run.db.rest with ⟨rest, e | -⟩
        · refine ⟨[.next, .work fun _ => rest, .raise e],
            ⟨env, .ended (.error e), run.appliedNow, run.completed⟩, ?_, rfl, rfl⟩
          rw [World.soloRun_cons hnext, World.soloRun_cons rfl, World.soloRun_cons rfl]
          rfl
        · cases hinsert : run.db.migrations.insertOne (stemOf path) (env.clock (stemOf path)) with
          | none =>
            have hrecord : Runner.move ⟨run.db.migrations, rest⟩ ⟨env,
                .recording alreadyApplied path paths, run.appliedNow,
                run.completed ++ [stemOf path]⟩ .record =
                  some (⟨run.db.migrations, rest⟩, ⟨env,
                    .ended (.error (duplicateKeyError (stemOf path))), run.appliedNow,
                    run.completed ++ [stemOf path]⟩) := by
              simp only [Runner.move, hinsert, Runner.go]
            refine ⟨[.next, .work fun _ => rest, .complete, .record],
              ⟨env, .ended (.error (duplicateKeyError (stemOf path))), run.appliedNow,
                run.completed ++ [stemOf path]⟩, ?_, rfl, rfl⟩
            rw [World.soloRun_cons hnext, World.soloRun_cons rfl, World.soloRun_cons rfl]
            exact World.soloRun_cons hrecord
          | some migrations =>
            have hrecord : Runner.move ⟨run.db.migrations, rest⟩ ⟨env,
                .recording alreadyApplied path paths, run.appliedNow,
                run.completed ++ [stemOf path]⟩ .record =
                  some (⟨migrations, rest⟩, ⟨env, .looping alreadyApplied paths,
                    run.appliedNow ++ [stemOf path], run.completed ++ [stemOf path]⟩) := by
              simp only [Runner.move, hinsert, Runner.recorded]
            obtain ⟨moves, r, hrun, hr⟩ := ih ⟨⟨migrations, rest⟩,
              run.appliedNow ++ [stemOf path], run.completed ++ [stemOf path]⟩
            refine ⟨.next :: .work (fun _ => rest) :: .complete :: .record :: moves, r, ?_, hr⟩
            rw [World.soloRun_cons hnext, World.soloRun_cons rfl, World.soloRun_cons rfl]
            exact (World.soloRun_cons hrecord).trans hrun

/-- One invocation after another is a case of what invocations do at once. -/
theorem runMigrations_solo (env : Environment D) (db : Database D) :
    ∃ acts r, World.run ⟨db, []⟩ acts = some ⟨(runMigrations env db).db, [r]⟩ ∧
      r.stage = .ended (runMigrations env db).result ∧
      r.completed = (runMigrations env db).completed := by
  obtain ⟨moves, r, hrun, hcompleted, hstage⟩ :=
    applyMigrations_solo env db.recorded (discover env) { db := db }
  have hread : Runner.move db (.begin env db) (.read db.recorded) =
      some (db, ⟨env, .looping db.recorded (discover env), [], []⟩) := by
    simp [Runner.move, Runner.begin, Runner.go]
  have hsolo : World.soloRun db (.begin env db) (.read db.recorded :: moves) =
      some ⟨(applyMigrations env db.recorded (discover env) { db := db }).1.db, [r]⟩ :=
    (World.soloRun_cons hread).trans hrun
  refine ⟨.start env :: (Move.read db.recorded :: moves).map (Act.move 0), r, ?_⟩
  unfold runMigrations
  rcases happly : applyMigrations env db.recorded (discover env) { db := db } with ⟨run, e | ⟨⟩⟩
  all_goals
    rw [happly] at hsolo hstage hcompleted
    exact ⟨hsolo, hstage, hcompleted⟩

end Solo
end Migrations
