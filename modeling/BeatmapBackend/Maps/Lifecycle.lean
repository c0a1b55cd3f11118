import BeatmapBackend.Maps.Dtos
import Mathlib.Logic.Function.Basic
import Mathlib.Logic.Relation

/-! The life of one map job, as a client could describe it: the fields a poll shows, the
beatmaps stored so far, and where each of its four queue jobs is. Attempts, payloads and
other jobs do not appear. -/
namespace Maps

inductive Role where
  | stem
  | root
  | kick
  | melody
  deriving DecidableEq

def Role.isChild : Role → Bool
  | .kick | .melody => true
  | _ => false

inductive Stage where
  | working
  /-- The beatmap is stored under this id, the job not yet completed. -/
  | inserted (beatmapId : String)
  /-- The next flow is added, or the job is marked completed. -/
  | done
  /-- The job is marked failed. -/
  | reported
  /-- It could not be marked failed. -/
  | gaveUp
  deriving DecidableEq

/-- The attempt has settled what becomes of its queue job. -/
def Stage.decided : Stage → Bool
  | .done | .reported => true
  | _ => false

/-- What may happen besides ordinary failures and retries. -/
structure Rules where
  /-- A job is delivered again while an undecided attempt runs. -/
  stalls : Bool
  /-- A job may fail unreported: `mark_failed` raises without effect, or it stalls too often. -/
  givesUp : Bool
  /-- An attempt may raise after its `insert_beatmap` took effect. -/
  strays : Bool

/-- The job of an attempt at this stage may fail. -/
def Stage.Lost (R : Rules) (stage : Stage) : Prop :=
  stage = .reported ∨ stage = .gaveUp ∨
    (R.stalls = true ∧ R.givesUp = true ∧ stage.decided = false)

inductive Phase where
  | waiting
  | delayed
  /-- Waiting for the children. -/
  | blocked
  | active (stage : Stage)
  | succeeded
  | failed
  deriving DecidableEq

def Phase.isOver : Phase → Bool
  | .succeeded | .failed => true
  | _ => false

def Rules.free : Rules where
  stalls := true
  givesUp := true
  strays := true

def Rules.strict : Rules where
  stalls := false
  givesUp := false
  strays := false

structure Life where
  status : JobStatus
  beatmapId : Option String
  error : Option String
  made : List String
  phase : Role → Option Phase

namespace Life

def created : Life := ⟨.queued, none, none, [], fun _ => none⟩

def set (L : Life) (role : Role) (p : Phase) : Life :=
  { L with phase := Function.update L.phase role (some p) }

@[simp, grind =] theorem set_status (L : Life) (role : Role) (p : Phase) :
    (L.set role p).status = L.status := rfl
@[simp, grind =] theorem set_beatmapId (L : Life) (role : Role) (p : Phase) :
    (L.set role p).beatmapId = L.beatmapId := rfl
@[simp, grind =] theorem set_error (L : Life) (role : Role) (p : Phase) :
    (L.set role p).error = L.error := rfl
@[simp, grind =] theorem set_made (L : Life) (role : Role) (p : Phase) :
    (L.set role p).made = L.made := rfl

@[grind =] theorem set_phase (L : Life) (role : Role) (p : Phase) (other : Role) :
    (L.set role p).phase other = if other = role then some p else L.phase other := by
  simp [set, Function.update_apply]

@[simp] theorem set_phase_self (L : Life) (role : Role) (p : Phase) :
    (L.set role p).phase role = some p := by simp [set_phase]

/-- Both children succeeded: the root may run. -/
def release (L : Life) : Life :=
  if L.phase .root = some .blocked ∧ L.phase .kick = some .succeeded ∧
      L.phase .melody = some .succeeded then L.set .root .waiting
  else L

/-- A child failed for good: the root fails with it. -/
def failParent (L : Life) : Life :=
  if L.phase .root = some .blocked then L.set .root .failed else L

/-- The stem separation hands over to a new flow of three jobs. -/
def addSong (L : Life) : Life where
  status := L.status
  beatmapId := L.beatmapId
  error := L.error
  made := L.made
  phase
    | .stem => some (.active .done)
    | .root => some .blocked
    | _ => some .waiting

/-- What the queue does with one job, whatever the attempts do. -/
inductive Move (R : Rules) : Phase → Phase → Prop
  | start : Move R .waiting (.active .working)
  | promote : Move R .delayed .waiting
  | retry : Move R (.active .working) .delayed
  | giveUp (h : R.givesUp = true) : Move R (.active .working) (.active .gaveUp)
  | stall (stage : Stage) (h : R.stalls = true) (hstage : stage.decided = false) :
      Move R (.active stage) .waiting

inductive Step (R : Rules) (L : Life) : Life → Prop
  | enqueue (h : L.phase .stem = none) : Step R L (L.set .stem .waiting)
  | move (role : Role) {p p' : Phase} (h : L.phase role = some p) (hmove : Move R p p') :
      Step R L (L.set role p')
  | markProcessing (h : L.phase .stem = some (.active .working)) :
      Step R L { L with status := .processing }
  | addSong (h : L.phase .stem = some (.active .working)) : Step R L L.addSong
  | report (role : Role) (message : String) (h : L.phase role = some (.active .working)) :
      Step R L { L.set role (.active .reported) with status := .failed, error := some message }
  | insert (b : String) (h : L.phase .root = some (.active .working)) :
      Step R L { L.set .root (.active (.inserted b)) with made := L.made ++ [b] }
  | stray (b : String) (hR : R.strays = true) (h : L.phase .root = some (.active .working)) :
      Step R L { L with made := L.made ++ [b] }
  | complete (b : String) (h : L.phase .root = some (.active (.inserted b))) :
      Step R L { L.set .root (.active .done) with status := .completed, beatmapId := some b }
  | abandon (b : String) (hR : R.strays = true)
      (h : L.phase .root = some (.active (.inserted b))) : Step R L (L.set .root (.active .working))
  | succeed (role : Role) (hrole : role.isChild = false)
      (h : L.phase role = some (.active .done)) : Step R L (L.set role .succeeded)
  | succeedChild (role : Role) (hrole : role.isChild = true)
      (h : L.phase role = some (.active .working)) : Step R L (L.set role .succeeded).release
  | fail (role : Role) (hrole : role.isChild = false) {stage : Stage}
      (hstage : stage.Lost R) (h : L.phase role = some (.active stage)) :
      Step R L (L.set role .failed)
  | failChild (role : Role) (hrole : role.isChild = true) {stage : Stage}
      (hstage : stage.Lost R) (h : L.phase role = some (.active stage)) :
      Step R L (L.set role .failed).failParent

def Reachable (R : Rules) (L : Life) : Prop := Relation.ReflTransGen (Step R) created L

/-- Which phases occur together. The root runs after both children succeeded, and nothing of
the song exists before its stems do. -/
structure Shape (R : Rules) (L : Life) : Prop where
  song : L.phase .root ≠ none ↔
    L.phase .stem = some (.active .done) ∨ L.phase .stem = some .succeeded
  kick : L.phase .kick = none ↔ L.phase .root = none
  melody : L.phase .melody = none ↔ L.phase .root = none
  stemPhase : L.phase .stem ≠ some .blocked ∧ ∀ b, L.phase .stem ≠ some (.active (.inserted b))
  ready : L.phase .root = none ∨ L.phase .root = some .blocked ∨ L.phase .root = some .failed ∨
    (L.phase .kick = some .succeeded ∧ L.phase .melody = some .succeeded)
  blocked : L.phase .root = some .blocked →
    ¬ (L.phase .kick = some .succeeded ∧ L.phase .melody = some .succeeded) ∧
    L.phase .kick ≠ some .failed ∧ L.phase .melody ≠ some .failed
  gaveUp : ∀ role, L.phase role = some (.active .gaveUp) → R.givesUp = true

theorem Shape.created (R : Rules) : Shape R created := by
  constructor <;> simp [Life.created]

theorem Shape.step {R : Rules} {L L' : Life} (h : Shape R L) (hs : Step R L L') :
    Shape R L' := by
  obtain ⟨h1, h2, h3, h4, h5, h6, h7⟩ := h
  cases hs with
  | enqueue h => constructor <;> grind -linarith
  | move role h hmove => cases role <;> constructor <;> grind -linarith [Move, Stage.decided]
  | markProcessing h => constructor <;> grind -linarith
  | addSong h => constructor <;> grind -linarith [addSong]
  | report role message h => cases role <;> constructor <;> grind -linarith
  | insert b h => constructor <;> grind -linarith
  | stray b hR h => constructor <;> grind -linarith
  | complete b h => constructor <;> grind -linarith
  | abandon b hR h => constructor <;> grind -linarith
  | succeed role hrole h => cases role <;> cases hrole <;> constructor <;> grind -linarith
  | succeedChild role hrole h =>
    cases role <;> cases hrole <;> constructor <;> grind -linarith [release]
  | fail role hrole hstage h =>
    cases role <;> cases hrole <;> constructor <;> grind -linarith [Stage.Lost, Stage.decided]
  | failChild role hrole hstage h =>
    cases role <;> cases hrole <;> constructor <;>
      grind -linarith [failParent, Stage.Lost, Stage.decided]

/-- There is no song while the stems are being separated. -/
theorem Shape.no_song {R : Rules} {L : Life} (h : Shape R L)
    (hstem : L.phase .stem = some (.active .working)) {role : Role} (hrole : role ≠ .stem) :
    L.phase role = none := by
  obtain ⟨h1, h2, h3, h4, h5, h6, h7⟩ := h
  cases role <;> grind -linarith

/-- What a poll shows against where the queue jobs are. -/
structure Shown (R : Rules) (L : Life) : Prop where
  completed : L.status = .completed ↔
    L.phase .root = some (.active .done) ∨ L.phase .root = some .succeeded
  error : L.status = .failed ↔ L.error ≠ none
  beatmapId : L.status = .completed ↔ L.beatmapId ≠ none
  reported : ∀ role, L.phase role = some (.active .reported) → L.status = .failed
  ended : L.status = .failed →
    L.phase .stem = some (.active .reported) ∨ L.phase .stem = some .failed ∨
    L.phase .root = some (.active .reported) ∨ L.phase .root = some .failed ∨
    (L.phase .root = some .blocked ∧ (L.phase .kick = some (.active .reported) ∨
      L.phase .melody = some (.active .reported)))
  failed : R.givesUp = false → L.phase .stem = some .failed ∨ L.phase .root = some .failed →
    L.status = .failed

theorem Shown.created (R : Rules) : Shown R created := by
  constructor <;> simp [Life.created]

theorem Shown.step {R : Rules} {L L' : Life} (hshape : Shape R L) (h : Shown R L)
    (hs : Step R L L') : Shown R L' := by
  obtain ⟨h1, h2, h3, h4, h5, h6, h7⟩ := hshape
  obtain ⟨g1, g2, g3, g4, g5, g6⟩ := h
  cases hs with
  | enqueue h => constructor <;> grind -linarith
  | move role h hmove => cases role <;> constructor <;> grind -linarith [Move, Stage.decided]
  | markProcessing h => constructor <;> grind -linarith
  | addSong h => constructor <;> grind -linarith [addSong]
  | report role message h => cases role <;> constructor <;> grind -linarith
  | insert b h => constructor <;> grind -linarith
  | stray b hR h => constructor <;> grind -linarith
  | complete b h => constructor <;> grind -linarith
  | abandon b hR h => constructor <;> grind -linarith
  | succeed role hrole h => cases role <;> cases hrole <;> constructor <;> grind -linarith
  | succeedChild role hrole h =>
    cases role <;> cases hrole <;> constructor <;> grind -linarith [release]
  | fail role hrole hstage h =>
    cases role <;> cases hrole <;> constructor <;> grind -linarith [Stage.Lost, Stage.decided]
  | failChild role hrole hstage h =>
    cases role <;> cases hrole <;> constructor <;>
      grind -linarith [failParent, Stage.Lost, Stage.decided]

/-- The beatmaps that are stored when the orchestration job is in a phase. -/
def MadeAt (made : List String) (beatmapId : Option String) : Option Phase → Prop
  | some (.active (.inserted b)) => made = [b]
  | some (.active .done) | some .succeeded => ∃ b, made = [b] ∧ beatmapId = some b
  | _ => made = []

/-- Nothing is delivered twice or left behind. -/
def Made (R : Rules) (L : Life) : Prop :=
  R.stalls = false → R.strays = false → MadeAt L.made L.beatmapId (L.phase .root)

theorem Made.step {R : Rules} {L L' : Life} (hshape : Shape R L) (h : Made R L)
    (hs : Step R L L') : Made R L' := by
  intro hstalls hstrays
  have hat := h hstalls hstrays
  have hother (role : Role) (p : Phase) (hrole : role ≠ .root) :
      MadeAt (L.set role p).made (L.set role p).beatmapId ((L.set role p).phase .root) := by
    rwa [set_phase, if_neg hrole.symm]
  cases hs with
  | enqueue h => exact hother .stem _ (by decide)
  | move role h hmove =>
    by_cases hr : role = .root
    · subst hr
      rw [h] at hat
      cases hmove with
      | stall stage hR _ => simp [hstalls] at hR
      | _ => simpa [MadeAt] using hat
    · exact hother role _ hr
  | markProcessing h => exact hat
  | addSong h =>
    have hroot : L.phase .root = none := by
      by_contra hne
      rcases hshape.song.mp hne with hd | hd <;> simp [h] at hd
    simpa [MadeAt, hroot, addSong] using hat
  | report role message h =>
    by_cases hr : role = .root
    · subst hr
      simpa [MadeAt, h] using hat
    · exact hother role _ hr
  | insert b h => simpa [MadeAt, h] using hat
  | stray b hR h => simp [hstrays] at hR
  | complete b h => exact ⟨b, by simpa [MadeAt, h] using hat, rfl⟩
  | abandon b hR h => simp [hstrays] at hR
  | succeed role hrole h =>
    by_cases hr : role = .root
    · subst hr
      simpa [MadeAt, h] using hat
    · exact hother role _ hr
  | succeedChild role hrole h =>
    have hr : role ≠ .root := fun hr => by simp [hr, Role.isChild] at hrole
    have hchild := hother role .succeeded hr
    unfold release
    split
    next hb => simpa [MadeAt, hb.1] using hchild
    next => exact hchild
  | fail role hrole hstage h =>
    by_cases hr : role = .root
    · subst hr
      rcases hstage with rfl | rfl | ⟨hR, -⟩
      · simpa [MadeAt, h] using hat
      · simpa [MadeAt, h] using hat
      · simp [hstalls] at hR
    · exact hother role _ hr
  | failChild role hrole hstage h =>
    have hr : role ≠ .root := fun hr => by simp [hr, Role.isChild] at hrole
    have hchild := hother role .failed hr
    unfold failParent
    split
    next hb => simpa [MadeAt, hb] using hchild
    next => exact hchild

structure Inv (R : Rules) (L : Life) : Prop where
  shape : Shape R L
  shown : Shown R L
  made : Made R L

theorem inv_of_reachable {R : Rules} {L : Life} (h : Reachable R L) : Inv R L := by
  induction h with
  | refl => exact ⟨Shape.created R, Shown.created R, fun _ _ => rfl⟩
  | tail _ hs ih =>
    exact ⟨ih.shape.step hs, Shown.step ih.shape ih.shown hs, Made.step ih.shape ih.made hs⟩

/-- A status that ends the polling stays, and so does the beatmap it names. -/
theorem absorbing {R : Rules} {L L' : Life} (h : Reachable R L) (hs : Step R L L')
    (ht : L.status = .completed ∨ L.status = .failed) :
    L'.status = L.status ∧ L'.beatmapId = L.beatmapId := by
  obtain ⟨⟨h1, h2, h3, h4, h5, h6, h7⟩, ⟨g1, g2, g3, g4, g5, g6⟩, -⟩ := inv_of_reachable h
  cases hs with
  | markProcessing h => grind -linarith
  | report role message h => cases role <;> grind -linarith
  | complete b h => grind -linarith
  | succeedChild role hrole h => grind -linarith [release]
  | failChild role hrole hstage h => grind -linarith [failParent]
  | _ => exact ⟨rfl, rfl⟩

theorem absorbing_run {R : Rules} {L L' : Life} (h : Reachable R L)
    (hs : Relation.ReflTransGen (Step R) L L')
    (ht : L.status = .completed ∨ L.status = .failed) :
    L'.status = L.status ∧ L'.beatmapId = L.beatmapId := by
  induction hs with
  | refl => exact ⟨rfl, rfl⟩
  | tail hrun hstep ih =>
    obtain ⟨hstatus, hb⟩ := ih
    obtain ⟨hstatus', hb'⟩ := absorbing (h.trans hrun) hstep (hstatus ▸ ht)
    exact ⟨hstatus'.trans hstatus, hb'.trans hb⟩

def Quiet (L : Life) : Prop := ∀ role p, L.phase role = some p → p.isOver = true

/-- When the queues are empty the client has its answer. -/
theorem settled {R : Rules} (hR : R.givesUp = false) {L : Life} (h : Reachable R L)
    (hstem : L.phase .stem ≠ none) (hquiet : Quiet L) :
    (L.status = .completed ∨ L.status = .failed) ∧
      (L.status = .completed ↔ L.phase .root = some .succeeded) := by
  obtain ⟨⟨h1, h2, h3, h4, h5, h6, h7⟩, ⟨g1, g2, g3, g4, g5, g6⟩, -⟩ := inv_of_reachable h
  have hover (role : Role) : L.phase role = none ∨ L.phase role = some .succeeded ∨
      L.phase role = some .failed := by
    cases hp : L.phase role with
    | none => exact Or.inl rfl
    | some p =>
      have hpo := hquiet role p hp
      cases p <;> simp [Phase.isOver] at hpo <;> simp
  have hs := hover .stem
  have hr := hover .root
  grind -linarith

/-- Once the orchestration job is over: one beatmap for a completed job, none for a failed. -/
theorem one_beatmap {R : Rules} (hstalls : R.stalls = false) (hstrays : R.strays = false)
    {L : Life} (h : Reachable R L) {p : Phase} (hroot : L.phase .root = some p)
    (hp : p.isOver = true) :
    (L.status = .completed → ∃ b, L.made = [b] ∧ L.beatmapId = some b) ∧
      (L.status = .failed → L.made = []) := by
  have hinv := inv_of_reachable h
  have hat := hinv.made hstalls hstrays
  rw [hroot] at hat
  cases p with
  | succeeded =>
    have hc := hinv.shown.completed.mpr (Or.inr hroot)
    exact ⟨fun _ => hat, fun hf => by simp [hc] at hf⟩
  | failed =>
    refine ⟨fun hc => ?_, fun _ => hat⟩
    rcases hinv.shown.completed.mp hc with hd | hd <;> simp [hroot] at hd
  | _ => simp [Phase.isOver] at hp

end Life
end Maps
