import BeatmapBackend.Maps.Lives

/-! A client polls until the status is `completed` or `failed`. Every write of a status is
unconditional, so such a status stays only because of who may still write: this holds of the
orderly runs, and of no wider ones. -/
namespace Maps
open Effects

variable {K : Type} [Field K] [LinearOrder K] [FloorRing K]

/-- Once a status ends the polling, the rest of the run changes neither it nor the beatmap. -/
def Absorbing (cfg : Config) (Q : World K → Act K → Bool) : Prop :=
  ∀ acts more w w' id d, World.empty.runIf cfg Q acts = some w → w.runIf cfg Q more = some w' →
    w.shared.mapJobs.findOne id = some d → d.status = .completed ∨ d.status = .failed →
    ∃ d', w'.shared.mapJobs.findOne id = some d' ∧ d'.status = d.status ∧
      d'.beatmapId = d.beatmapId

def poll (cfg : Config) (Q : World K → Act K → Bool) (acts : List (Act K)) (id : ObjectId) :
    Option (JobStatus × Option String) := do
  let w ← World.empty.runIf cfg Q acts
  let d ← w.shared.mapJobs.findOne id
  return (d.status, d.beatmapId)

/-- An orderly run: attempts may raise at any operation, and a queue job may be delivered again
until an attempt has settled it. -/
theorem terminal_absorbing (cfg : Config) : Absorbing (K := K) cfg (World.orderly .free) := by
  intro acts more w w' id d hrun hmore hd hstatus
  obtain ⟨-, hsim⟩ := (Sim.empty (P := fun _ => True)).run (fun a _ => a.within_true) hrun
  obtain ⟨hadv, -⟩ := hsim.run (fun a _ => a.within_true) hmore
  obtain ⟨q, L, hreach, hL⟩ := hsim.lives id (by simp [hd])
  obtain ⟨L', hsteps, hL'⟩ := hadv q id L hL hreach
  obtain ⟨d₁, hd₁, hs₁, hb₁, -⟩ := hL.doc
  obtain rfl := Option.some.inj (hd.symm.trans hd₁)
  obtain ⟨d', hd', hs', hb', -⟩ := hL'.doc
  obtain ⟨hsame, hbeatmap⟩ := Life.absorbing_run hreach hsteps (hs₁ ▸ hstatus)
  exact ⟨d', hd', by rw [hs', hsame, hs₁], by rw [hb', hbeatmap, hb₁]⟩

section Polls

variable {cfg : Config} {Q Q' : World K → Act K → Bool} {acts more : List (Act K)}
  {w w' : World K} {id : ObjectId} {shown out : JobStatus × Option String}

theorem World.runIf_append : w.runIf cfg Q (acts ++ more) =
    (w.runIf cfg Q acts).bind fun v => v.runIf cfg Q more := by
  induction acts generalizing w with
  | nil => rfl
  | cons a acts ih =>
    simp only [List.cons_append, runIf, ih]
    split <;> simp [Option.bind_assoc]

theorem World.runIf_mono (hQ : ∀ w a, Q w a = true → Q' w a = true)
    (h : w.runIf cfg Q acts = some w') : w.runIf cfg Q' acts = some w' := by
  induction acts generalizing w with
  | nil => exact h
  | cons a acts ih =>
    obtain ⟨ha, v, hv, h⟩ := World.runIf_cons_eq_some.mp h
    exact World.runIf_cons_eq_some.mpr ⟨hQ w a ha, v, hv, ih h⟩

theorem Absorbing.mono (h : Absorbing cfg Q') (hQ : ∀ w a, Q w a = true → Q' w a = true) :
    Absorbing cfg Q := fun acts more w w' id d hrun hmore =>
  h acts more w w' id d (World.runIf_mono hQ hrun) (World.runIf_mono hQ hmore)

theorem Absorbing.poll_eq (h : Absorbing cfg Q) (hshown : poll cfg Q acts id = some shown)
    (hstatus : shown.1 = .completed ∨ shown.1 = .failed)
    (hout : poll cfg Q (acts ++ more) id = some out) : out = shown := by
  obtain ⟨w, hw, hshown⟩ := Option.bind_eq_some_iff.mp hshown
  obtain ⟨d, hd, hshown⟩ := Option.bind_eq_some_iff.mp hshown
  obtain rfl := Option.some.inj hshown
  obtain ⟨w', hw', hout⟩ := Option.bind_eq_some_iff.mp hout
  obtain ⟨d', hd', hout⟩ := Option.bind_eq_some_iff.mp hout
  obtain rfl := Option.some.inj hout
  rw [World.runIf_append, hw, Option.bind_some] at hw'
  obtain ⟨d₁, hd₁, hs, hb⟩ := h acts more w w' id d hw hw' hd hstatus
  obtain rfl := Option.some.inj (hd'.symm.trans hd₁)
  rw [hs, hb]

end Polls

/-- A finished song stays finished. -/
theorem terminal_absorbing_sample :
    poll {} (World.orderly .free) Sample.acts (Sample.objectId 1) =
      some (.completed, some (Sample.objectId 2).str) ∧
    ∀ more out, poll {} (World.orderly .free) (Sample.acts ++ more) (Sample.objectId 1) =
      some out → out = (.completed, some (Sample.objectId 2).str) := by
  have hshown : poll {} (World.orderly .free) Sample.acts (Sample.objectId 1) =
      some (.completed, some (Sample.objectId 2).str) := by decide +kernel
  exact ⟨hshown, fun more out hout =>
    (terminal_absorbing {}).poll_eq hshown (Or.inl rfl) hout⟩

namespace Sample

def diskFull : Exc := ⟨.other "OSError", "[Errno 28] No space left on device"⟩

/-- Thread `i` is an attempt at the stem separation that finds no room for its files. -/
def attempt (i : ℕ) : List (Act ℚ) :=
  [.start ⟨0, none⟩, .step i (.done (env 2)), .step i (.raised diskFull)]

def twoAttempts : List (Act ℚ) :=
  attempt 1 ++ [.finish 1, .promote ⟨0, none⟩] ++ attempt 2 ++ [.finish 2, .promote ⟨0, none⟩]

def exhausted : List (Act ℚ) := creation ++ twoAttempts ++ attempt 3 ++ steps 3 1

/-- The third attempt is superseded by a fourth before it does anything. -/
def superseded : List (Act ℚ) :=
  creation ++ twoAttempts ++ [.start ⟨0, none⟩, .stall ⟨0, none⟩] ++ attempt 4 ++ steps 4 1

/-- The answer to the last write of `acts` is lost. -/
def lostCompletion : List (Act ℚ) :=
  acts.take (acts.length - 2) ++ [.step 4 (.lost (env 2) ⟨.other "AutoReconnect", ""⟩)]

end Sample

open Sample in
/-- A job that is marked failed is delivered again; an attempt that lost its lock goes on; a
completion is not acknowledged. Each alone takes a final status back. -/
theorem terminal_not_absorbing : ¬ Absorbing {} (fun (_ : World ℚ) _ => true) ∧
    ¬ Absorbing {} (fun (w : World ℚ) a => w.exclusive a && w.acknowledged .free a) ∧
    ¬ Absorbing {} (fun (w : World ℚ) a => w.timely .free a && w.acknowledged .free a) ∧
    ¬ Absorbing {} (fun (w : World ℚ) a => w.timely .free a && w.exclusive a) := by
  have hredelivered :
      ¬ Absorbing {} (fun (w : World ℚ) a => w.exclusive a && w.acknowledged .free a) := by
    intro h
    have hpoll := h.poll_eq
      (show poll {} _ exhausted (objectId 1) = some (.failed, none) by decide +kernel) (Or.inr rfl)
      (show poll {} _ (exhausted ++ ([.stall ⟨0, none⟩, .start ⟨0, none⟩] ++ steps 4 1))
        (objectId 1) = some (.processing, none) by decide +kernel)
    cases hpoll
  refine ⟨fun h => hredelivered (h.mono fun _ _ _ => rfl), hredelivered, ?_, ?_⟩
  · intro h
    have hpoll := h.poll_eq
      (show poll {} _ superseded (objectId 1) = some (.failed, none) by decide +kernel) (Or.inr rfl)
      (show poll {} _ (superseded ++ steps 3 1) (objectId 1) = some (.processing, none) by
        decide +kernel)
    cases hpoll
  · intro h
    have hpoll := h.poll_eq
      (show poll {} _ lostCompletion (objectId 1) =
        some (.completed, some (objectId 2).str) by decide +kernel) (Or.inl rfl)
      (show poll {} _ (lostCompletion ++ ([.finish 4, .promote ⟨1, none⟩, .start ⟨1, none⟩] ++
        List.replicate 3 (.step 5 (.done (env 3))))) (objectId 1) =
        some (.completed, some (objectId 3).str) by decide +kernel)
    exact absurd hpoll (by decide +kernel)

end Maps
