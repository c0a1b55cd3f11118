import BeatmapBackend.Caches.Proxy
import BeatmapBackend.Maps.PublicAccess

/-! The caching proxy in front of the bucket. It may keep a song for a month and more, and serves
what it keeps when the bucket does not answer; all the same it serves nothing but uploads. -/
namespace Maps
open Effects Wire Collections Queues Caches

variable {K : Type}

def cdnBucket : String := "songs"

/-- What the bucket has for anyone to read. `target` finds the key in the path of a request. -/
def Shared.published (s : Shared K) (target : String → String) (uri : String) : Option Bytes :=
  if publiclyReadable cdnBucket (target uri) then s.objects (target uri) else none

/-- The deployment and its proxy, which answers `GET` and `HEAD` and denies all else. -/
structure Site (K : Type) where
  world : World K
  cdn : Proxy String Bytes

inductive SiteAct (K : Type) where
  | inner (a : Act K)
  | cdn (a : Caches.Act String Bytes)

namespace Site

def empty : Site K := ⟨.empty, .empty⟩

variable [Field K] [LinearOrder K] [FloorRing K]

def act (cfg : Config) (target : String → String) (S : Site K) : SiteAct K → Option (Site K)
  | .inner a => (S.world.act cfg a).map fun w => { S with world := w }
  | .cdn a => (S.cdn.act (S.world.shared.published target) a).map fun p => { S with cdn := p }

def run (cfg : Config) (target : String → String) (S : Site K) : List (SiteAct K) → Option (Site K)
  | [] => some S
  | a :: acts => (S.act cfg target a).bind fun T => T.run cfg target acts

variable {cfg : Config} {target : String → String} {S S' : Site K}

theorem run_invariant {I : Site K → Prop}
    (hstep : ∀ S a S', I S → S.act cfg target a = some S' → I S') {acts : List (SiteAct K)}
    (hS : I S) (h : S.run cfg target acts = some S') : I S' := by
  induction acts generalizing S with
  | nil => exact Option.some.inj h ▸ hS
  | cons a acts ih =>
    obtain ⟨T, hT, h⟩ := Option.bind_eq_some_iff.mp h
    exact ih (hstep S a T hS hT) h

/-- The proxy leaves no trace in the deployment. -/
theorem exists_run {acts : List (SiteAct K)} (h : S.run cfg target acts = some S') :
    ∃ inner, S.world.run cfg inner = some S'.world := by
  induction acts generalizing S with
  | nil => exact ⟨[], by rw [← Option.some.inj h]; rfl⟩
  | cons a acts ih =>
    obtain ⟨T, hT, h⟩ := Option.bind_eq_some_iff.mp h
    obtain ⟨inner, hinner⟩ := ih h
    cases a with
    | inner a =>
      obtain ⟨w, hw, rfl⟩ := Option.map_eq_some_iff.mp hT
      exact ⟨a :: inner, by rw [World.run, hw, Option.bind_some, hinner]⟩
    | cdn a =>
      obtain ⟨p, -, rfl⟩ := Option.map_eq_some_iff.mp hT
      exact ⟨inner, hinner⟩

structure Faithful (cfg : Config) (target : String → String) (S : Site K) : Prop where
  reachable : ∃ acts, World.empty.run cfg acts = some S.world
  honest : S.cdn.Honest (S.world.shared.published target)

theorem faithful_empty : (empty : Site K).Faithful cfg target :=
  ⟨⟨[], rfl⟩, Proxy.honest_empty _⟩

theorem cdnBucket_plain : Patterns.Plain cdnBucket.toList := by decide

theorem Faithful.legit (h : S.Faithful cfg target) : WorldLegit cfg (fun _ => True) S.world := by
  obtain ⟨acts, hrun⟩ := h.reachable
  exact (worldLegit_empty.run (fun a _ => a.within_true) hrun).1

/-- What is published is an upload. -/
theorem Faithful.upload (h : S.Faithful cfg target) (hc : cfg.storage.Published) {uri : String}
    {body : Bytes} (huri : S.world.shared.published target uri = some body) :
    ∃ j q, Created S.world.shared j q ∧ target uri = q.key cfg j ∧ body = q.file.body := by
  unfold Shared.published at huri
  split at huri
  next hpublic => exact (h.legit.readable_iff cdnBucket_plain hc huri).mp hpublic
  next => cases huri

/-- What is published stays as it is. -/
theorem Faithful.published (h : S.Faithful cfg target) (hc : cfg.storage.Published)
    {a : Act K} {w : World K} (hact : S.world.act cfg a = some w) (uri : String) (body : Bytes)
    (huri : S.world.shared.published target uri = some body) :
    w.shared.published target uri = some body := by
  obtain ⟨hlegit', hg⟩ := h.legit.act a.within_true hact
  obtain ⟨j, q, hq, htarget, rfl⟩ := h.upload hc huri
  unfold Shared.published at huri ⊢
  split at huri
  next hpublic =>
    rw [if_pos hpublic]
    rw [htarget] at huri ⊢
    exact hlegit'.upload_stays hg hc.isolated hq huri
  next => cases huri

theorem Faithful.act (h : S.Faithful cfg target) (hc : cfg.storage.Published) {a : SiteAct K}
    (hact : S.act cfg target a = some S') : S'.Faithful cfg target := by
  cases a with
  | inner a =>
    obtain ⟨w, hw, rfl⟩ := Option.map_eq_some_iff.mp hact
    obtain ⟨acts, hrun⟩ := h.reachable
    refine ⟨⟨acts ++ [a], ?_⟩, h.honest.mono (h.published hc hw)⟩
    rw [World.run_append hrun, World.run, hw]
    rfl
  | cdn a =>
    obtain ⟨p, hp, rfl⟩ := Option.map_eq_some_iff.mp hact
    exact ⟨h.reachable, h.honest.act hp⟩

/-- Once a song is stored and its file is not remembered as missing, it is there for good. -/
theorem Faithful.served_warm (h : S.Faithful cfg target) (hc : cfg.storage.Published) {uri : String}
    {body : Bytes} (huri : S.world.shared.published target uri = some body)
    (hwarm : S.cdn.Warm uri body) {acts : List (SiteAct K)}
    (hrun : S.run cfg target acts = some S') : ∃ new, S'.cdn.served = S.cdn.served ++ new ∧
      ∀ x ∈ new, x.1 = uri → x.2 = .ok body ∨ x.2 = .failed := by
  have hinvariant : S'.Faithful cfg target ∧ S'.world.shared.published target uri = some body ∧
      S'.cdn.Warm uri body ∧ ∃ new, S'.cdn.served = S.cdn.served ++ new ∧
        ∀ x ∈ new, x.1 = uri → x.2 = .ok body ∨ x.2 = .failed := by
    refine run_invariant (I := fun T => T.Faithful cfg target ∧
      T.world.shared.published target uri = some body ∧ T.cdn.Warm uri body ∧
      ∃ new, T.cdn.served = S.cdn.served ++ new ∧
        ∀ x ∈ new, x.1 = uri → x.2 = .ok body ∨ x.2 = .failed) ?_
      ⟨h, huri, hwarm, [], by simp, by simp⟩ hrun
    rintro T a T' ⟨hT, huri, hwarm, new, hserved, hnew⟩ hact
    refine ⟨hT.act hc hact, ?_⟩
    cases a with
    | inner a =>
      obtain ⟨w, hw, rfl⟩ := Option.map_eq_some_iff.mp hact
      exact ⟨hT.published hc hw uri body huri, hwarm, new, hserved, hnew⟩
    | cdn a =>
      obtain ⟨p, hp, rfl⟩ := Option.map_eq_some_iff.mp hact
      obtain ⟨hwarm', more, hserved', hmore⟩ := hwarm.act huri hp
      refine ⟨huri, hwarm', new ++ more, by rw [hserved', hserved, List.append_assoc], ?_⟩
      intro x hx
      rcases List.mem_append.mp hx with hx | hx
      · exact hnew x hx
      · exact hmore x hx
  exact hinvariant.2.2.2

end Site

/-- What the proxy has served, and what it may serve. -/
structure Site.ServesUploads [Field K] [LinearOrder K] [FloorRing K] (cfg : Config)
    (target : String → String) (S : Site K) : Prop where
  /-- Every body is the upload that its path names. -/
  uploads : ∀ uri body, (uri, .ok body) ∈ S.cdn.served →
    ∃ j q, Created S.world.shared j q ∧ target uri = q.key cfg j ∧ body = q.file.body
  /-- The file of a stored song is served from then on, unless its path is remembered as missing
  from before the upload or the origin fails. -/
  songs : ∀ id d, S.world.shared.beatmaps.findOne id = some d →
    ∃ q, Created S.world.shared d.jobId q ∧ ∀ uri, target uri = d.objectKey →
      S.cdn.Warm uri q.file.body → ∀ more S', S.run cfg target more = some S' →
        ∃ new, S'.cdn.served = S.cdn.served ++ new ∧
          ∀ x ∈ new, x.1 = uri → x.2 = .ok q.file.body ∨ x.2 = .failed

/-- Whatever the proxy keeps, and however long, it serves nothing but uploads of clients. -/
theorem cdn_faithful [Field K] [LinearOrder K] [FloorRing K] {cfg : Config}
    (hc : cfg.storage.Published) {target : String → String} {acts : List (SiteAct K)}
    {S : Site K} (hrun : Site.empty.run cfg target acts = some S) :
    S.ServesUploads cfg target := by
  have hfaithful : S.Faithful cfg target :=
    Site.run_invariant (I := fun T => T.Faithful cfg target) (fun _ _ _ hT hact => hT.act hc hact)
      Site.faithful_empty hrun
  constructor
  case uploads =>
    intro uri body hserved
    exact hfaithful.upload hc (hfaithful.honest _ (List.mem_append_right _ hserved) body rfl)
  case songs =>
    intro id d hd
    obtain ⟨inner, hinner⟩ := hfaithful.reachable
    obtain ⟨q, hq, hkey, hobj⟩ := upload_of_run hc.isolated hinner hd
    refine ⟨q, hq, fun uri huri hwarm more S' hmore => ?_⟩
    have hpublic : publiclyReadable cdnBucket d.objectKey = true :=
      hkey ▸ originalKey_readable hc Site.cdnBucket_plain d.jobId q.name
    have hpublished : S.world.shared.published target uri = some q.file.body := by
      rw [Shared.published, huri, if_pos hpublic, hobj]
    exact hfaithful.served_warm hc hpublished hwarm hmore

namespace Sample

def keyOfPath (uri : String) : String := String.ofList (uri.toList.drop 1)

def songPath : String := "/" ++ ({} : MapsStorageConfig).originalKey (objectId 1).str "song.mp3"

/-- The song's file is asked for twice, and the origin is asked once. -/
def visits : List (SiteAct ℚ) :=
  acts.map .inner ++ [.cdn (.ask songPath (.ok [7])), .cdn (.arrive 0), .cdn (.reuse 0)]

end Sample

open Sample in
theorem cdn_faithful_sample : ∃ S, Site.empty.run {} keyOfPath visits = some S ∧
    S.ServesUploads {} keyOfPath := by
  obtain ⟨S, hS⟩ := Option.isSome_iff_exists.mp
    (show (Site.empty.run {} keyOfPath visits).isSome = true by decide +kernel)
  exact ⟨S, hS, cdn_faithful MapsStorageConfig.published_default hS⟩

end Maps
