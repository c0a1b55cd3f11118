import BeatmapBackend.Maps.Service
import BeatmapBackend.Maps.StorageKeys
import BeatmapBackend.Maps.Runs
import BeatmapBackend.Uris.Generic

/-! The public URL of an uploaded song. The key is appended to the base URL as it is, so the URL
leads to the object only when nothing in the key has a meaning of its own in a URL. -/
namespace Maps
open Uris

theorem hexDigit_plain (d : Fin 16) : hexDigit d ≠ '?' ∧ hexDigit d ≠ '#' ∧ hexDigit d ≠ '%' := by
  revert d; decide

namespace ObjectId

theorem literal_str (id : ObjectId) : Literal id.str.toList := by
  apply literal_of_all
  rw [List.all_eq_true]
  intro c hc
  simp only [str, String.toList_ofList, List.mem_map] at hc
  obtain ⟨d, -, rfl⟩ := hc
  exact decide_eq_true (hexDigit_plain d)

theorem head?_str (id : ObjectId) : ∃ c, id.str.toList.head? = some c ∧ c ≠ '/' := by
  have hne : id.digits ≠ [] := by
    intro h
    simpa [h] using id.length_digits
  obtain ⟨d, digits, hdigits⟩ := List.exists_cons_of_ne_nil hne
  exact ⟨Maps.hexDigit d, by simp [str, hdigits], hexDigit_ne_slash d⟩

end ObjectId

def slashes (n : ℕ) : String := String.ofList (List.replicate n '/')

theorem rstripSlash_append_slashes {base : String} (h : base.toList.getLast? ≠ some '/') (n : ℕ) :
    MapsStorageConfig.rstripSlash (base ++ slashes n) = base := by
  have hreplicate (cs : List Char) : (List.replicate n '/' ++ cs).dropWhile (· = '/') =
      cs.dropWhile (· = '/') := by
    apply List.dropWhile_append_of_pos
    intro c hc
    exact decide_eq_true (List.eq_of_mem_replicate hc)
  have hbase : base.toList.reverse.dropWhile (· = '/') = base.toList.reverse := by
    rw [← List.head?_reverse] at h
    cases hcs : base.toList.reverse with
    | nil => rfl
    | cons c cs =>
      rw [hcs, List.head?_cons] at h
      exact List.dropWhile_cons_of_neg (by simpa using h)
  rw [MapsStorageConfig.rstripSlash, slashes, String.toList_append, String.toList_ofList,
    List.reverse_append, List.reverse_replicate, hreplicate, hbase, List.reverse_reverse,
    String.ofList_toList]

structure PublicBase (c : MapsStorageConfig) (base : String) : Prop where
  configured : ∃ n, c.publicBaseUrl = some (base ++ slashes n) ∧ base ++ slashes n ≠ ""
  noQuery : NoQuery base.toList
  noSlash : base.toList.getLast? ≠ some '/'

/-- Every base URL without a query and a fragment is a base with its trailing slashes. -/
theorem exists_publicBase {c : MapsStorageConfig} {url : String}
    (hurl : c.publicBaseUrl = some url) (hne : url ≠ "") (hquery : NoQuery url.toList) :
    ∃ base, PublicBase c base := by
  let front := url.toList.reverse.dropWhile (· = '/')
  let back := url.toList.reverse.takeWhile (· = '/')
  have hback : back = List.replicate back.length '/' := by
    apply List.eq_replicate_of_mem
    intro d hd
    simpa using List.mem_takeWhile_imp hd
  have hsplit : url.toList = front.reverse ++ List.replicate back.length '/' := by
    have h : back ++ front = url.toList.reverse := List.takeWhile_append_dropWhile
    rw [hback] at h
    simpa using (congrArg List.reverse h).symm
  have hwhole : String.ofList front.reverse ++ slashes back.length = url := by
    rw [← String.toList_inj, hsplit]
    simp [slashes]
  have hsub : front.reverse ⊆ url.toList := by
    rw [hsplit]
    exact List.subset_append_left _ _
  refine ⟨String.ofList front.reverse, ⟨back.length, ?_, ?_⟩, ?_, ?_⟩
  · rw [hwhole, hurl]
  · rwa [hwhole]
  · rw [String.toList_ofList]
    exact ⟨fun h => hquery.1 (hsub h), fun h => hquery.2 (hsub h)⟩
  · rw [String.toList_ofList, List.getLast?_reverse]
    intro h
    have hnot := List.head?_dropWhile_not (· = '/') url.toList.reverse
    rw [show (url.toList.reverse.dropWhile (· = '/')).head? = some '/' from h] at hnot
    simp at hnot

/-- Reading the URL of an object gives the path of the base, a slash and the key. -/
def ReadsBack (c : MapsStorageConfig) (base key : String) : Prop :=
  ∃ url, c.audioUrl (some key) = some url ∧
    readPath url = readPath base ++ utf8 ('/' :: key.toList)

/-- The URLs of two uploads lead to their objects, and to different ones if the keys differ. -/
structure UrlsResolve (c : MapsStorageConfig) (base key key' : String) : Prop where
  first : ReadsBack c base key
  second : ReadsBack c base key'
  distinct : key ≠ key' → ∀ url url', c.audioUrl (some key) = some url →
    c.audioUrl (some key') = some url' → readPath url ≠ readPath url'

section Urls

variable {c : MapsStorageConfig} {base key : String} (hbase : PublicBase c base)

include hbase

theorem PublicBase.audioUrl_eq (hkey : key ≠ "") :
    c.audioUrl (some key) = some (base ++ "/" ++ key) := by
  obtain ⟨n, hn, hne⟩ := hbase.configured
  simp [MapsStorageConfig.audioUrl, hn, hne, hkey, rstripSlash_append_slashes hbase.noSlash]

theorem PublicBase.readPath_eq (hkey : key.toList.head? ≠ some '/') :
    readPath (base ++ "/" ++ key) =
      readPath base ++ utf8 ['/'] ++ percentDecode (beforeQuery key.toList) := by
  have hurl : (base ++ "/" ++ key).toList = base.toList ++ '/' :: key.toList := by simp
  rw [readPath, hurl, path_append hbase.noQuery hbase.noSlash hkey,
    percentDecode_append_cons (by decide) (by decide)]
  rfl

theorem PublicBase.readsBack_iff {ch : Char} (hhead : key.toList.head? = some ch)
    (hne : ch ≠ '/') : ReadsBack c base key ↔ Literal key.toList := by
  have hkey : key ≠ "" := by
    rintro rfl
    simp at hhead
  have hslash : key.toList.head? ≠ some '/' := by simpa [hhead] using hne
  have hread := hbase.readPath_eq hslash
  simp only [ReadsBack, hbase.audioUrl_eq hkey, Option.some.injEq, exists_eq_left', hread]
  rw [← percentDecode_beforeQuery_eq_iff, List.append_assoc, List.append_right_inj]
  exact List.append_right_inj (String.utf8EncodeChar '/')

end Urls

section Keys

variable {c : MapsStorageConfig}

theorem toList_originalKey (j f : String) : (c.originalKey j f).toList =
    j.toList ++ '/' :: (c.originalDir.toList ++ '/' :: f.toList) := by
  simp [MapsStorageConfig.originalKey]

theorem literal_originalKey_iff (id : ObjectId) (f : String) :
    Literal (c.originalKey id.str f).toList ↔
      Literal c.originalDir.toList ∧ Literal f.toList := by
  rw [toList_originalKey, literal_append_slash_iff, literal_append_slash_iff]
  exact and_iff_right id.literal_str

theorem PublicBase.readsBack_originalKey_iff {base : String} (hbase : PublicBase c base)
    (id : ObjectId) (f : String) : ReadsBack c base (c.originalKey id.str f) ↔
      Literal c.originalDir.toList ∧ Literal f.toList := by
  obtain ⟨ch, hch, hne⟩ := id.head?_str
  rw [hbase.readsBack_iff _ hne, literal_originalKey_iff]
  rw [toList_originalKey]
  cases hid : id.str.toList with
  | nil => simp [hid] at hch
  | cons d ds => simpa [hid] using hch

/-- The URLs of two uploads lead to their objects exactly when neither filename, nor the
configured directory, contains a query, a fragment or an escape. -/
theorem urlsResolve_iff {base : String} (hbase : PublicBase c base) (i j : ObjectId)
    (f g : String) : UrlsResolve c base (c.originalKey i.str f) (c.originalKey j.str g) ↔
      Literal c.originalDir.toList ∧ Literal f.toList ∧ Literal g.toList := by
  have hf := hbase.readsBack_originalKey_iff i f
  have hg := hbase.readsBack_originalKey_iff j g
  constructor
  · intro h
    obtain ⟨hdir, hf'⟩ := hf.mp h.first
    exact ⟨hdir, hf', (hg.mp h.second).2⟩
  · rintro ⟨hdir, hf', hg'⟩
    have hfirst := hf.mpr ⟨hdir, hf'⟩
    have hsecond := hg.mpr ⟨hdir, hg'⟩
    refine ⟨hfirst, hsecond, ?_⟩
    intro hne url url' hurl hurl' hsame
    obtain ⟨_, he, hread⟩ := hfirst
    obtain ⟨_, he', hread'⟩ := hsecond
    obtain rfl := Option.some.inj (hurl.symm.trans he)
    obtain rfl := Option.some.inj (hurl'.symm.trans he')
    rw [hread, hread', List.append_cancel_left_eq] at hsame
    have hkeys := List.cons.inj (utf8_injective hsame)
    exact hne (String.toList_inj.mp hkeys.2)

end Keys

namespace Sample

def cdn : MapsStorageConfig := { publicBaseUrl := some "https://cdn.example.com/" }

theorem cdn_base : PublicBase cdn "https://cdn.example.com" where
  configured := ⟨1, rfl, by decide⟩
  noQuery := ⟨by decide, by decide⟩
  noSlash := by decide

end Sample

open Sample in
theorem urlsResolve_iff_sample : UrlsResolve cdn "https://cdn.example.com"
    (cdn.originalKey (objectId 1).str "song.mp3") (cdn.originalKey (objectId 2).str "b side.mp3") :=
  (urlsResolve_iff cdn_base (objectId 1) (objectId 2) "song.mp3" "b side.mp3").mpr
    ⟨literal_of_all (by decide), literal_of_all (by decide), literal_of_all (by decide)⟩

open Sample in
/-- Two uploads of one song that share the part of their URLs in front of the fragment. -/
theorem not_urlsResolve_of_fragment :
    validateRequest {} ⟨some "a#1.mp3", some "audio/mpeg", none, [7]⟩ none = .ok () ∧
    validateRequest {} ⟨some "a#2.mp3", some "audio/mpeg", none, [7]⟩ none = .ok () ∧
    ¬ UrlsResolve cdn "https://cdn.example.com" (cdn.originalKey (objectId 1).str "a#1.mp3")
      (cdn.originalKey (objectId 1).str "a#2.mp3") := by
  refine ⟨by decide, by decide, ?_⟩
  intro h
  have hliteral := (cdn_base.readsBack_originalKey_iff (objectId 1) "a#1.mp3").mp h.first
  exact hliteral.2.1.2 (by decide)

end Maps
