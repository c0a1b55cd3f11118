import BeatmapBackend.Maps.Configs
import BeatmapBackend.Maps.Repository

/-! The three object keys of a job determine the job and the role, whatever the filename. -/
namespace Maps

/-- What the settings have to satisfy for the keys to be told apart. -/
structure MapsStorageConfig.Isolated (c : MapsStorageConfig) : Prop where
  original_slash : '/' ∉ c.originalDir.toList
  separated_slash : '/' ∉ c.separatedDir.toList
  dirs_ne : c.originalDir ≠ c.separatedDir
  stems_ne : c.drumFilename ≠ c.melodyFilename

theorem MapsStorageConfig.isolated_default : ({} : MapsStorageConfig).Isolated where
  original_slash := by decide
  separated_slash := by decide
  dirs_ne := by decide
  stems_ne := by decide

/-- The part in front of the first slash is determined. -/
theorem slash_inj {a b x y : String} (ha : '/' ∉ a.toList) (hb : '/' ∉ b.toList)
    (h : a ++ "/" ++ x = b ++ "/" ++ y) : a = b ∧ x = y := by
  have hl : a.toList ++ '/' :: x.toList = b.toList ++ '/' :: y.toList := by
    simpa using congrArg String.toList h
  have key (l m u v : List Char) (hl : '/' ∉ l) (hm : '/' ∉ m)
      (h : l ++ '/' :: u = m ++ '/' :: v) : l = m ∧ u = v := by
    induction l generalizing m with
    | nil =>
      cases m with
      | nil => exact ⟨rfl, (List.cons.inj h).2⟩
      | cons c m =>
        have hc : '/' = c := (List.cons.inj h).1
        exact (hm (hc ▸ List.mem_cons_self)).elim
    | cons c l ih =>
      cases m with
      | nil =>
        have hc : c = '/' := (List.cons.inj h).1
        exact (hl (hc ▸ List.mem_cons_self)).elim
      | cons d m =>
        simp only [List.cons_append, List.cons.injEq] at h
        obtain ⟨h₁, h₂⟩ := ih m (List.not_mem_of_not_mem_cons hl)
          (List.not_mem_of_not_mem_cons hm) h.2
        exact ⟨by rw [h.1, h₁], h₂⟩
  obtain ⟨h₁, h₂⟩ := key _ _ _ _ ha hb hl
  exact ⟨String.toList_inj.mp h₁, String.toList_inj.mp h₂⟩

namespace MapsStorageConfig

variable {c : MapsStorageConfig}

private theorem originalKey_eq (j f : String) :
    c.originalKey j f = j ++ "/" ++ (c.originalDir ++ "/" ++ f) := by
  simp [originalKey, String.append_assoc]

private theorem drumKey_eq (j : String) :
    c.drumKey j = j ++ "/" ++ (c.separatedDir ++ "/" ++ c.drumFilename) := by
  simp [drumKey, String.append_assoc]

private theorem melodyKey_eq (j : String) :
    c.melodyKey j = j ++ "/" ++ (c.separatedDir ++ "/" ++ c.melodyFilename) := by
  simp [melodyKey, String.append_assoc]

theorem originalKey_inj {i j : ObjectId} {f g : String}
    (h : c.originalKey i.str f = c.originalKey j.str g) : i = j ∧ f = g := by
  rw [originalKey_eq, originalKey_eq] at h
  obtain ⟨hid, hrest⟩ := slash_inj i.slash_not_mem_str j.slash_not_mem_str h
  refine ⟨ObjectId.str_injective hid, ?_⟩
  simpa using hrest

theorem drumKey_inj {i j : ObjectId} (h : c.drumKey i.str = c.drumKey j.str) : i = j := by
  rw [drumKey_eq, drumKey_eq] at h
  exact ObjectId.str_injective (slash_inj i.slash_not_mem_str j.slash_not_mem_str h).1

theorem melodyKey_inj {i j : ObjectId} (h : c.melodyKey i.str = c.melodyKey j.str) : i = j := by
  rw [melodyKey_eq, melodyKey_eq] at h
  exact ObjectId.str_injective (slash_inj i.slash_not_mem_str j.slash_not_mem_str h).1

namespace Isolated

variable (hc : c.Isolated)

include hc

theorem originalKey_ne_drumKey (i j : ObjectId) (f : String) :
    c.originalKey i.str f ≠ c.drumKey j.str := by
  intro h
  rw [originalKey_eq, drumKey_eq] at h
  have hrest := (slash_inj i.slash_not_mem_str j.slash_not_mem_str h).2
  exact hc.dirs_ne (slash_inj hc.original_slash hc.separated_slash hrest).1

theorem originalKey_ne_melodyKey (i j : ObjectId) (f : String) :
    c.originalKey i.str f ≠ c.melodyKey j.str := by
  intro h
  rw [originalKey_eq, melodyKey_eq] at h
  have hrest := (slash_inj i.slash_not_mem_str j.slash_not_mem_str h).2
  exact hc.dirs_ne (slash_inj hc.original_slash hc.separated_slash hrest).1

theorem drumKey_ne_melodyKey (i j : ObjectId) : c.drumKey i.str ≠ c.melodyKey j.str := by
  intro h
  rw [drumKey_eq, melodyKey_eq] at h
  have hrest := (slash_inj i.slash_not_mem_str j.slash_not_mem_str h).2
  exact hc.stems_ne (slash_inj hc.separated_slash hc.separated_slash hrest).2

end Isolated
end MapsStorageConfig
end Maps
