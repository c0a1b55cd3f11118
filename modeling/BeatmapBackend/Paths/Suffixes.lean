import BeatmapBackend.Paths.PurePosix

/-! The two ways of stripping a suffix from a file name, and where one more component leads. -/
namespace Paths

section Strip

variable {s : String} {pre suf : List Char}

/-- A name with a dot splits at the last one. -/
theorem exists_last_dot {cs : List Char} (h : '.' ∈ cs) :
    ∃ pre suf, cs = pre ++ '.' :: suf ∧ '.' ∉ suf := by
  obtain ⟨suf, pre, hcs, hsuf⟩ := List.eq_append_cons_of_mem (List.mem_reverse.mpr h)
  refine ⟨pre.reverse, suf.reverse, ?_, by simpa using hsuf⟩
  simpa using congrArg List.reverse hcs

private theorem takeWhile_last_dot (hsuf : '.' ∉ suf) :
    (pre ++ '.' :: suf).reverse.takeWhile (fun c => c ≠ '.') = suf.reverse := by
  have hall (c : Char) (hc : c ∈ suf.reverse) : decide (c ≠ '.') = true := by
    have hmem := List.mem_reverse.mp hc
    exact decide_eq_true fun he => hsuf (he ▸ hmem)
  rw [List.reverse_append, List.reverse_cons, List.append_assoc, List.takeWhile_append_of_pos hall]
  simp

private theorem take_last_dot :
    (pre ++ '.' :: suf).take ((pre ++ '.' :: suf).length - (suf.length + 1)) = pre := by
  simp

theorem rsplitDot_of_notMem (h : '.' ∉ s.toList) : rsplitDot s = s := by
  simp [rsplitDot, h]

theorem rsplitDot_eq (hs : s.toList = pre ++ '.' :: suf) (hsuf : '.' ∉ suf) :
    rsplitDot s = String.ofList pre := by
  unfold rsplitDot
  dsimp only
  rw [hs, if_pos (by simp), takeWhile_last_dot hsuf, List.length_reverse, take_last_dot]

namespace PurePath

variable {p : PurePath}

theorem stem_of_notMem (h : '.' ∉ p.name.toList) : p.stem = p.name := by
  simp [stem, h]

theorem stem_eq (hs : p.name.toList = pre ++ '.' :: suf) (hsuf : '.' ∉ suf) :
    p.stem = if pre ≠ [] ∧ suf ≠ [] then String.ofList pre else p.name := by
  have hlen : (pre ++ '.' :: suf).length - (suf.length + 1) = pre.length := by simp
  unfold stem
  dsimp only
  rw [hs, takeWhile_last_dot hsuf, List.length_reverse, take_last_dot, hlen]
  simp [List.length_pos_iff]

/-- A dot at the end, or in front of a name without another one, starts no suffix for `stem`
while `rsplit` cuts there. -/
theorem stem_eq_rsplitDot_iff : p.stem = rsplitDot p.name ↔
    p.name.toList.getLast? ≠ some '.' ∧
      ¬ ∃ suf, p.name.toList = '.' :: suf ∧ '.' ∉ suf := by
  by_cases hdot : '.' ∈ p.name.toList
  · obtain ⟨pre, suf, hs, hsuf⟩ := exists_last_dot hdot
    have hname : String.ofList pre ≠ p.name := by
      intro h
      have hlen := congrArg List.length (congrArg String.toList h)
      rw [hs, String.toList_ofList] at hlen
      simp at hlen
    have hlast : p.name.toList.getLast? = some '.' ↔ suf = [] := by
      rw [hs]
      rcases List.eq_nil_or_concat suf with rfl | ⟨init, c, rfl⟩
      · simp
      · have hne : c ≠ '.' := fun he => hsuf (by simp [he])
        have hconcat : pre ++ '.' :: init.concat c = (pre ++ '.' :: init) ++ [c] := by simp
        rw [hconcat, List.getLast?_concat]
        simp [hne]
    have hfront : (∃ suf, p.name.toList = '.' :: suf ∧ '.' ∉ suf) ↔ pre = [] := by
      rw [hs]
      cases pre with
      | nil => simpa using hsuf
      | cons c pre => simp
    rw [stem_eq hs hsuf, rsplitDot_eq hs hsuf, and_congr (not_congr hlast) (not_congr hfront)]
    split_ifs with h
    · exact iff_of_true rfl ⟨h.2, h.1⟩
    · exact iff_of_false hname.symm fun hne => h ⟨hne.2, hne.1⟩
  · rw [stem_of_notMem hdot, rsplitDot_of_notMem hdot]
    refine iff_of_true rfl ⟨fun h => hdot (List.mem_of_getLast? h), ?_⟩
    rintro ⟨suf, hs, -⟩
    exact hdot (by simp [hs])

theorem stem_cases (p : PurePath) : p.stem = rsplitDot p.name ∨ p.stem = p.name := by
  by_cases hdot : '.' ∈ p.name.toList
  · obtain ⟨pre, suf, hs, hsuf⟩ := exists_last_dot hdot
    rw [stem_eq hs hsuf, rsplitDot_eq hs hsuf]
    split_ifs
    · exact .inl rfl
    · exact .inr rfl
  · exact .inr (stem_of_notMem hdot)

end PurePath
end Strip

section Enter

/-- One component followed from a resolved directory; an empty or `.` one stays there. -/
def enter (dir : List String) (part : String) : List String :=
  if part = "" ∨ part = "." then dir else PurePath.push dir part

theorem enter_plain (dir : List String) {s : String} (h : Plain s) : enter dir s = dir ++ [s] := by
  obtain ⟨hempty, hdot, hup, -⟩ := h
  simp [enter, PurePath.push, hempty, hdot, hup]

/-- A plain name leads to a place of its own. -/
theorem enter_eq_iff (dir : List String) {s t : String} (hs : Plain s) :
    enter dir s = enter dir t ↔ s = t := by
  constructor
  · intro h
    rw [enter_plain dir hs] at h
    unfold enter PurePath.push at h
    split_ifs at h
    · simp at h
    · have hlen := congrArg List.length h
      simp at hlen
      omega
    · simpa using h
  · rintro rfl
    rfl

theorem resolve_join (p : PurePath) {s : String} (h : '/' ∉ s.toList) :
    (p.join s).resolve = enter p.resolve s := by
  rw [PurePath.join, if_pos (rootOf_of_notMem h), components, splitSlash_of_notMem h]
  unfold enter PurePath.resolve
  split_ifs with hstay
  · rcases hstay with rfl | rfl <;> simp
  · rw [not_or] at hstay
    simp [hstay]

theorem resolve_join_plain (p : PurePath) {s : String} (h : Plain s) :
    (p.join s).resolve = p.resolve ++ [s] := by
  rw [resolve_join p h.2.2.2, enter_plain _ h]

theorem notMem_rsplitDot {c : Char} {s : String} (h : c ∉ s.toList) :
    c ∉ (rsplitDot s).toList := by
  by_cases hdot : '.' ∈ s.toList
  · obtain ⟨pre, suf, hs, hsuf⟩ := exists_last_dot hdot
    rw [hs] at h
    rw [rsplitDot_eq hs hsuf, String.toList_ofList]
    exact fun hc => h (List.mem_append_left _ hc)
  · rwa [rsplitDot_of_notMem hdot]

end Enter
end Paths
