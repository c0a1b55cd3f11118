import BeatmapBackend.Maps.Handlers

/-! The children of an orchestration job: their results are told apart by the queue name in
their keys, in whatever order the map of values is iterated. -/
namespace Maps
open Wire Queues

variable {K : Type}

/-- The key of a child's result, `bull:<queue>:<id>`. -/
def childKey (queueName : String) (id : JobId) : String := "bull:" ++ queueName ++ ":" ++ id.text

theorem containsName_childKey (queueName : String) (id : JobId) :
    containsName queueName (childKey queueName id) = true := by
  rw [containsName, decide_eq_true_iff]
  refine ⟨"bull:".toList, ":".toList ++ id.text.toList, ?_⟩
  simp [childKey]

/-- A character of the name that occurs neither in the key's fixed part nor in an id. -/
theorem not_containsName {queueName other : String} (id : JobId) (c : Char)
    (hc : c ∈ queueName.toList) (hother : c ∉ ("bull:" ++ other ++ ":").toList)
    (hhex : c ∉ "0123456789abcdef-".toList) :
    containsName queueName (childKey other id) = false := by
  rw [containsName, decide_eq_false_iff_not]
  intro h
  have hmem := h.subset hc
  rw [childKey, String.toList_append, List.mem_append] at hmem
  rcases hmem with hpart | hid
  · exact hother hpart
  · exact hhex (id.hex c hid)

theorem not_containsName_kick (id : JobId) :
    containsName kickOnsetQueueName (childKey melodyExtractionQueueName id) = false :=
  not_containsName id 'k' (by decide) (by decide) (by decide)

theorem not_containsName_melody (id : JobId) :
    containsName melodyExtractionQueueName (childKey kickOnsetQueueName id) = false :=
  not_containsName id 'm' (by decide) (by decide) (by decide)

theorem mem_childrenValues {F : PipelineFlow K} {key : String} {v : Json K} :
    (key, v) ∈ childrenValues F ↔ ∃ job ∈ F.children, job.state = .completed v ∧
      key = childKey job.spec.queueName job.id := by
  simp only [childrenValues, List.mem_filterMap]
  refine exists_congr fun job => and_congr_right fun _ => ?_
  cases hs : job.state with
  | completed w => simp [childKey, eq_comm, and_comm]
  | _ => simp

structure TwoChildren (F : PipelineFlow K) (kick melody : Job ℕ (Json K) (Json K)) : Prop where
  children : F.children = [kick, melody]
  kick_queue : kick.spec.queueName = kickOnsetQueueName
  melody_queue : melody.spec.queueName = melodyExtractionQueueName

theorem twoChildren {F : PipelineFlow K} {cfg : Config} {j key name : String} {l d b : ℤ}
    (h : F.spec = buildGenerateBeatmapFlow cfg j key name l d b) :
    ∃ kick melody, TwoChildren F kick melody := by
  have hc := congrArg FlowSpec.children h
  simp only [Flow.spec, buildGenerateBeatmapFlow] at hc
  obtain ⟨kick, rest, hF, hkick, hrest⟩ := List.map_eq_cons_iff.mp hc
  obtain ⟨melody, rest', hF', hmelody, hnil⟩ := List.map_eq_cons_iff.mp hrest
  obtain rfl := List.map_eq_nil_iff.mp hnil
  exact ⟨kick, melody, by rw [hF, hF'], by rw [hkick], by rw [hmelody]⟩

namespace TwoChildren

variable {F : PipelineFlow K} {kick melody : Job ℕ (Json K) (Json K)}
  {values : List (String × Json K)} {v : Json K}

theorem value?_kick (h : TwoChildren F kick melody) : F.value? 0 = kick.state.value? := by
  simp [Flow.value?, h.children]

theorem value?_melody (h : TwoChildren F kick melody) : F.value? 1 = melody.state.value? := by
  simp [Flow.value?, h.children]

/-- A value found under a queue's name is the result of a completed child with that name in its
key. -/
theorem mem_of_childResult {queueName : String} (hsub : ∀ x ∈ values, x ∈ childrenValues F)
    (hr : childResult values queueName = .ok v) : ∃ job ∈ F.children, job.state = .completed v ∧
      containsName queueName (childKey job.spec.queueName job.id) = true := by
  unfold childResult at hr
  split at hr
  next child hfind =>
    obtain rfl := Except.ok.inj hr
    obtain ⟨job, hjob, hstate, hkey⟩ :=
      mem_childrenValues.mp (hsub _ (List.mem_of_find?_eq_some hfind))
    have hname := List.find?_some hfind
    rw [hkey] at hname
    exact ⟨job, hjob, hstate, hname⟩
  next => cases hr

theorem kick_of_childResult (h : TwoChildren F kick melody)
    (hsub : ∀ x ∈ values, x ∈ childrenValues F)
    (hr : childResult values kickOnsetQueueName = .ok v) : F.value? 0 = some v := by
  obtain ⟨job, hjob, hstate, hname⟩ := mem_of_childResult hsub hr
  rw [h.children] at hjob
  rcases List.mem_cons.mp hjob with rfl | hjob
  · rw [h.value?_kick, hstate, JobState.value?]
  · obtain rfl := List.mem_singleton.mp hjob
    rw [h.melody_queue, not_containsName_kick] at hname
    cases hname

theorem melody_of_childResult (h : TwoChildren F kick melody)
    (hsub : ∀ x ∈ values, x ∈ childrenValues F)
    (hr : childResult values melodyExtractionQueueName = .ok v) : F.value? 1 = some v := by
  obtain ⟨job, hjob, hstate, hname⟩ := mem_of_childResult hsub hr
  rw [h.children] at hjob
  rcases List.mem_cons.mp hjob with rfl | hjob
  · rw [h.kick_queue, not_containsName_melody] at hname
    cases hname
  · obtain rfl := List.mem_singleton.mp hjob
    rw [h.value?_melody, hstate, JobState.value?]

private theorem childResult_isOk {queueName : String} {x : String × Json K} (hx : x ∈ values)
    (hname : containsName queueName x.1 = true) : ∃ w, childResult values queueName = .ok w := by
  unfold childResult
  split
  · exact ⟨_, rfl⟩
  next hnone => exact absurd hname (by simpa using List.find?_eq_none.mp hnone x hx)

/-- Both results are found when both children are completed and no value is missing. -/
theorem childResults_of_completed (h : TwoChildren F kick melody)
    (hsub : ∀ x, x ∈ values ↔ x ∈ childrenValues F) {k m : Json K}
    (hk : kick.state = .completed k) (hm : melody.state = .completed m) :
    childResult values kickOnsetQueueName = .ok k ∧
      childResult values melodyExtractionQueueName = .ok m := by
  have hkmem : (childKey kickOnsetQueueName kick.id, k) ∈ values := by
    rw [hsub, mem_childrenValues, h.children]
    exact ⟨kick, List.mem_cons_self, hk, by rw [h.kick_queue]⟩
  have hmmem : (childKey melodyExtractionQueueName melody.id, m) ∈ values := by
    rw [hsub, mem_childrenValues, h.children]
    exact ⟨melody, List.mem_cons_of_mem _ List.mem_cons_self, hm, by rw [h.melody_queue]⟩
  obtain ⟨k', hk'⟩ := childResult_isOk hkmem (containsName_childKey _ _)
  obtain ⟨m', hm'⟩ := childResult_isOk hmmem (containsName_childKey _ _)
  have hkv := h.kick_of_childResult (fun x hx => (hsub x).mp hx) hk'
  have hmv := h.melody_of_childResult (fun x hx => (hsub x).mp hx) hm'
  rw [h.value?_kick, hk, JobState.value?, Option.some.injEq] at hkv
  rw [h.value?_melody, hm, JobState.value?, Option.some.injEq] at hmv
  exact ⟨hkv ▸ hk', hmv ▸ hm'⟩

end TwoChildren

theorem childResults_eq_ok [Ring K] [LinearOrder K] [FloorRing K]
    {values : List (String × Json K)}
    {results : KickDetectionResult K × MelodyExtractionResult K} :
    childResults values = .ok results ↔ ∃ k m,
      childResult values kickOnsetQueueName = .ok k ∧
      childResult values melodyExtractionQueueName = .ok m ∧
      KickDetectionResult.modelValidate k = .ok results.1 ∧
      MelodyExtractionResult.modelValidate m = .ok results.2 := by
  simp only [childResults, except_bind_eq_ok]
  constructor
  · rintro ⟨k, hk, kick, hkick, m, hm, melody, hmelody, hr⟩
    obtain rfl := Except.ok.inj hr
    exact ⟨k, m, hk, hm, hkick, hmelody⟩
  · rintro ⟨k, m, hk, hm, hkick, hmelody⟩
    exact ⟨k, hk, results.1, hkick, m, hm, results.2, hmelody, rfl⟩

/-- What `getChildrenValues` answers: the values of the flow in some order. -/
theorem exec_getChildrenValues [Field K] [LinearOrder K] [FloorRing K] {env : Env K}
    {s t : Shared K} {ref : JobRef} {values : List (String × Json K)}
    (h : exec env s (.getChildrenValues ref) = some (values, t)) :
    ∃ F, s.flows[ref.flow]? = some F ∧ t = s ∧ ∀ x, x ∈ values ↔ x ∈ childrenValues F := by
  obtain ⟨F, hF, hv⟩ := Option.bind_eq_some_iff.mp h
  dsimp only at hv
  split at hv
  next hperm =>
    obtain ⟨rfl, rfl⟩ := Prod.mk.inj (Option.some.inj hv)
    refine ⟨F, hF, rfl, fun x => ?_⟩
    rw [List.mem_filterMap]
    constructor
    · rintro ⟨n, -, hn⟩
      exact List.mem_of_getElem? hn
    · intro hx
      obtain ⟨n, hn, hget⟩ := List.mem_iff_getElem.mp hx
      refine ⟨n, hperm.mem_iff.mpr (List.mem_range.mpr hn), ?_⟩
      rw [List.getElem?_eq_getElem hn, hget]
  next => cases hv

end Maps
