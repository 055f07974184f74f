import CapabilityCompiler.Compiler.Acceptance
import CapabilityCompiler.Foundation.DisjointSet
import CapabilityCompiler.Quality.Models

/-! The composition graph of a capability: its operation calls, grouped by the flow between steps and by
shared resource selectors. -/
namespace CapabilityCompiler.Quality
open Foundation Models Compiler

/-- An operation call; its index is its place among all calls. -/
structure WorkflowCallNode where
  phase : String
  operationId : String
  stepId : Option String
  inputReferences : List String
  stepReferences : List String
  conditional : Bool
deriving DecidableEq

structure WorkflowCompositionGraph where
  calls : List WorkflowCallNode
  components : List (List ℕ)
deriving DecidableEq

/-! References. -/

/-- The match of `^\$\.root\.([A-Za-z_][A-Za-z0-9_-]*)`. -/
def referencedName? (root text : String) : Option String :=
  match Text.dropPrefix? ("$.".toList ++ root.toList ++ ['.']) text.toList with
  | some (first :: rest) =>
    if isSegmentStart first then some (String.ofList (first :: rest.takeWhile isSegmentPart)) else none
  | _ => none

def inputsIn (value : Json) : List String := (texts value).filterMap (referencedName? "input")

def stepsIn (value : Json) : List String := (texts value).filterMap (referencedName? "steps")

/-! Calls. -/

mutual

def walkStep (phase : String) (inheritedSteps : List String) (conditional : Bool) :
    WorkflowStep → List WorkflowCallNode
  | .call id operation arguments =>
    [⟨phase, operation, id, Text.sortedSet (inputsIn (.obj arguments)),
      Text.sortedSet (stepsIn (.obj arguments) ++ inheritedSteps), conditional⟩]
  | .branch _ condition thenSteps elseSteps =>
    walkCalls phase (inheritedSteps ++ stepsIn condition.dump) true thenSteps ++
      walkCalls phase (inheritedSteps ++ stepsIn condition.dump) true elseSteps
  | .parallel _ children => walkCalls phase inheritedSteps conditional children
  | .foreach _ items _ _ workflow => walkCalls phase (inheritedSteps ++ stepsIn items) true workflow
  | _ => []

def walkCalls (phase : String) (inheritedSteps : List String) (conditional : Bool) :
    List WorkflowStep → List WorkflowCallNode
  | [] => []
  | step :: rest =>
    walkStep phase inheritedSteps conditional step ++
      walkCalls phase inheritedSteps conditional rest

end

/-- The workflows of a capability, each with its phase. -/
def phases : Capability → List (String × Workflow)
  | .read capability => [("read", capability.workflow)]
  | .action capability =>
    [("preview", capability.previewWorkflow), ("commit", capability.commitWorkflow)]

def callsOf (capability : Capability) : List WorkflowCallNode :=
  (phases capability).flatMap fun phase => walkCalls phase.1 [] false phase.2

/-! Pairs of calls that are united. -/

def addCall (byStep : Table (String × String) ℕ) (call : WorkflowCallNode × ℕ) :
    Table (String × String) ℕ :=
  match call.1.stepId with
  | none => byStep
  | some id => byStep.put (call.1.phase, id) call.2

/-- A later call with the same identifier takes the place of an earlier one. -/
def callsByStep (calls : List WorkflowCallNode) : Table (String × String) ℕ :=
  calls.zipIdx.foldl addCall []

def producerPairs (calls : List WorkflowCallNode) : List (ℕ × ℕ) :=
  calls.zipIdx.flatMap fun call => call.1.stepReferences.filterMap fun id =>
    ((callsByStep calls).get? (call.1.phase, id)).map (·, call.2)

def selectorNames (quality : CapabilityQuality) : List String :=
  (quality.inputs.filter (·.2.kind = .resourceSelector)).map Prod.fst

/-- The calls whose arguments refer to the selector. -/
def callsWith (calls : List WorkflowCallNode) (name : String) : List ℕ :=
  (calls.zipIdx.filter (name ∈ ·.1.inputReferences)).map Prod.snd

def withFirst : List ℕ → List (ℕ × ℕ)
  | [] => []
  | first :: rest => rest.map (first, ·)

def selectorPairs (calls : List WorkflowCallNode) (quality : CapabilityQuality) : List (ℕ × ℕ) :=
  (selectorNames quality).flatMap fun name => withFirst (callsWith calls name)

/-- The first call of the preview goes with the first call of the commit. -/
def linkPairs (calls : List WorkflowCallNode) : Capability → List (ℕ × ℕ)
  | .read _ => []
  | .action _ =>
    match calls.findIdx? (·.phase = "preview"), calls.findIdx? (·.phase = "commit") with
    | some preview, some commit => [(preview, commit)]
    | _, _ => []

def unitedPairs (capability : Capability) (quality : CapabilityQuality) : List (ℕ × ℕ) :=
  producerPairs (callsOf capability) ++ selectorPairs (callsOf capability) quality ++
    linkPairs (callsOf capability) capability

/-- The graph; `none` is a recursion deeper than the number of calls. -/
def buildWorkflowCompositionGraph (capability : Capability) (quality : CapabilityQuality) :
    Option WorkflowCompositionGraph :=
  let size := (callsOf capability).length
  match DisjointSet.unionAll size (unitedPairs capability quality) (DisjointSet.singletons size) with
  | none => none
  | some parents =>
    match DisjointSet.collect size (List.range size) parents [] with
    | none => none
    | some sets => some ⟨callsOf capability,
        (sets.map fun set => set.2.insertionSort (· ≤ ·)).insertionSort (· ≤ ·)⟩

/-! The table of calls. -/

def Identified (calls : List WorkflowCallNode) (phase id : String) (index : ℕ) : Prop :=
  ∃ call, calls[index]? = some call ∧ call.phase = phase ∧ call.stepId = some id

section Table
variable {calls : List WorkflowCallNode} {phase id : String} {index : ℕ}

theorem get?_addCall (byStep : Table (String × String) ℕ) (call : WorkflowCallNode × ℕ)
    (key : String × String) :
    (addCall byStep call).get? key =
      if call.1.phase = key.1 ∧ call.1.stepId = some key.2 then some call.2 else byStep.get? key := by
  obtain ⟨phase, id⟩ := key
  unfold addCall
  cases hid : call.1.stepId with
  | none => simp
  | some other =>
    simp only [Table.get?_put, Prod.mk.injEq, Option.some.injEq]
    by_cases h : phase = call.1.phase ∧ id = other
    · rw [if_pos h, if_pos ⟨h.1.symm, h.2.symm⟩]
    · rw [if_neg h, if_neg fun h' => h ⟨h'.1.symm, h'.2.symm⟩]

theorem get?_foldl_addCall {found : List (WorkflowCallNode × ℕ)} {byStep : Table (String × String) ℕ}
    (h : (found.foldl addCall byStep).get? (phase, id) = some index) :
    (∃ call, (call, index) ∈ found ∧ call.phase = phase ∧ call.stepId = some id) ∨
      byStep.get? (phase, id) = some index := by
  induction found generalizing byStep with
  | nil => exact .inr h
  | cons call rest ih =>
    rcases ih h with ⟨other, hin, hother⟩ | hget
    · exact .inl ⟨other, List.mem_cons_of_mem _ hin, hother⟩
    · rw [get?_addCall] at hget
      split_ifs at hget with hcall
      · obtain rfl := Option.some.inj hget
        exact .inl ⟨call.1, List.mem_cons_self, hcall⟩
      · exact .inr hget

theorem isSome_foldl_addCall {found : List (WorkflowCallNode × ℕ)}
    {byStep : Table (String × String) ℕ}
    (h : (byStep.get? (phase, id)).isSome = true ∨
      ∃ call ∈ found, call.1.phase = phase ∧ call.1.stepId = some id) :
    ((found.foldl addCall byStep).get? (phase, id)).isSome = true := by
  induction found generalizing byStep with
  | nil => exact h.resolve_right (by simp)
  | cons call rest ih =>
    apply ih
    rw [get?_addCall]
    split_ifs with hcall
    · exact .inl rfl
    · rcases h with hget | ⟨other, hin, hother⟩
      · exact .inl hget
      · rcases List.mem_cons.mp hin with rfl | hin
        · exact absurd hother hcall
        · exact .inr ⟨other, hin, hother⟩

theorem identified_of_callsByStep (h : (callsByStep calls).get? (phase, id) = some index) :
    Identified calls phase id index := by
  rcases get?_foldl_addCall h with ⟨call, hin, hcall⟩ | hnone
  · exact ⟨call, List.mem_zipIdx_iff_getElem?.mp hin, hcall⟩
  · exact absurd hnone (by simp)

/-- Where identifiers are unique, every call is found under its own. -/
theorem callsByStep_of_identified (hunique : ∀ other, Identified calls phase id other → other = index)
    (h : Identified calls phase id index) :
    (callsByStep calls).get? (phase, id) = some index := by
  obtain ⟨call, hget, hcall⟩ := h
  have hsome : ((callsByStep calls).get? (phase, id)).isSome = true :=
    isSome_foldl_addCall (.inr ⟨(call, index), List.mem_zipIdx_iff_getElem?.mpr hget, hcall⟩)
  obtain ⟨other, hother⟩ := Option.isSome_iff_exists.mp hsome
  rw [hother, hunique other (identified_of_callsByStep hother)]

theorem mem_producerPairs {producer consumer : ℕ} :
    (producer, consumer) ∈ producerPairs calls ↔ ∃ call id, calls[consumer]? = some call ∧
      id ∈ call.stepReferences ∧ (callsByStep calls).get? (call.phase, id) = some producer := by
  simp only [producerPairs, List.mem_flatMap, List.mem_filterMap, Option.map_eq_some_iff,
    Prod.mk.injEq, Prod.exists, List.mem_zipIdx_iff_getElem?]
  constructor
  · rintro ⟨call, index, hget, id, hid, other, hother, rfl, rfl⟩
    exact ⟨call, id, hget, hid, hother⟩
  · rintro ⟨call, id, hget, hid, hother⟩
    exact ⟨call, consumer, hget, id, hid, producer, hother, rfl, rfl⟩

theorem mem_callsWith {name : String} :
    index ∈ callsWith calls name ↔ ∃ call, calls[index]? = some call ∧ name ∈ call.inputReferences := by
  simp [callsWith, List.mem_zipIdx_iff_getElem?]

end Table

/-- All members are connected to the first one. -/
theorem mem_of_withFirst {indexes : List ℕ} {a b : ℕ} (h : (a, b) ∈ withFirst indexes) :
    a ∈ indexes ∧ b ∈ indexes := by
  cases indexes with
  | nil => exact absurd h List.not_mem_nil
  | cons first rest =>
    obtain ⟨other, hother, heq⟩ := List.mem_map.mp h
    obtain ⟨rfl, rfl⟩ := Prod.mk.inj heq
    exact ⟨List.mem_cons_self, List.mem_cons_of_mem _ hother⟩

theorem eqvGen_withFirst {indexes : List ℕ} {a b : ℕ} (ha : a ∈ indexes) (hb : b ∈ indexes) :
    Relation.EqvGen (fun x y => (x, y) ∈ withFirst indexes) a b := by
  cases indexes with
  | nil => exact absurd ha List.not_mem_nil
  | cons first rest =>
    have hfirst : ∀ c ∈ first :: rest,
        Relation.EqvGen (fun x y => (x, y) ∈ withFirst (first :: rest)) first c := by
      intro c hc
      rcases List.mem_cons.mp hc with rfl | hc
      · exact .refl _
      · exact .rel _ _ (List.mem_map.mpr ⟨c, hc, rfl⟩)
    exact ((hfirst a ha).symm _ _).trans _ _ _ (hfirst b hb)

theorem mem_linkPairs {calls : List WorkflowCallNode} {capability : ActionCapability} {a b : ℕ} :
    (a, b) ∈ linkPairs calls (.action capability) ↔
      calls.findIdx? (·.phase = "preview") = some a ∧
        calls.findIdx? (·.phase = "commit") = some b := by
  simp only [linkPairs]
  split
  · rename_i preview commit hpreview hcommit
    rw [hpreview, hcommit, List.mem_singleton, Prod.mk.injEq, Option.some.injEq, Option.some.injEq]
    exact and_congr eq_comm eq_comm
  · rename_i hnone
    exact iff_of_false List.not_mem_nil fun h => hnone a b h.1 h.2

/-! The components. -/

theorem mem_sortedSets {sets : List (List ℕ)} {a b : ℕ} :
    (∃ members ∈ (sets.map fun set => set.insertionSort (· ≤ ·)).insertionSort (· ≤ ·),
      a ∈ members ∧ b ∈ members) ↔ ∃ members ∈ sets, a ∈ members ∧ b ∈ members := by
  constructor
  · rintro ⟨members, hin, ha, hb⟩
    obtain ⟨set, hset, rfl⟩ := List.mem_map.mp ((List.perm_insertionSort _ _).mem_iff.mp hin)
    exact ⟨set, hset, (List.perm_insertionSort _ _).mem_iff.mp ha,
      (List.perm_insertionSort _ _).mem_iff.mp hb⟩
  · rintro ⟨set, hset, ha, hb⟩
    refine ⟨set.insertionSort (· ≤ ·), (List.perm_insertionSort _ _).mem_iff.mpr
      (List.mem_map_of_mem hset), ?_, ?_⟩
    · exact (List.perm_insertionSort _ _).mem_iff.mpr ha
    · exact (List.perm_insertionSort _ _).mem_iff.mpr hb

theorem lt_of_mem_unitedPairs {capability : Capability} {quality : CapabilityQuality}
    {pair : ℕ × ℕ} (h : pair ∈ unitedPairs capability quality) :
    pair.1 < (callsOf capability).length ∧ pair.2 < (callsOf capability).length := by
  have hlt : ∀ {index : ℕ} {call : WorkflowCallNode}, (callsOf capability)[index]? = some call →
      index < (callsOf capability).length := fun hget => (List.getElem?_eq_some_iff.mp hget).1
  obtain ⟨a, b⟩ := pair
  simp only [unitedPairs, List.mem_append] at h
  rcases h with (hproducer | hselector) | hlink
  · obtain ⟨call, id, hget, -, hfound⟩ := mem_producerPairs.mp hproducer
    obtain ⟨other, hother, -⟩ := identified_of_callsByStep hfound
    exact ⟨hlt hother, hlt hget⟩
  · obtain ⟨name, -, hpair⟩ := List.mem_flatMap.mp hselector
    obtain ⟨hfirst, hsecond⟩ := mem_of_withFirst hpair
    obtain ⟨_, hget, -⟩ := mem_callsWith.mp hfirst
    obtain ⟨_, hget', -⟩ := mem_callsWith.mp hsecond
    exact ⟨hlt hget, hlt hget'⟩
  · cases capability with
    | read capability => exact absurd hlink List.not_mem_nil
    | action capability =>
      obtain ⟨hpreview, hcommit⟩ := mem_linkPairs.mp hlink
      exact ⟨(List.findIdx?_eq_some_iff_findIdx_eq.mp hpreview).1,
        (List.findIdx?_eq_some_iff_findIdx_eq.mp hcommit).1⟩

/-- The graph is always built, and its components are what the united pairs connect. -/
theorem buildWorkflowCompositionGraph_spec (capability : Capability) (quality : CapabilityQuality) :
    ∃ graph, buildWorkflowCompositionGraph capability quality = some graph ∧
      graph.calls = callsOf capability ∧
      ∀ a b, a < (callsOf capability).length → b < (callsOf capability).length →
        ((∃ members ∈ graph.components, a ∈ members ∧ b ∈ members) ↔
          Relation.EqvGen (fun x y => (x, y) ∈ unitedPairs capability quality) a b) := by
  obtain ⟨parents, hunited, hlength, hwf, hjoined⟩ := DisjointSet.joined_of_singletons
    fun pair hpair => @lt_of_mem_unitedPairs capability quality pair hpair
  obtain ⟨sets, hsets, htogether⟩ := @DisjointSet.together_collect parents
    (callsOf capability).length (List.range (callsOf capability).length) hwf
    (fun index hindex => hlength ▸ List.mem_range.mp hindex) (Nat.le_of_eq hlength)
  refine ⟨⟨callsOf capability,
    (sets.map fun set => set.2.insertionSort (· ≤ ·)).insertionSort (· ≤ ·)⟩,
    by simp only [buildWorkflowCompositionGraph, hunited, hsets], rfl, fun a b ha hb => ?_⟩
  have hmap : (sets.map fun set => set.2.insertionSort (· ≤ ·)) =
      (sets.map Prod.snd).map fun set => set.insertionSort (· ≤ ·) := by
    rw [List.map_map]
    rfl
  rw [← hjoined a b ha hb, ← htogether a (List.mem_range.mpr ha) b (List.mem_range.mpr hb)]
  simp only [hmap]
  exact mem_sortedSets

end CapabilityCompiler.Quality
