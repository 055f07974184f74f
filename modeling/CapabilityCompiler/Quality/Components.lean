import CapabilityCompiler.Quality.DataFlow

/-! The components of the composition graph against the dependencies of its calls. Transforms and the
other steps that are no calls are not indexed, and literals of conditions are read as references. -/
namespace CapabilityCompiler.Quality
open Foundation Models Compiler

/-! Sites of steps. -/

section Sites
variable {catalog : Catalog}

theorem siteIds_append (first second : List Site) :
    siteIds (first ++ second) = siteIds first ++ siteIds second := List.filterMap_append

theorem siteIds_cons (site : Site) (rest : List Site) :
    siteIds (site :: rest) = site.step.id.toList ++ siteIds rest := by
  unfold siteIds
  cases hid : site.step.id with
  | none => simp [hid]
  | some id => simp [hid]

mutual

theorem registers_validateStep {scope : Scope} {location : Location} {seen : List String}
    (position : List ℕ) (context alike : List String) (step : WorkflowStep)
    (h : errorFree (validateStep catalog scope location step seen).diagnostics = true) :
    Registers (siteIds (stepSites position context alike step)) seen
      (validateStep catalog scope location step seen).seen := by
  cases step with
  | branch id condition thenSteps elseSteps =>
    obtain ⟨hfirst, hsteps⟩ := Walk.errorFree_andThen h
    obtain ⟨hid, -⟩ := Walk.errorFree_andThen hfirst
    obtain ⟨hthen, helse⟩ := Walk.errorFree_andThen hsteps
    rw [stepSites, siteIds_cons, siteIds_append]
    exact (registers_registerStepId hid).append
      ((registers_validateWorkflow _ _ _ 0 thenSteps hthen).append
        (registers_validateWorkflow _ _ _ 0 elseSteps helse))
  | parallel id children =>
    obtain ⟨hid, hchildren⟩ := Walk.errorFree_andThen h
    rw [stepSites, siteIds_cons]
    exact (registers_registerStepId hid).append
      (registers_validateChildren _ _ _ 0 children hchildren)
  | «foreach» id items itemName maxItems workflow =>
    obtain ⟨hfirst, hworkflow⟩ := Walk.errorFree_andThen h
    obtain ⟨hid, -⟩ := Walk.errorFree_andThen hfirst
    rw [stepSites, siteIds_cons]
    exact (registers_registerStepId hid).append
      (registers_validateWorkflow _ _ _ 0 workflow hworkflow)
  | call id | pick id | map id | filter id | assert id | redact id | emit id =>
    obtain ⟨hid, -⟩ := Walk.errorFree_andThen h
    rw [stepSites, siteIds_cons]
    exact (registers_registerStepId hid).append .nil
    all_goals simp

theorem registers_validateWorkflow {scope : Scope} {location : Location} {seen : List String}
    {index : ℕ} (position : List ℕ) (context alike : List String) (place : ℕ)
    (steps : List WorkflowStep)
    (h : errorFree (validateWorkflow catalog scope location index steps seen).diagnostics = true) :
    Registers (siteIds (workflowSites position context alike place steps)) seen
      (validateWorkflow catalog scope location index steps seen).seen := by
  cases steps with
  | nil => exact .nil
  | cons step rest =>
    obtain ⟨hstep, hrest⟩ := Walk.errorFree_andThen h
    rw [workflowSites, siteIds_append]
    exact (registers_validateStep _ _ _ step hstep).append
      (registers_validateWorkflow _ _ _ (place + 1) rest hrest)

theorem registers_validateChildren {scope : Scope} {location : Location} {seen : List String}
    {index : ℕ} (position : List ℕ) (context alike : List String) (place : ℕ)
    (children : List WorkflowStep)
    (h : errorFree (validateChildren catalog scope location index children seen).diagnostics = true) :
    Registers (siteIds (workflowSites position context alike place children)) seen
      (validateChildren catalog scope location index children seen).seen := by
  cases children with
  | nil => exact .nil
  | cons child rest =>
    obtain ⟨hchild, hrest⟩ := Walk.errorFree_andThen h
    rw [workflowSites, siteIds_append]
    exact (registers_validateStep _ _ _ child hchild).append
      (registers_validateChildren _ _ _ (place + 1) rest hrest)

end

end Sites
/-! Conditions as they are dumped. -/

theorem readable_of_accepted {allowInput allowPrepared : Bool} {x : Occurrence}
    (h : Accepted allowInput allowPrepared x) : Readable x.text := by
  unfold Accepted at h
  unfold Readable
  cases hreference : compilerReference? x.text with
  | none =>
    simp only [hreference] at h
    exact .inr h.2
  | some reference => exact .inl rfl

theorem mem_stepsIn_obj {id : String} {fields : Fields} :
    id ∈ stepsIn (.obj fields) ↔ ∃ field ∈ fields, id ∈ stepsIn field.2 := by
  induction fields with
  | nil => simp [stepsIn, texts, textsOfFields]
  | cons field rest ih =>
    have hcons : stepsIn (.obj (field :: rest)) = stepsIn field.2 ++ stepsIn (.obj rest) := by
      simp [stepsIn, texts, textsOfFields]
    rw [hcons, List.mem_append, ih]
    simp

theorem mem_stepsIn_arr {id : String} {items : List Json} :
    id ∈ stepsIn (.arr items) ↔ ∃ item ∈ items, id ∈ stepsIn item := by
  induction items with
  | nil => simp [stepsIn, texts, textsOfItems]
  | cons item rest ih =>
    have hcons : stepsIn (.arr (item :: rest)) = stepsIn item ++ stepsIn (.arr rest) := by
      simp [stepsIn, texts, textsOfItems]
    rw [hcons, List.mem_append, ih]
    simp

section Dumped
variable {available : List String} {item : Bool} {id : String}

theorem stepsIn_of_readable {text : String} (h : Readable text) :
    stepsIn (.str text) = (stepId? text).toList := by
  simp only [stepsIn, texts, List.filterMap_cons, List.filterMap_nil, referencedName?_steps h]
  cases stepId? text <;> rfl

theorem mem_stepsIn_operand (operand : WorkflowConditionOperand)
    (h : ∀ x ∈ operandOccurrences available item operand, Readable x.text) :
    id ∈ stepsIn operand.dump ↔
      id ∈ (operandOccurrences [] false operand).filterMap (stepId? ·.text) ∨
        id ∈ (operandLiterals operand).flatMap stepsIn := by
  cases operand with
  | reference value =>
    have hkind : stepsIn (.str "reference") = [] := by decide
    have hvalue := stepsIn_of_readable (h _ (List.mem_singleton_self _))
    simp [WorkflowConditionOperand.dump, mem_stepsIn_obj, hkind, hvalue, operandOccurrences,
      operandLiterals]
  | literal value =>
    have hkind : stepsIn (.str "literal") = [] := by decide
    simp [WorkflowConditionOperand.dump, mem_stepsIn_obj, hkind, operandOccurrences,
      operandLiterals]

mutual

/-- The dump of a condition shows what it refers to, and what its literals look like. -/
theorem mem_stepsIn_condition (condition : WorkflowCondition)
    (h : ∀ x ∈ conditionOccurrences available item condition, Readable x.text) :
    id ∈ stepsIn condition.dump ↔
      id ∈ (conditionOccurrences [] false condition).filterMap (stepId? ·.text) ∨
        id ∈ (conditionLiterals condition).flatMap stepsIn := by
  cases condition with
  | eq left right =>
    have hname : stepsIn (.str "eq") = [] := by decide
    have hleft := @mem_stepsIn_operand available item id left fun x hx => h x (List.mem_append_left _ hx)
    have hright := @mem_stepsIn_operand available item id right fun x hx => h x (List.mem_append_right _ hx)
    simp only [WorkflowCondition.dump, mem_stepsIn_obj, List.mem_cons, List.not_mem_nil, or_false,
      exists_eq_or_imp, exists_eq_left, hname, false_or, hleft, hright, conditionOccurrences,
      conditionLiterals, List.filterMap_append, List.flatMap_append, List.mem_append]
    tauto
  | isIn left right =>
    have hname : stepsIn (.str "in") = [] := by decide
    have hleft := @mem_stepsIn_operand available item id left fun x hx => h x (List.mem_append_left _ hx)
    have hright := @mem_stepsIn_operand available item id right fun x hx => h x (List.mem_append_right _ hx)
    simp only [WorkflowCondition.dump, mem_stepsIn_obj, List.mem_cons, List.not_mem_nil, or_false,
      exists_eq_or_imp, exists_eq_left, hname, false_or, hleft, hright, conditionOccurrences,
      conditionLiterals, List.filterMap_append, List.flatMap_append, List.mem_append]
    tauto
  | all conditions =>
    have hname : stepsIn (.str "all") = [] := by decide
    have hconditions := mem_stepsIn_conditions conditions h
    simp only [WorkflowCondition.dump, mem_stepsIn_obj, List.mem_cons, List.not_mem_nil, or_false,
      exists_eq_or_imp, exists_eq_left, hname, false_or, hconditions, conditionOccurrences,
      conditionLiterals]
  | any conditions =>
    have hname : stepsIn (.str "any") = [] := by decide
    have hconditions := mem_stepsIn_conditions conditions h
    simp only [WorkflowCondition.dump, mem_stepsIn_obj, List.mem_cons, List.not_mem_nil, or_false,
      exists_eq_or_imp, exists_eq_left, hname, false_or, hconditions, conditionOccurrences,
      conditionLiterals]
  | not condition =>
    have hname : stepsIn (.str "not") = [] := by decide
    have hcondition := mem_stepsIn_condition condition h
    simp only [WorkflowCondition.dump, mem_stepsIn_obj, List.mem_cons, List.not_mem_nil, or_false,
      exists_eq_or_imp, exists_eq_left, hname, false_or, hcondition, conditionOccurrences,
      conditionLiterals]

theorem mem_stepsIn_conditions (conditions : List WorkflowCondition)
    (h : ∀ x ∈ conditionsOccurrences available item conditions, Readable x.text) :
    id ∈ stepsIn (.arr (dumpConditions conditions)) ↔
      id ∈ (conditionsOccurrences [] false conditions).filterMap (stepId? ·.text) ∨
        id ∈ (literalsOfAll conditions).flatMap stepsIn := by
  cases conditions with
  | nil => simp [dumpConditions, mem_stepsIn_arr, conditionsOccurrences, literalsOfAll]
  | cons condition rest =>
    have hfirst := mem_stepsIn_condition condition fun x hx => h x (List.mem_append_left _ hx)
    have hrest := mem_stepsIn_conditions rest fun x hx => h x (List.mem_append_right _ hx)
    rw [mem_stepsIn_arr] at hrest
    simp only [dumpConditions, mem_stepsIn_arr, List.mem_cons, exists_eq_or_imp, hfirst, hrest,
      conditionsOccurrences, literalsOfAll, List.filterMap_append, List.flatMap_append,
      List.mem_append]
    tauto

end

theorem mem_stepsIn_branch (condition : BranchCondition)
    (h : ∀ x ∈ branchOccurrences available item condition, Readable x.text) :
    id ∈ stepsIn condition.dump ↔ id ∈ conditionSteps condition ∨ id ∈ lookalikes condition := by
  cases condition with
  | reference value =>
    have hvalue := stepsIn_of_readable (h _ (List.mem_singleton_self _))
    simp [BranchCondition.dump, hvalue, conditionSteps, branchOccurrences, lookalikes]
  | structured bounded => exact mem_stepsIn_condition bounded.condition h

/-- In readable documents the matched names are the ones referred to. -/
theorem stepsIn_eq {value : Json}
    (h : ∀ x ∈ valueOccurrences available item value, Readable x.text) :
    stepsIn value = referredSteps value := by
  refine List.filterMap_congr fun text htext => referencedName?_steps ?_
  exact h _ (List.mem_map.mpr ⟨text, htext, rfl⟩)

theorem inputsIn_eq {value : Json}
    (h : ∀ x ∈ valueOccurrences available item value, Readable x.text) :
    inputsIn value = (texts value).filterMap inputName? := by
  refine List.filterMap_congr fun text htext => referencedName?_input ?_
  exact h _ (List.mem_map.mpr ⟨text, htext, rfl⟩)

end Dumped
/-! The calls of the graph are the calls of the workflow. -/

/-- A node of the graph stands for a call at its site. -/
structure Represents (phase : String) (call : WorkflowCallNode) (site : Site) : Prop where
  isCall : isCall site.step = true
  phase : call.phase = phase
  id : call.stepId = site.step.id
  inputs : ∀ name, name ∈ call.inputReferences ↔ name ∈ selectedInputs site.step
  steps : ∀ id, id ∈ call.stepReferences ↔
    id ∈ refersTo site.step ∨ id ∈ site.context ∨ id ∈ site.lookalikes

abbrev callsAmong (sites : List Site) : List Site := sites.filter (isCall ·.step)

section Calls
variable {phase : String} {allowInput allowPrepared : Bool}

mutual

theorem represents_walkStep {available inherited context alike : List String} {item : Bool}
    {position : List ℕ} {conditional : Bool} (step : WorkflowStep)
    (haccepted : AllAccepted allowInput allowPrepared (stepOccurrences available item step))
    (hinherited : ∀ id, id ∈ inherited ↔ id ∈ context ∨ id ∈ alike) :
    List.Forall₂ (Represents phase) (walkStep phase inherited conditional step)
      (callsAmong (stepSites position context alike step)) := by
  cases step with
  | call id operation arguments =>
    have hreadable : ∀ x ∈ valueOccurrences available item (.obj arguments), Readable x.text :=
      fun x hx => readable_of_accepted (haccepted x hx)
    refine .cons ⟨rfl, rfl, rfl, fun name => ?_, fun id => ?_⟩ .nil
    · rw [Text.mem_sortedSet, inputsIn_eq hreadable]
      rfl
    · rw [Text.mem_sortedSet, stepsIn_eq hreadable, List.mem_append, hinherited]
      rfl
  | branch id condition thenSteps elseSteps =>
    have hreadable : ∀ x ∈ branchOccurrences available item condition, Readable x.text :=
      fun x hx => readable_of_accepted (haccepted x (List.mem_append_left _ hx))
    have hbelow : ∀ id, id ∈ inherited ++ stepsIn condition.dump ↔
        id ∈ context ++ conditionSteps condition ∨ id ∈ alike ++ lookalikes condition := by
      intro id
      rw [List.mem_append, List.mem_append, List.mem_append, hinherited,
        mem_stepsIn_branch condition hreadable]
      tauto
    have hsites : callsAmong (stepSites position context alike
        (.branch id condition thenSteps elseSteps)) =
        callsAmong (workflowSites (0 :: position) (context ++ conditionSteps condition)
          (alike ++ lookalikes condition) 0 thenSteps) ++
        callsAmong (workflowSites (1 :: position) (context ++ conditionSteps condition)
          (alike ++ lookalikes condition) 0 elseSteps) := by
      rw [stepSites, callsAmong, List.filter_cons_of_neg (by simp [Quality.isCall]),
        List.filter_append]
    rw [hsites]
    exact List.rel_append
      (represents_walkCalls thenSteps (fun x hx => haccepted x
        (List.mem_append_right _ (List.mem_append_left _ hx))) hbelow)
      (represents_walkCalls elseSteps (fun x hx => haccepted x
        (List.mem_append_right _ (List.mem_append_right _ hx))) hbelow)
  | parallel id children =>
    have hsites : callsAmong (stepSites position context alike (.parallel id children)) =
        callsAmong (workflowSites position context alike 0 children) := by
      rw [stepSites, callsAmong, List.filter_cons_of_neg (by simp [Quality.isCall])]
    rw [hsites]
    exact represents_children children haccepted hinherited
  | «foreach» id items itemName maxItems workflow =>
    have hreadable : ∀ x ∈ valueOccurrences available item items, Readable x.text :=
      fun x hx => readable_of_accepted (haccepted x (List.mem_append_left _ hx))
    have hbelow : ∀ id, id ∈ inherited ++ stepsIn items ↔
        id ∈ context ++ referredSteps items ∨ id ∈ alike := by
      intro id
      rw [List.mem_append, List.mem_append, hinherited, stepsIn_eq hreadable]
      tauto
    have hsites : callsAmong (stepSites position context alike
        (.foreach id items itemName maxItems workflow)) =
        callsAmong (workflowSites position (context ++ referredSteps items) alike 0 workflow) := by
      rw [stepSites, callsAmong, List.filter_cons_of_neg (by simp [Quality.isCall])]
    rw [hsites]
    exact represents_walkCalls workflow
      (fun x hx => haccepted x (List.mem_append_right _ hx)) hbelow
  | pick | map | filter | assert | redact | emit => exact .nil

theorem represents_walkCalls {available inherited context alike : List String} {item : Bool}
    {position : List ℕ} {place : ℕ} {conditional : Bool} (steps : List WorkflowStep)
    (haccepted : AllAccepted allowInput allowPrepared (workflowOccurrences available item steps))
    (hinherited : ∀ id, id ∈ inherited ↔ id ∈ context ∨ id ∈ alike) :
    List.Forall₂ (Represents phase) (walkCalls phase inherited conditional steps)
      (callsAmong (workflowSites position context alike place steps)) := by
  cases steps with
  | nil => exact .nil
  | cons step rest =>
    rw [walkCalls, workflowSites, callsAmong, List.filter_append]
    exact List.rel_append
      (represents_walkStep step (fun x hx => haccepted x (List.mem_append_left _ hx)) hinherited)
      (represents_walkCalls rest (fun x hx => haccepted x (List.mem_append_right _ hx)) hinherited)

theorem represents_children {available inherited context alike : List String} {item : Bool}
    {position : List ℕ} {place : ℕ} {conditional : Bool} (children : List WorkflowStep)
    (haccepted : AllAccepted allowInput allowPrepared (childrenOccurrences available item children))
    (hinherited : ∀ id, id ∈ inherited ↔ id ∈ context ∨ id ∈ alike) :
    List.Forall₂ (Represents phase) (walkCalls phase inherited conditional children)
      (callsAmong (workflowSites position context alike place children)) := by
  cases children with
  | nil => exact .nil
  | cons child rest =>
    rw [walkCalls, workflowSites, callsAmong, List.filter_append]
    exact List.rel_append
      (represents_walkStep child (fun x hx => haccepted x (List.mem_append_left _ hx)) hinherited)
      (represents_children rest (fun x hx => haccepted x (List.mem_append_right _ hx)) hinherited)

end

end Calls

section Lists
variable {α β : Type} {r : α → β → Prop} {xs : List α} {ys : List β}

theorem getElem?_of_forall₂ (h : List.Forall₂ r xs ys) (index : ℕ) :
    (xs[index]? = none ∧ ys[index]? = none) ∨
      ∃ x y, xs[index]? = some x ∧ ys[index]? = some y ∧ r x y := by
  induction h generalizing index with
  | nil => exact .inl ⟨rfl, rfl⟩
  | @cons x y xs ys hxy _ ih =>
    cases index with
    | zero => exact .inr ⟨x, y, rfl, rfl, hxy⟩
    | succ index => exact ih index

theorem findIdx?_of_forall₂ {p : α → Bool} {q : β → Bool} (h : List.Forall₂ r xs ys)
    (hsame : ∀ x y, r x y → p x = q y) : xs.findIdx? p = ys.findIdx? q := by
  induction h with
  | nil => rfl
  | cons hxy _ ih => rw [List.findIdx?_cons, List.findIdx?_cons, hsame _ _ hxy, ih]

theorem forall₂_flatMap {γ : Type} {zs : List γ} {f : γ → List α} {g : γ → List β}
    (h : ∀ z ∈ zs, List.Forall₂ r (f z) (g z)) : List.Forall₂ r (zs.flatMap f) (zs.flatMap g) := by
  induction zs with
  | nil => exact .nil
  | cons z zs ih =>
    obtain ⟨hz, hzs⟩ := List.forall_mem_cons.mp h
    rw [List.flatMap_cons, List.flatMap_cons]
    exact List.rel_append hz (ih hzs)

end Lists

section Capability
variable {capability : Capability}

/-- What is known of every phase of a compiled capability. -/
theorem checked_of_compiles (h : Compiles capability) : ∀ phase ∈ phases capability,
    (∃ allowInput allowPrepared,
      AllAccepted allowInput allowPrepared (workflowOccurrences [] false phase.2)) ∧
      (siteIds (sitesOf phase.2)).Nodup := by
  cases capability with
  | read capability =>
    obtain ⟨catalog, policies, targets, h⟩ := h
    have haccepted := accepted_of_compileCapability h
    unfold compileCapability at h
    simp only [errorFree_append] at h
    intro phase hphase
    obtain rfl := List.mem_singleton.mp hphase
    exact ⟨⟨_, _, haccepted⟩, (registers_validateWorkflow [] [] [] 0 _ h.1.1.2).nodup⟩
  | action capability =>
    obtain ⟨isValid, operations, actionSemantics, policies, targets, h⟩ := h
    obtain ⟨-, hpreview, hcommit⟩ := accepted_of_compileActionCapability h
    unfold compileActionCapability at h
    simp only [errorFree_append] at h
    obtain ⟨⟨⟨-, hpreviewWalk⟩, hcommitWalk⟩, -⟩ := h.1
    intro phase hphase
    rcases List.mem_cons.mp hphase with rfl | hphase
    · exact ⟨⟨_, _, hpreview⟩, (registers_validateWorkflow [] [] [] 0 _ hpreviewWalk).nodup⟩
    · obtain rfl := List.mem_singleton.mp hphase
      exact ⟨⟨_, _, hcommit⟩, (registers_validateWorkflow [] [] [] 0 _ hcommitWalk).nodup⟩

theorem pairwise_phases (capability : Capability) :
    (phases capability).Pairwise fun first second => first.1 ≠ second.1 := by
  cases capability with
  | read capability => exact List.pairwise_singleton _ _
  | action capability => simp [phases]

theorem phase_unique {first second : String × Workflow} (hfirst : first ∈ phases capability)
    (hsecond : second ∈ phases capability) (h : first.1 = second.1) : first = second := by
  cases capability with
  | read capability =>
    rw [List.mem_singleton.mp hfirst, List.mem_singleton.mp hsecond]
  | action capability =>
    simp only [phases, List.mem_cons, List.not_mem_nil, or_false] at hfirst hsecond
    rcases hfirst with rfl | rfl <;> rcases hsecond with rfl | rfl
    · rfl
    · exact absurd h (by simp)
    · exact absurd h (by simp)
    · rfl

theorem represents_callsOf (h : Compiles capability) :
    List.Forall₂ (fun call (site : String × Site) => Represents site.1 call site.2)
      (callsOf capability) (callSites capability) := by
  refine forall₂_flatMap fun phase hphase => ?_
  obtain ⟨⟨allowInput, allowPrepared, haccepted⟩, -⟩ := checked_of_compiles h phase hphase
  refine List.forall₂_map_right_iff.mpr ?_
  exact represents_walkCalls phase.2 haccepted (by simp)

theorem site_of_getElem? {index : ℕ} {site : String × Site}
    (h : (callSites capability)[index]? = some site) : ∃ phase ∈ phases capability,
      phase.1 = site.1 ∧ site.2 ∈ sitesOf phase.2 ∧ isCall site.2.step = true := by
  obtain ⟨phase, hphase, hsite⟩ := List.mem_flatMap.mp (List.mem_of_getElem? h)
  obtain ⟨found, hfound, rfl⟩ := List.mem_map.mp hsite
  obtain ⟨hin, hcall⟩ := List.mem_filter.mp hfound
  exact ⟨phase, hphase, rfl, hin, hcall⟩

/-- Two sites with one identifier in one phase are the same. -/
theorem index_unique (h : Compiles capability) {a b : ℕ} {first second : String × Site} {id : String}
    (ha : (callSites capability)[a]? = some first) (hb : (callSites capability)[b]? = some second)
    (hphase : first.1 = second.1) (hid : first.2.step.id = some id)
    (hid' : second.2.step.id = some id) : a = b := by
  have hpairwise : (callSites capability).Pairwise fun first second =>
      first.1 = second.1 → ∀ id, first.2.step.id = some id → second.2.step.id ≠ some id := by
    refine List.pairwise_flatMap.mpr ⟨fun phase hin => ?_, ?_⟩
    · have hnodup := (checked_of_compiles h phase hin).2
      unfold siteIds at hnodup
      rw [List.Nodup, List.pairwise_filterMap] at hnodup
      refine List.pairwise_map.mpr ((hnodup.filter _).imp fun hne _ id hid hid' => ?_)
      exact hne id hid id hid' rfl
    · refine (pairwise_phases capability).imp fun hne x hx y hy hsame => ?_
      obtain ⟨_, _, rfl⟩ := List.mem_map.mp hx
      obtain ⟨_, _, rfl⟩ := List.mem_map.mp hy
      exact absurd hsame hne
  obtain ⟨halt, rfl⟩ := List.getElem?_eq_some_iff.mp ha
  obtain ⟨hblt, rfl⟩ := List.getElem?_eq_some_iff.mp hb
  rw [List.pairwise_iff_getElem] at hpairwise
  rcases Nat.lt_trichotomy a b with hlt | heq | hlt
  · exact absurd hid' (hpairwise a b halt hblt hlt hphase id hid)
  · exact heq
  · exact absurd hid (hpairwise b a hblt halt hlt hphase.symm id hid')

/-! The pairs that are united. -/

section Pairs
variable {quality : CapabilityQuality} {a b : ℕ}

theorem call_of_site (h : Compiles capability) {index : ℕ} {site : String × Site}
    (hsite : (callSites capability)[index]? = some site) :
    ∃ call, (callsOf capability)[index]? = some call ∧ Represents site.1 call site.2 := by
  rcases getElem?_of_forall₂ (represents_callsOf h) index with ⟨-, hnone⟩ | ⟨call, found, hcall, hget, hr⟩
  · exact absurd (hnone.symm.trans hsite) (by simp)
  · obtain rfl := Option.some.inj (hget.symm.trans hsite)
    exact ⟨call, hcall, hr⟩

theorem site_of_call (h : Compiles capability) {index : ℕ} {call : WorkflowCallNode}
    (hcall : (callsOf capability)[index]? = some call) :
    ∃ site, (callSites capability)[index]? = some site ∧ Represents site.1 call site.2 := by
  rcases getElem?_of_forall₂ (represents_callsOf h) index with ⟨hnone, -⟩ | ⟨found, site, hget, hsite, hr⟩
  · exact absurd (hnone.symm.trans hcall) (by simp)
  · obtain rfl := Option.some.inj (hget.symm.trans hcall)
    exact ⟨site, hsite, hr⟩

/-- A call uses nothing as a part of its result. -/
theorem resultPositions_of_call {site : Site} (h : isCall site.step = true) :
    resultPositions site = [] := by
  unfold resultPositions
  split <;> simp_all [Quality.isCall]

theorem producerPair_of_named (h : Compiles capability) {phase id : String} {consumer producer : Site}
    (ha : (callSites capability)[a]? = some (phase, producer))
    (hb : (callSites capability)[b]? = some (phase, consumer)) (hid : producer.step.id = some id)
    (hnamed : id ∈ refersTo consumer.step ∨ id ∈ consumer.context ∨ id ∈ consumer.lookalikes) :
    (a, b) ∈ producerPairs (callsOf capability) := by
  obtain ⟨call, hcall, hr⟩ := call_of_site h hb
  obtain ⟨source, hsource, hr'⟩ := call_of_site h ha
  refine mem_producerPairs.mpr ⟨call, id, hcall, (hr.steps id).mpr hnamed, ?_⟩
  rw [hr.phase]
  refine callsByStep_of_identified ?_ ⟨source, hsource, hr'.phase, hr'.id.trans hid⟩
  rintro other ⟨found, hfound, hphase, hother⟩
  obtain ⟨site, hsite, hr''⟩ := site_of_call h hfound
  exact index_unique h hsite ha (hr''.phase.symm.trans hphase) (hr''.id.symm.trans hother) hid

/-- Steps are united with the calls that they refer to and the calls that literals look like. -/
theorem mem_producerPairs_iff (h : Compiles capability) :
    (a, b) ∈ producerPairs (callsOf capability) ↔
      Between capability UsesCall a b ∨ Between capability LooksAt a b := by
  constructor
  · intro hpair
    obtain ⟨call, id, hcall, hid, hfound⟩ := mem_producerPairs.mp hpair
    obtain ⟨source, hsource, hphase, hsourceId⟩ := identified_of_callsByStep hfound
    obtain ⟨⟨p, consumer⟩, hb, hr⟩ := site_of_call h hcall
    obtain ⟨⟨p', producer⟩, ha, hr'⟩ := site_of_call h hsource
    have hsame : p' = p := hr'.phase.symm.trans (hphase.trans hr.phase)
    subst hsame
    obtain ⟨phase, hin, rfl, hproducer, hproducerCall⟩ := site_of_getElem? ha
    have hproducerId : producer.step.id = some id := hr'.id.symm.trans hsourceId
    rcases (hr.steps id).mp hid with hrefers | hcontext | hlooks
    · exact .inl ⟨phase, hin, producer, consumer, ha, hb,
        ⟨hproducer, .inl ⟨id, hproducerId, .inl hrefers⟩⟩, hproducerCall⟩
    · exact .inl ⟨phase, hin, producer, consumer, ha, hb,
        ⟨hproducer, .inl ⟨id, hproducerId, .inr hcontext⟩⟩, hproducerCall⟩
    · exact .inr ⟨phase, hin, producer, consumer, ha, hb, hproducer, hproducerCall, id,
        hproducerId, hlooks⟩
  · rintro (⟨phase, hin, producer, consumer, ha, hb, ⟨-, huses⟩, -⟩ |
      ⟨phase, hin, producer, consumer, ha, hb, -, -, id, hid, hlooks⟩)
    · rcases huses with ⟨id, hid, hnamed⟩ | hpart
      · exact producerPair_of_named h ha hb hid (hnamed.imp_right .inl)
      · obtain ⟨-, -, -, -, hcall⟩ := site_of_getElem? hb
        exact absurd hpart (by simp [resultPositions_of_call hcall])
    · exact producerPair_of_named h ha hb hid (.inr (.inr hlooks))

theorem sharesSelector_iff (h : Compiles capability) : SharesSelector capability quality a b ↔
    ∃ name ∈ selectorNames quality, a ∈ callsWith (callsOf capability) name ∧
      b ∈ callsWith (callsOf capability) name := by
  have hwith : ∀ {name : String} {index : ℕ}, index ∈ callsWith (callsOf capability) name ↔
      ∃ site, (callSites capability)[index]? = some site ∧ name ∈ selectedInputs site.2.step := by
    intro name index
    rw [mem_callsWith]
    constructor
    · rintro ⟨call, hcall, hname⟩
      obtain ⟨site, hsite, hr⟩ := site_of_call h hcall
      exact ⟨site, hsite, (hr.inputs name).mp hname⟩
    · rintro ⟨site, hsite, hname⟩
      obtain ⟨call, hcall, hr⟩ := call_of_site h hsite
      exact ⟨call, hcall, (hr.inputs name).mpr hname⟩
  constructor
  · rintro ⟨name, hin, first, second, ha, hb, hfirst, hsecond⟩
    exact ⟨name, hin, hwith.mpr ⟨first, ha, hfirst⟩, hwith.mpr ⟨second, hb, hsecond⟩⟩
  · rintro ⟨name, hin, ha, hb⟩
    obtain ⟨first, ha, hfirst⟩ := hwith.mp ha
    obtain ⟨second, hb, hsecond⟩ := hwith.mp hb
    exact ⟨name, hin, first, second, ha, hb, hfirst, hsecond⟩

theorem mem_linkPairs_iff (h : Compiles capability) :
    (a, b) ∈ linkPairs (callsOf capability) capability ↔ Linked capability a b := by
  have hfind : ∀ name : String, (callsOf capability).findIdx? (·.phase = name) =
      (callSites capability).findIdx? (·.1 = name) := by
    refine fun name => findIdx?_of_forall₂ (represents_callsOf h) fun call site hr => ?_
    rw [hr.phase]
  cases capability with
  | action capability => rw [mem_linkPairs, Linked, hfind, hfind]
  | read capability =>
    refine iff_of_false List.not_mem_nil fun hlinked => ?_
    obtain ⟨hlt, hname, -⟩ := List.findIdx?_eq_some_iff_getElem.mp hlinked.1
    obtain ⟨phase, hin, heq, -⟩ := site_of_getElem? (List.getElem?_eq_getElem hlt)
    obtain rfl := List.mem_singleton.mp hin
    rw [← heq] at hname
    exact absurd hname (by simp)

/-- The pairs that are united connect what seems to be connected. -/
theorem eqvGen_unitedPairs_iff (h : Compiles capability) :
    Relation.EqvGen (fun x y => (x, y) ∈ unitedPairs capability quality) a b ↔
      Relation.EqvGen (SeemsToConnect capability quality) a b := by
  constructor
  · refine DisjointSet.eqvGen_of_forall fun x y hpair => .rel _ _ ?_
    simp only [unitedPairs, List.mem_append] at hpair
    rcases hpair with (hproducer | hselector) | hlink
    · rcases (mem_producerPairs_iff h).mp hproducer with huses | hlooks
      · exact .inl huses
      · exact .inr (.inl hlooks)
    · obtain ⟨name, hname, hpair⟩ := List.mem_flatMap.mp hselector
      obtain ⟨hx, hy⟩ := mem_of_withFirst hpair
      exact .inr (.inr (.inl ((sharesSelector_iff h).mpr ⟨name, hname, hx, hy⟩)))
    · exact .inr (.inr (.inr ((mem_linkPairs_iff h).mp hlink)))
  · refine DisjointSet.eqvGen_of_forall fun x y hconnects => ?_
    rcases hconnects with huses | hlooks | hshares | hlinked
    · exact .rel _ _ (List.mem_append_left _ (List.mem_append_left _
        ((mem_producerPairs_iff h).mpr (.inl huses))))
    · exact .rel _ _ (List.mem_append_left _ (List.mem_append_left _
        ((mem_producerPairs_iff h).mpr (.inr hlooks))))
    · obtain ⟨name, hname, hx, hy⟩ := (sharesSelector_iff h).mp hshares
      refine DisjointSet.eqvGen_of_forall (fun u v huv => .rel _ _ ?_) (eqvGen_withFirst hx hy)
      exact List.mem_append_left _ (List.mem_append_right _
        (List.mem_flatMap.mpr ⟨name, hname, huv⟩))
    · exact .rel _ _ (List.mem_append_right _ ((mem_linkPairs_iff h).mpr hlinked))

end Pairs

/-- The components follow the dependencies exactly if no dependency is lost at a step that is no call and
no literal connects what is not connected. -/
theorem reflectsDataFlow_iff (capability : Capability) (quality : CapabilityQuality)
    (h : Compiles capability) :
    ReflectsDataFlow capability quality ↔ SeenThrough capability quality := by
  obtain ⟨graph, hbuild, hcalls, hcomponents⟩ :=
    buildWorkflowCompositionGraph_spec capability quality
  have hlength : (callsOf capability).length = (callSites capability).length :=
    (represents_callsOf h).length_eq
  have hlt : ∀ {related a b}, Between capability related a b →
      a < (callsOf capability).length ∧ b < (callsOf capability).length := by
    rintro related a b ⟨_, _, _, _, ha, hb, _⟩
    exact ⟨hlength ▸ (List.getElem?_eq_some_iff.mp ha).1,
      hlength ▸ (List.getElem?_eq_some_iff.mp hb).1⟩
  have htogether : ∀ a b, a < (callsOf capability).length → b < (callsOf capability).length →
      ((∃ members ∈ graph.components, a ∈ members ∧ b ∈ members) ↔
        Relation.EqvGen (SeemsToConnect capability quality) a b) :=
    fun a b ha hb => (hcomponents a b ha hb).trans (eqvGen_unitedPairs_iff h)
  constructor
  · rintro ⟨found, hfound, -, hreflects⟩
    obtain rfl := Option.some.inj (hbuild.symm.trans hfound)
    rw [hcalls] at hreflects
    constructor
    · intro a b hthrough
      obtain ⟨ha, hb⟩ := hlt hthrough
      exact (htogether a b ha hb).mp
        ((hreflects a b ha hb).mpr (.rel _ _ (.inr (.inl hthrough))))
    · intro a b hlooks
      obtain ⟨ha, hb⟩ := hlt hlooks
      exact (hreflects a b ha hb).mp ((htogether a b ha hb).mpr (.rel _ _ (.inr (.inl hlooks))))
  · intro hseen
    refine ⟨graph, hbuild, hcalls ▸ hlength, ?_⟩
    rw [hcalls]
    refine fun a b ha hb => (htogether a b ha hb).trans ⟨?_, ?_⟩
    · refine DisjointSet.eqvGen_of_forall fun x y hconnects => ?_
      rcases hconnects with huses | hlooks | hother
      · exact .rel _ _ (.inl huses)
      · exact hseen.literal x y hlooks
      · exact .rel _ _ (.inr (.inr hother))
    · refine DisjointSet.eqvGen_of_forall fun x y hconnects => ?_
      rcases hconnects with huses | hthrough | hother
      · exact .rel _ _ (.inl huses)
      · exact hseen.through x y hthrough
      · exact .rel _ _ (.inr (.inr hother))

end Capability
/-- The profile of the owner of an order: the owner is picked from the order. -/
def ownerProfile : ReadCapability where
  id := "owner-profile"
  inputSchema := []
  outputSchema := []
  policy := "orders"
  evals := []
  workflow :=
    [.call (some "order") "read-order" [("id", .str "$.input.id")],
      .pick (some "owner") (.str "$.steps.order") ["id"],
      .call (some "profile") "read-profile" [("owner", .str "$.steps.owner")],
      .emit none (.str "$.steps.profile")]

theorem compiles_ownerProfile : Compiles (.read ownerProfile) :=
  ⟨⟨["read-order", "read-profile"], fun _ => []⟩, ["orders"], [], by decide⟩

theorem ownerProfile_reflects_iff :
    ReflectsDataFlow (.read ownerProfile) ⟨[]⟩ ↔ SeenThrough (.read ownerProfile) ⟨[]⟩ :=
  reflectsDataFlow_iff (.read ownerProfile) ⟨[]⟩ compiles_ownerProfile

/-- The second call depends on the first one, and they are in two components. -/
theorem ownerProfile_not_reflected :
    Compiles (.read ownerProfile) ∧ ¬ ReflectsDataFlow (.read ownerProfile) ⟨[]⟩ := by
  refine ⟨compiles_ownerProfile, ?_⟩
  rintro ⟨graph, hbuild, -, hreflects⟩
  have hgraph : buildWorkflowCompositionGraph (.read ownerProfile) ⟨[]⟩ =
      some ⟨callsOf (.read ownerProfile), [[0], [1]]⟩ := by decide
  obtain rfl := Option.some.inj (hbuild.symm.trans hgraph)
  have hthrough : Between (.read ownerProfile) UsesThrough 0 1 := by
    refine ⟨("read", ownerProfile.workflow), List.mem_singleton_self _, _, _, rfl, rfl, ?_⟩
    refine @UsesThrough.call _ _ ⟨[1], .pick (some "owner") (.str "$.steps.order") ["id"], [], []⟩ _
      ⟨?_, .inl ⟨"owner", rfl, .inl ?_⟩⟩ rfl ⟨⟨?_, .inl ⟨"order", rfl, .inl ?_⟩⟩, rfl⟩
    · exact List.mem_cons_of_mem _ List.mem_cons_self
    · decide
    · exact List.mem_cons_self
    · decide
  obtain ⟨members, hin, hzero, hone⟩ :=
    (hreflects 0 1 (by decide) (by decide)).mpr (.rel _ _ (.inr (.inl hthrough)))
  have hapart : ∀ members ∈ [[0], [1]], ¬ (0 ∈ members ∧ 1 ∈ members) := by decide
  exact hapart members hin ⟨hzero, hone⟩

end CapabilityCompiler.Quality
