import CapabilityCompiler.Interactions.OptionEvaluator

/-! Fresh options: those held for a field come from a response to its latest request, for the values
that its dependencies still have. -/
namespace CapabilityCompiler.Interactions
open Foundation Json

/-! What a cascade does. -/

/-- A change of the one field reaches the other one: directly, or through fields whose selection is
cleared. -/
inductive EvaluatorContract.Cascades (contract : EvaluatorContract) (changed : String) :
    String → Prop where
  | direct {field : String} (h : field ∈ contract.cascadeDependents changed) :
    Cascades contract changed field
  | onward {between field : String} (h : Cascades contract changed between)
    (hclears : clearsSelection contract between = true)
    (hnext : field ∈ contract.cascadeDependents between) : Cascades contract changed field

section Cascades
variable {contract : EvaluatorContract} {changed : String} {s : EvaluatorState}

/-- A cascade drops the options of visited fields and writes at their pointers only. -/
structure CascadeSound (contract : EvaluatorContract) (changed : String) (s : EvaluatorState)
    (cascade : Cascade) : Prop where
  cascades : ∀ field ∈ cascade.visited, contract.Cascades changed field
  dropped : ∀ field ∈ cascade.visited, cascade.evaluator.options.get? field = none
  kept : ∀ field, field ∉ cascade.visited →
    cascade.evaluator.options.get? field = s.options.get? field
  generations : ∀ field, s.generationOf field ≤ cascade.evaluator.generationOf field
  pagingTokens : cascade.evaluator.pagingTokens = s.pagingTokens
  snapshots : cascade.evaluator.snapshots = s.snapshots
  requests : cascade.evaluator.requests = s.requests
  values : ∀ pointer, (∀ field, contract.Cascades changed field →
      clearsSelection contract field = true → Apart field pointer) →
    readPointer cascade.evaluator.values pointer = readPointer s.values pointer

theorem generationOf_dropOptions (field other : String) : (s.dropOptions field).generationOf other =
    if other = field then s.nextGeneration field else s.generationOf other := by
  unfold EvaluatorState.generationOf EvaluatorState.dropOptions
  simp only [Table.get?_put]
  split <;> rfl

theorem generationOf_le_dropOptions (field other : String) :
    s.generationOf other ≤ (s.dropOptions field).generationOf other := by
  rw [generationOf_dropOptions]
  split
  · rename_i hsame
    subst hsame
    exact Nat.le_succ _
  · exact Nat.le_refl _

/-- One more field is visited. -/
theorem CascadeSound.visit {cascade : Cascade} (h : CascadeSound contract changed s cascade)
    {dependent : String} (hcascades : contract.Cascades changed dependent) {values : Json}
    (hvalues : ∀ pointer, (clearsSelection contract dependent = true → Apart dependent pointer) →
      readPointer values pointer = readPointer cascade.evaluator.values pointer)
    (failure : Option ConditionError) :
    CascadeSound contract changed s
      ⟨{ cascade.evaluator.dropOptions dependent with values }, dependent :: cascade.visited,
        failure⟩ where
  cascades field hmem := by
    rcases List.mem_cons.mp hmem with rfl | hmem
    · exact hcascades
    · exact h.cascades field hmem
  dropped field hmem := by
    by_cases hsame : field = dependent
    · subst hsame
      exact Table.get?_erase_self _ _
    · have hbefore := h.dropped field ((List.mem_cons.mp hmem).resolve_left hsame)
      exact (Table.get?_erase_of_ne hsame _).trans hbefore
  kept field hnew := by
    obtain ⟨hne, hnew⟩ := List.ne_and_not_mem_of_not_mem_cons hnew
    exact (Table.get?_erase_of_ne hne _).trans (h.kept field hnew)
  generations field := (h.generations field).trans (generationOf_le_dropOptions dependent field)
  pagingTokens := h.pagingTokens
  snapshots := h.snapshots
  requests := h.requests
  values pointer hapart :=
    (hvalues pointer (hapart dependent hcascades)).trans (h.values pointer hapart)

/-- The keys of the queue. -/
def Queued (contract : EvaluatorContract) (changed field : String) : Prop :=
  field = changed ∨ contract.Cascades changed field ∧ clearsSelection contract field = true

theorem Queued.cascades {field dependent : String} (h : Queued contract changed field)
    (hdependent : dependent ∈ contract.cascadeDependents field) :
    contract.Cascades changed dependent := by
  rcases h with rfl | ⟨hcascades, hclears⟩
  · exact .direct hdependent
  · exact .onward hcascades hclears hdependent

theorem cascade_reaches : Worklist.Reaches contract.cascadeDependents (invalidate contract)
    (Queued contract changed) (CascadeSound contract changed s) where
  keeps key dependent cascade hkey hdependent h := by
    have hcascades := hkey.cascades hdependent
    generalize hresult : invalidate contract key dependent cascade = result
    have hcase := hresult ▸ invalidation contract key dependent cascade
    cases hcase with
    | done _ => exact h
    | kept _ _ hkeeps => exact h.visit hcascades (fun pointer _ => rfl) none
    | cleared _ _ hclears hdelete =>
      exact h.visit hcascades (fun pointer hapart => readPointer_delete (hapart hclears) hdelete) none
    | failed _ _ hclears hdelete => exact h.visit hcascades (fun pointer _ => rfl) _
  queues key dependent cascade hkey hdependent h hpassed := by
    have hcascades := hkey.cascades hdependent
    generalize hresult : invalidate contract key dependent cascade = result at hpassed
    have hcase := hresult ▸ invalidation contract key dependent cascade
    cases hcase with
    | done _ => cases hpassed
    | kept _ _ _ => cases hpassed
    | cleared _ _ hclears _ => exact .inr ⟨hcascades, hclears⟩
    | failed _ _ _ _ => cases hpassed

/-- Every selection can be cleared. -/
def Clearable (contract : EvaluatorContract) : Prop :=
  ∀ field, clearsSelection contract field = true → Readable field

theorem Clearable.not_error (hclearable : Clearable contract) {field : String}
    (hclears : clearsSelection contract field = true) {values : Json} {e : ConditionError} :
    deletePointer values field ≠ .error e := by
  obtain ⟨remaining, hremaining⟩ := (hclearable field hclears).exists_delete values
  rw [hremaining]
  simp

theorem cascade_settles (hclearable : Clearable contract) :
    Worklist.Settles contract.cascadeDependents (invalidate contract)
      (fun cascade => cascade.failure = none)
      (fun key cascade => key = changed ∨
        key ∈ cascade.visited ∧ clearsSelection contract key = true)
      (fun _ dependent cascade => dependent ∈ cascade.visited) where
  keeps key dependent cascade hdependent h := by
    generalize hresult : invalidate contract key dependent cascade = result
    have hcase := hresult ▸ invalidation contract key dependent cascade
    cases hcase with
    | done _ => exact h
    | kept _ _ _ => rfl
    | cleared _ _ _ _ => rfl
    | failed _ _ hclears hdelete => exact absurd hdelete (hclearable.not_error hclears)
  active_mono key dependent cascade k hactive := by
    rcases hactive with rfl | ⟨hvisited, hclears⟩
    · exact .inl rfl
    · exact .inr ⟨(invalidation contract key dependent cascade).visited_subset hvisited, hclears⟩
  active_of key dependent cascade k hactive := by
    generalize hresult : invalidate contract key dependent cascade = result at hactive
    have hcase := hresult ▸ invalidation contract key dependent cascade
    rcases hactive with rfl | ⟨hvisited, hk⟩
    · exact .inl (.inl rfl)
    cases hcase with
    | done _ => exact .inl (.inr ⟨hvisited, hk⟩)
    | kept _ _ hkeeps =>
      rcases List.mem_cons.mp hvisited with rfl | hvisited
      · exact absurd (hkeeps.symm.trans hk) (by simp)
      · exact .inl (.inr ⟨hvisited, hk⟩)
    | cleared _ _ _ _ =>
      rcases List.mem_cons.mp hvisited with rfl | hvisited
      · exact .inr ⟨rfl, rfl⟩
      · exact .inl (.inr ⟨hvisited, hk⟩)
    | failed _ _ hclears hdelete => exact absurd hdelete (hclearable.not_error hclears)
  done key dependent cascade hdependent h hactive := by
    right
    generalize hresult : invalidate contract key dependent cascade = result
    have hcase := hresult ▸ invalidation contract key dependent cascade
    cases hcase with
    | done hdone => exact hdone.resolve_right (by simp [h])
    | kept _ _ _ => exact List.mem_cons_self
    | cleared _ _ _ _ => exact List.mem_cons_self
    | failed _ _ _ _ => exact List.mem_cons_self
  done_mono key dependent cascade k t hdependent h hactive hdone :=
    .inr ((invalidation contract key dependent cascade).visited_subset hdone)

theorem invalidateCascade_sound {cascade : Cascade}
    (hrun : invalidateCascade contract changed s = some cascade) :
    CascadeSound contract changed s cascade := by
  refine cascade_reaches.run (fun k hk => .inl (List.mem_singleton.mp hk)) ?_ hrun
  exact ⟨by simp, by simp, fun _ _ => rfl, fun _ => Nat.le_refl _, rfl, rfl, rfl, fun _ _ => rfl⟩

/-- A cascade visits every field that the change reaches. -/
theorem mem_visited_of_cascades (hclearable : Clearable contract) {cascade : Cascade}
    (hrun : invalidateCascade contract changed s = some cascade) {field : String}
    (hcascades : contract.Cascades changed field) : field ∈ cascade.visited := by
  have hsettles := @cascade_settles contract changed hclearable
  have hstart : Worklist.Settled contract.cascadeDependents
      (fun key (cascade : Cascade) => key = changed ∨
        key ∈ cascade.visited ∧ clearsSelection contract key = true)
      (fun _ dependent cascade => dependent ∈ cascade.visited) [changed]
      { evaluator := s, visited := [], failure := none } := by
    intro key hactive
    rcases hactive with rfl | ⟨hvisited, -⟩
    · exact .inl List.mem_cons_self
    · exact absurd hvisited List.not_mem_nil
  induction hcascades with
  | direct hdependent => exact hsettles.run_done rfl hstart hrun (.inl rfl) hdependent
  | onward _ hclears hnext ih => exact hsettles.run_done rfl hstart hrun (.inr ⟨ih, hclears⟩) hnext

end Cascades
/-! Freshness. -/

def EvaluatorState.Holds (s : EvaluatorState) (field : String) : Prop :=
  s.options.get? field ≠ none ∨ s.pagingTokens.get? field ≠ none

/-- Both places have a value, and these are equal as JSON. -/
def SameValue (first second : Except ConditionError (Option Json)) : Prop :=
  ∃ before now, first = .ok (some before) ∧ second = .ok (some now) ∧ jsonEqual before now = true

namespace EvaluatorContract
variable (contract : EvaluatorContract) (values : Json) (events : List EvaluatorEvent)
  (field : String)

/-- The options and the token were projected from a response to a request for the field, the latest
one when it came, that was made when the dependencies had the values they have now. -/
def AnsweredBy (source : CompiledOptionSource) (options : List Fields) (token : Json) : Prop :=
  ∃ before built between response later,
    events = before ++ .requestOptions field built :: (between ++ .optionsRespond field
      ((contract.after values before).nextGeneration field) (.returned response) :: later) ∧
    (∀ built, .requestOptions field built ∉ between) ∧
    projectOptions source response = .ok options ∧ paginationResponse source response = .ok token ∧
    ∀ dependency ∈ source.cascadeDependencies,
      SameValue (readPointer (contract.after values before).values dependency)
        (readPointer (contract.after values events).values dependency)

/-- The options and the token that are held for a field, if any, come from one response that is not
outdated. -/
def Fresh : Prop :=
  (contract.after values events).Holds field → ∃ source options token,
    contract.sourceOf field = some source ∧
    (contract.after values events).options.get? field = some options ∧
    (contract.after values events).pagingTokens.get? field =
      (if token = .null then none else some token) ∧
    contract.AnsweredBy values events field source options token

/-! The condition. -/

/-- What is written at the pointer is apart from the dependencies of a field. -/
def ApartFrom (pointer : String) : Prop :=
  ∀ source, contract.sourceOf field = some source →
    ∀ dependency ∈ source.cascadeDependencies, Apart pointer dependency

/-- No options are held that depend on the pointer. -/
def Spares (s : EvaluatorState) (pointer : String) : Prop :=
  ∀ held, s.Holds held → contract.ApartFrom held pointer

/-- The resets that apply when the conditions are evaluated in turn. -/
def appliedResets : List CompiledCondition → Json → List String
  | [], _ => []
  | condition :: rest, values =>
    if (contract.fields.get? condition.targetPointer).isNone then []
    else match evaluateCondition condition.expression (objectFields values) with
      | .error _ => []
      | .ok matched =>
        if condition.target = .reset ∧ matched = true then
          condition.targetPointer ::
            match deletePointer values condition.targetPointer with
            | .ok remaining => appliedResets rest remaining
            | .error _ => []
        else appliedResets rest values

/-- No step changes a dependency of options that are held, unless its cascade drops them. A response
is accepted only for the very values that its request was made for, and does not leave an older token
in place. -/
def Careful (s : EvaluatorState) : EvaluatorEvent → Prop
  | .setValue changed value =>
    ∀ written, (contract.fields.get? changed).isNone = false →
      writePointer s.values changed value = .ok written →
      Clearable contract ∧ readDependencies contract.fields = .ok () ∧
        (∀ held, contract.Cascades changed held → s.pagingTokens.get? held = none) ∧
        ∀ held, s.Holds held → ¬ contract.Cascades changed held →
          ∀ pointer, Queued contract changed pointer → contract.ApartFrom held pointer
  | .optionsRespond held generation (.returned response) =>
    ∀ source options token, contract.sourceOf held = some source →
      acceptedOptions source s held generation response = .ok (some (options, token)) →
      (∀ dependency ∈ source.cascadeDependencies, ∀ before now,
        ((s.snapshots.get? (held, generation)).getD []).get? dependency = some (some before) →
        readPointer s.values dependency = .ok (some now) → jsonEqual before now = true) ∧
      (token = .null → s.pagingTokens.get? held = none)
  | .applyConditions =>
    ∀ pointer ∈ contract.appliedResets contract.conditions s.values, contract.Spares s pointer
  | .relatedResponds load (.returned response) =>
    ∀ waiting value, s.loads[load]? = some waiting →
      readPointer response waiting.binding.outputPointer = .ok (some value) →
      contract.Spares s waiting.binding.targetPointer
  | _ => True

end EvaluatorContract

/-! What a step does to the options that are held. -/

section Held
variable {contract : EvaluatorContract} {s next : EvaluatorState} {field : String}

/-- The dependencies of a field read the same. -/
def DependenciesKept (contract : EvaluatorContract) (field : String) (before now : Json) : Prop :=
  ∀ source, contract.sourceOf field = some source → ∀ dependency ∈ source.cascadeDependencies,
    readPointer now dependency = readPointer before dependency

theorem DependenciesKept.refl (values : Json) : DependenciesKept contract field values values :=
  fun _ _ _ _ => rfl

theorem DependenciesKept.trans {first second third : Json}
    (h : DependenciesKept contract field first second)
    (h' : DependenciesKept contract field second third) :
    DependenciesKept contract field first third :=
  fun source hsource dependency hmem =>
    (h' source hsource dependency hmem).trans (h source hsource dependency hmem)

theorem dependenciesKept_write {pointer : String} {value before now : Json}
    (hapart : contract.ApartFrom field pointer) (hwrite : writePointer before pointer value = .ok now) :
    DependenciesKept contract field before now :=
  fun source hsource dependency hmem =>
    readPointer_write (hapart source hsource dependency hmem) hwrite

theorem dependenciesKept_delete {pointer : String} {before now : Json}
    (hapart : contract.ApartFrom field pointer) (hdelete : deletePointer before pointer = .ok now) :
    DependenciesKept contract field before now :=
  fun source hsource dependency hmem =>
    readPointer_delete (hapart source hsource dependency hmem) hdelete

/-- What a step does to a field: its options are those before, for the same values; or none are held;
or they are those of a response that was accepted. -/
inductive HeldStep (contract : EvaluatorContract) (s : EvaluatorState) (event : EvaluatorEvent)
    (next : EvaluatorState) (field : String) : Prop where
  | same (hoptions : next.options.get? field = s.options.get? field)
    (htoken : next.pagingTokens.get? field = s.pagingTokens.get? field)
    (hkept : s.Holds field → DependenciesKept contract field s.values next.values)
  | dropped (h : ¬ next.Holds field)
  | accepted {source : CompiledOptionSource} {generation : ℕ} {response : Json}
    {options : List Fields} {token : Json}
    (hevent : event = .optionsRespond field generation (.returned response))
    (hsource : contract.sourceOf field = some source)
    (hrequest : (field, generation) ∈ s.requests)
    (haccepted : acceptedOptions source s field generation response = .ok (some (options, token)))
    (hoptions : next.options.get? field = some options)
    (htoken : next.pagingTokens.get? field = if token = .null then s.pagingTokens.get? field else some token)
    (hvalues : next.values = s.values)

/-- A step that leaves the values, the options and the tokens. -/
theorem HeldStep.of_eq {event : EvaluatorEvent} (hvalues : next.values = s.values)
    (hoptions : next.options = s.options) (htokens : next.pagingTokens = s.pagingTokens) :
    HeldStep contract s event next field :=
  .same (by rw [hoptions]) (by rw [htokens]) fun _ => by
    rw [hvalues]
    exact .refl _

theorem heldStep_setValue {changed : String} {value : Json}
    (hcareful : contract.Careful s (.setValue changed value)) :
    HeldStep contract s (.setValue changed value) (setValue contract s changed value).2 field := by
  unfold setValue
  split
  · exact .of_eq rfl rfl rfl
  rename_i hdeclared
  cases hwrite : writePointer s.values changed value with
  | error e => exact .of_eq rfl rfl rfl
  | ok values =>
    obtain ⟨hclearable, hvalid, htokens, hapart⟩ :=
      hcareful values (Bool.eq_false_iff.mpr hdeclared) hwrite
    simp only [hvalid]
    obtain ⟨cascade, hcascade⟩ := Option.isSome_iff_exists.mp
      (invalidateCascade_isSome contract changed { s with values })
    simp only [hcascade, Option.get_some]
    have hsound := invalidateCascade_sound hcascade
    by_cases hreached : contract.Cascades changed field
    · refine .dropped ?_
      rintro (hoptions | htoken)
      · exact hoptions (hsound.dropped field (mem_visited_of_cascades hclearable hcascade hreached))
      · rw [hsound.pagingTokens] at htoken
        exact htoken (htokens field hreached)
    · have hnew : field ∉ cascade.visited := fun hmem => hreached (hsound.cascades field hmem)
      refine .same (hsound.kept field hnew) (by rw [hsound.pagingTokens]) fun hheld => ?_
      have hfree := hapart field hheld hreached
      refine (dependenciesKept_write (hfree changed (.inl rfl)) hwrite).trans ?_
      intro source hsource dependency hmem
      refine hsound.values dependency fun cleared hcascades hclears => ?_
      exact hfree cleared (.inr ⟨hcascades, hclears⟩) source hsource dependency hmem

/-- A field for which requests begin. -/
structure Requestable (contract : EvaluatorContract) (field : String)
    (source : CompiledOptionSource) : Prop where
  declared : contract.sourceOf field = some source
  producer : source.producerId.isNone = false
  pointers : EvaluatorContract.pointerSequence source.cascadeDependencies = .ok ()

/-- What a request does: nothing, where none can begin; else a new generation begins, mostly with a
snapshot and a call. -/
inductive RequestStep (contract : EvaluatorContract) (s : EvaluatorState) (field : String) :
    EvaluatorState → Prop where
  | refused (h : ∀ source, ¬ Requestable contract field source) : RequestStep contract s field s
  | begun : RequestStep contract s field (s.beginRequest field)
  | noted (snapshot : OptionSnapshot) : RequestStep contract s field
    ((s.beginRequest field).noteSnapshot field (s.nextGeneration field) snapshot)
  | awaits {source : CompiledOptionSource} {snapshot : OptionSnapshot}
    (hfield : Requestable contract field source)
    (hsnapshot : snapshotAt s.values source.cascadeDependencies = .ok snapshot) :
    RequestStep contract s field (((s.beginRequest field).noteSnapshot field
      (s.nextGeneration field) snapshot).awaitResponse field (s.nextGeneration field))

theorem requestStep (contract : EvaluatorContract) (s : EvaluatorState) (field : String)
    (built : Bool) : RequestStep contract s field (requestOptions contract s field built).2 := by
  unfold requestOptions
  cases hfield : contract.fields.get? field with
  | none =>
    refine .refused fun source h => ?_
    simpa [EvaluatorContract.sourceOf, hfield] using h.declared
  | some found =>
    cases found with
    | none =>
      refine .refused fun source h => ?_
      simpa [EvaluatorContract.sourceOf, hfield] using h.declared
    | some source =>
      have hdeclared : contract.sourceOf field = some source := by
        simp [EvaluatorContract.sourceOf, hfield]
      simp only
      split
      · rename_i hstatic
        refine .refused fun other h => ?_
        obtain rfl := Option.some.inj (hdeclared.symm.trans h.declared)
        exact absurd (hstatic.symm.trans h.producer) (by simp)
      rename_i hproducer
      cases hpointers : EvaluatorContract.pointerSequence source.cascadeDependencies with
      | error e =>
        refine .refused fun other h => ?_
        obtain rfl := Option.some.inj (hdeclared.symm.trans h.declared)
        exact absurd (hpointers.symm.trans h.pointers) (by simp)
      | ok _ =>
        cases hsnapshot : snapshotAt s.values source.cascadeDependencies with
        | error e => exact .begun
        | ok snapshot =>
          simp only
          split
          · exact .awaits ⟨hdeclared, Bool.eq_false_iff.mpr hproducer, hpointers⟩ hsnapshot
          · exact .noted snapshot

theorem heldStep_requestOptions {requested : String} {built : Bool} :
    HeldStep contract s (.requestOptions requested built)
      (requestOptions contract s requested built).2 field := by
  generalize hresult : (requestOptions contract s requested built).2 = result
  have hstep := hresult ▸ requestStep contract s requested built
  cases hstep <;> exact .of_eq rfl rfl rfl

/-- The answer to a request: there is none, or its call has returned, with or without a response that
is accepted. -/
inductive ResponseStep (contract : EvaluatorContract) (s : EvaluatorState) (field : String)
    (generation : ℕ) (outcome : CallOutcome) : EvaluatorState → Prop where
  | ignored : ResponseStep contract s field generation outcome s
  | ended : ResponseStep contract s field generation outcome (s.endRequest field generation)
  | popped : ResponseStep contract s field generation outcome
    ((s.endRequest field generation).popSnapshot field generation)
  | accepted {source : CompiledOptionSource} {response : Json} {options : List Fields} {token : Json}
    (houtcome : outcome = .returned response) (hsource : contract.sourceOf field = some source)
    (hrequest : (field, generation) ∈ s.requests)
    (haccepted : acceptedOptions source s field generation response = .ok (some (options, token))) :
    ResponseStep contract s field generation outcome
      (((s.endRequest field generation).popSnapshot field generation).holdOptions field options token)

theorem responseStep (contract : EvaluatorContract) (s : EvaluatorState) (field : String)
    (generation : ℕ) (outcome : CallOutcome) : ResponseStep contract s field generation outcome
      (optionsRespond contract s field generation outcome).2 := by
  unfold optionsRespond
  cases hsource : contract.sourceOf field with
  | none => exact .ignored
  | some source =>
    simp only
    split
    · rename_i hrequest
      cases outcome with
      | cancelled => exact .popped
      | failed => exact .popped
      | returned response =>
        simp only
        split
        · cases haccepted : acceptedOptions source s field generation response with
          | error e => cases e <;> exact .popped
          | ok found =>
            cases found with
            | none => exact .popped
            | some projected => exact .accepted rfl hsource hrequest haccepted
        · exact .ended
    · exact .ignored

theorem heldStep_optionsRespond {responding : String} {generation : ℕ} {outcome : CallOutcome} :
    HeldStep contract s (.optionsRespond responding generation outcome)
      (optionsRespond contract s responding generation outcome).2 field := by
  generalize hresult : (optionsRespond contract s responding generation outcome).2 = result
  have hstep := hresult ▸ responseStep contract s responding generation outcome
  cases hstep with
  | ignored => exact .of_eq rfl rfl rfl
  | ended => exact .of_eq rfl rfl rfl
  | popped => exact .of_eq rfl rfl rfl
  | @accepted source response options token houtcome hsource hrequest haccepted =>
    by_cases hsame : field = responding
    · subst hsame
      refine .accepted (by rw [houtcome]) hsource hrequest haccepted (Table.get?_put_self _ _ _) ?_ rfl
      change Table.get? field (if token = .null then s.pagingTokens
        else s.pagingTokens.put field token) = _
      split
      · rfl
      · exact Table.get?_put_self _ _ _
    · refine .same (Table.get?_put_of_ne hsame _ _) ?_ fun _ => .refl _
      change Table.get? field (if token = .null then s.pagingTokens
        else s.pagingTokens.put responding token) = _
      split
      · rfl
      · exact Table.get?_put_of_ne hsame _ _

theorem dependenciesKept_applyEach {conditions : List CompiledCondition}
    {semantics : Table String FieldSemantics} {values : Json}
    (hapart : ∀ pointer ∈ contract.appliedResets conditions values,
      contract.ApartFrom field pointer) :
    DependenciesKept contract field values (applyEach contract conditions semantics values).2 := by
  induction conditions generalizing semantics values with
  | nil => exact .refl _
  | cons condition rest ih =>
    unfold applyEach
    unfold EvaluatorContract.appliedResets at hapart
    split
    · exact .refl _
    rename_i hdeclared
    rw [if_neg hdeclared] at hapart
    cases hmatched : evaluateCondition condition.expression (objectFields values) with
    | error e => exact .refl _
    | ok matched =>
      simp only [hmatched] at hapart ⊢
      by_cases hreset : condition.target = .reset
      · cases matched with
        | false =>
          rw [if_neg (by simp)] at hapart
          simpa only [hreset, if_true, Bool.false_eq_true, if_false] using ih hapart
        | true =>
          rw [if_pos ⟨hreset, rfl⟩] at hapart
          obtain ⟨hfirst, hrest⟩ := List.forall_mem_cons.mp hapart
          simp only [hreset, if_true]
          cases hdelete : deletePointer values condition.targetPointer with
          | error e => exact .refl _
          | ok remaining =>
            rw [hdelete] at hrest
            exact (dependenciesKept_delete hfirst hdelete).trans (ih hrest)
      · rw [if_neg (fun h => hreset h.1)] at hapart
        simpa only [hreset, if_false] using ih hapart

theorem heldStep_applyConditions (hcareful : contract.Careful s .applyConditions) :
    HeldStep contract s .applyConditions (applyConditions contract s).2 field :=
  .same rfl rfl fun hheld => dependenciesKept_applyEach fun pointer hmem =>
    hcareful pointer hmem field hheld

theorem heldStep_relatedResponds {load : ℕ} {outcome : CallOutcome}
    (hcareful : contract.Careful s (.relatedResponds load outcome)) :
    HeldStep contract s (.relatedResponds load outcome) (relatedResponds s load outcome).2 field := by
  unfold relatedResponds
  cases hload : s.loads[load]? with
  | none => exact .of_eq rfl rfl rfl
  | some waiting =>
    obtain ⟨binding, remaining, outcomes⟩ := waiting
    cases outcome with
    | cancelled => exact .of_eq rfl rfl rfl
    | failed =>
      simp only
      split <;> exact .of_eq rfl rfl rfl
    | returned response =>
      simp only
      cases hread : readPointer response binding.outputPointer with
      | error e => exact .of_eq rfl rfl rfl
      | ok found =>
        cases found with
        | none => exact .of_eq rfl rfl rfl
        | some value =>
          simp only
          cases hwrite : writePointer s.values binding.targetPointer value with
          | error e => exact .of_eq rfl rfl rfl
          | ok values =>
            refine .same rfl rfl fun hheld => ?_
            exact dependenciesKept_write (hcareful _ value hload hread field hheld) hwrite

/-- What a careful step does to the options of a field. -/
theorem heldStep {event : EvaluatorEvent} (hcareful : contract.Careful s event) :
    HeldStep contract s event (contract.step s event).2 field := by
  cases event with
  | setValue changed value => exact heldStep_setValue hcareful
  | requestOptions requested built => exact heldStep_requestOptions
  | optionsRespond responding generation outcome => exact heldStep_optionsRespond
  | applyConditions => exact heldStep_applyConditions hcareful
  | loadRelatedData => exact .of_eq rfl rfl rfl
  | relatedResponds load outcome => exact heldStep_relatedResponds hcareful

end Held

/-! Requests whose calls have not returned. -/

section Requests
variable {contract : EvaluatorContract} {values : Json} {events : List EvaluatorEvent}

theorem EvaluatorContract.after_concat (event : EvaluatorEvent) :
    contract.after values (events ++ [event]) =
      (contract.step (contract.after values events) event).2 := by
  rw [after, Machine.after_append]
  rfl

/-- The request was made in a state of the run, in which its snapshot was taken. As long as the
generation of the field is its own, it is the latest one. -/
def IssuedAt (contract : EvaluatorContract) (values : Json) (events : List EvaluatorEvent)
    (s : EvaluatorState) (field : String) (generation : ℕ) : Prop :=
  ∃ source before built between snapshot, Requestable contract field source ∧
    events = before ++ .requestOptions field built :: between ∧
    generation = (contract.after values before).nextGeneration field ∧
    snapshotAt (contract.after values before).values source.cascadeDependencies = .ok snapshot ∧
    s.snapshots.get? (field, generation) = some snapshot ∧
    (s.generationOf field = generation → ∀ built, .requestOptions field built ∉ between)

structure Issued (contract : EvaluatorContract) (values : Json) (events : List EvaluatorEvent)
    (s : EvaluatorState) : Prop where
  nodup : s.requests.Nodup
  generation_le : ∀ field generation, (field, generation) ∈ s.requests →
    generation ≤ s.generationOf field
  issued : ∀ field generation, (field, generation) ∈ s.requests →
    IssuedAt contract values events s field generation

variable {s next : EvaluatorState} {event : EvaluatorEvent}

/-- A later event leaves a request as it is; a later request for its field has a later generation. -/
theorem IssuedAt.extend {field : String} {generation : ℕ}
    (h : IssuedAt contract values events s field generation)
    (hle : generation ≤ s.generationOf field)
    (hmono : s.generationOf field ≤ next.generationOf field)
    (hsnapshot : next.snapshots.get? (field, generation) = s.snapshots.get? (field, generation))
    (hlater : ∀ source built, Requestable contract field source →
      event = .requestOptions field built → s.generationOf field < next.generationOf field) :
    IssuedAt contract values (events ++ [event]) next field generation := by
  obtain ⟨source, before, built, between, snapshot, hfield, hevents, hgeneration, htaken, hnoted,
    hlatest⟩ := h
  refine ⟨source, before, built, between ++ [event], snapshot, hfield, ?_, hgeneration, htaken,
    hsnapshot.trans hnoted, fun hcurrent => ?_⟩
  · rw [hevents, List.append_assoc, List.cons_append]
  · have hsame : s.generationOf field = generation := by omega
    intro built hmem
    rcases List.mem_append.mp hmem with hmem | hmem
    · exact hlatest hsame built hmem
    · have hevent := (List.mem_singleton.mp hmem).symm
      have hlt := hlater source built hfield hevent
      omega

/-- A step that keeps the requests and the snapshots. -/
theorem Issued.keep (h : Issued contract values events s) (hrequests : next.requests = s.requests)
    (hsnapshots : next.snapshots = s.snapshots)
    (hmono : ∀ field, s.generationOf field ≤ next.generationOf field)
    (hevent : ∀ field built, event ≠ .requestOptions field built) :
    Issued contract values (events ++ [event]) next where
  nodup := hrequests ▸ h.nodup
  generation_le field generation hmem := by
    rw [hrequests] at hmem
    exact (h.generation_le field generation hmem).trans (hmono field)
  issued field generation hmem := by
    rw [hrequests] at hmem
    exact (h.issued field generation hmem).extend (h.generation_le field generation hmem)
      (hmono field) (by rw [hsnapshots]) fun source built _ hsame => absurd hsame (hevent field built)

theorem issued_setValue (h : Issued contract values events s) {changed : String} {value : Json} :
    Issued contract values (events ++ [.setValue changed value])
      (setValue contract s changed value).2 := by
  unfold setValue
  split
  · exact h.keep rfl rfl (fun _ => Nat.le_refl _) (by simp)
  cases hwrite : writePointer s.values changed value with
  | error e => exact h.keep rfl rfl (fun _ => Nat.le_refl _) (by simp)
  | ok written =>
    simp only
    cases EvaluatorContract.readDependencies contract.fields with
    | error e => exact h.keep rfl rfl (fun _ => Nat.le_refl _) (by simp)
    | ok _ =>
      obtain ⟨cascade, hcascade⟩ := Option.isSome_iff_exists.mp
        (invalidateCascade_isSome contract changed { s with values := written })
      simp only [hcascade, Option.get_some]
      have hsound := invalidateCascade_sound hcascade
      exact h.keep hsound.requests hsound.snapshots hsound.generations (by simp)

theorem generationOf_beginRequest (field other : String) :
    (s.beginRequest field).generationOf other =
      if other = field then s.nextGeneration field else s.generationOf other := by
  unfold EvaluatorState.generationOf EvaluatorState.beginRequest
  simp only [Table.get?_put]
  split <;> rfl

theorem generationOf_lt_next (field : String) : s.generationOf field < s.nextGeneration field :=
  Nat.lt_succ_self _

/-- A request that begins leaves the ones before it. -/
theorem Issued.begin (h : Issued contract values events s) {field : String} {built : Bool}
    {waiting : String × ℕ} (hwaiting : waiting ∈ s.requests)
    (hgenerations : ∀ other, next.generationOf other = (s.beginRequest field).generationOf other)
    (hsnapshots : ∀ key, key ≠ (field, s.nextGeneration field) →
      next.snapshots.get? key = s.snapshots.get? key) :
    waiting.2 ≤ next.generationOf waiting.1 ∧
      IssuedAt contract values (events ++ [.requestOptions field built]) next waiting.1 waiting.2 := by
  have hle := h.generation_le waiting.1 waiting.2 hwaiting
  have hnext := hgenerations waiting.1
  rw [generationOf_beginRequest] at hnext
  have hlt := generationOf_lt_next (s := s) field
  have hmono : s.generationOf waiting.1 ≤ next.generationOf waiting.1 := by
    rw [hnext]
    split
    · rename_i hsame
      rw [hsame]
      omega
    · exact Nat.le_refl _
  refine ⟨hle.trans hmono, ?_⟩
  refine (h.issued waiting.1 waiting.2 hwaiting).extend hle hmono (hsnapshots _ ?_) ?_
  · rintro hsame
    obtain ⟨hfield, hgeneration⟩ := Prod.ext_iff.mp hsame
    simp only at hfield hgeneration
    rw [hfield] at hle
    omega
  · intro source other hfield hevent
    obtain ⟨hsame, -⟩ := EvaluatorEvent.requestOptions.inj hevent
    rw [hnext, if_pos hsame.symm, ← hsame]
    exact hlt

theorem issued_requestOptions (h : Issued contract values events s)
    (hs : s = contract.after values events) {field : String} {built : Bool} :
    Issued contract values (events ++ [.requestOptions field built])
      (requestOptions contract s field built).2 := by
  generalize hresult : (requestOptions contract s field built).2 = result
  have hstep := hresult ▸ requestStep contract s field built
  cases hstep with
  | refused hrefused =>
    refine ⟨h.nodup, h.generation_le, fun other generation hmem => ?_⟩
    refine (h.issued other generation hmem).extend (h.generation_le other generation hmem)
      (Nat.le_refl _) rfl ?_
    intro source _ hfield hevent
    obtain ⟨rfl, -⟩ := EvaluatorEvent.requestOptions.inj hevent
    exact absurd hfield (hrefused source)
  | begun =>
    have hkept := fun (other : String) (generation : ℕ) (hmem : (other, generation) ∈ s.requests) =>
      @Issued.begin _ _ _ _ (s.beginRequest field) h field built _ hmem (fun _ => rfl)
        (fun _ _ => rfl)
    exact ⟨h.nodup, fun other generation hmem => (hkept other generation hmem).1,
      fun other generation hmem => (hkept other generation hmem).2⟩
  | noted snapshot =>
    have hkept := fun (other : String) (generation : ℕ) (hmem : (other, generation) ∈ s.requests) =>
      @Issued.begin _ _ _ _ ((s.beginRequest field).noteSnapshot field (s.nextGeneration field)
        snapshot) h field built _ hmem (fun _ => rfl) (fun key hkey => Table.get?_put_of_ne hkey _ _)
    exact ⟨h.nodup, fun other generation hmem => (hkept other generation hmem).1,
      fun other generation hmem => (hkept other generation hmem).2⟩
  | @awaits source snapshot hfield hsnapshot =>
    have hkept := fun (other : String) (generation : ℕ) (hmem : (other, generation) ∈ s.requests) =>
      @Issued.begin _ _ _ _ (((s.beginRequest field).noteSnapshot field (s.nextGeneration field)
        snapshot).awaitResponse field (s.nextGeneration field)) h field built _ hmem (fun _ => rfl)
        (fun key hkey => Table.get?_put_of_ne hkey _ _)
    have hcurrent : (s.beginRequest field).generationOf field = s.nextGeneration field := by
      rw [generationOf_beginRequest, if_pos rfl]
    refine ⟨List.nodup_cons.mpr ⟨fun hmem => ?_, h.nodup⟩, fun other generation hmem => ?_,
      fun other generation hmem => ?_⟩
    · have hle := h.generation_le field _ hmem
      have hlt := generationOf_lt_next (s := s) field
      omega
    · rcases List.mem_cons.mp hmem with hnew | hmem
      · obtain ⟨rfl, rfl⟩ := Prod.mk.inj hnew
        exact hcurrent.ge
      · exact (hkept other generation hmem).1
    · rcases List.mem_cons.mp hmem with hnew | hmem
      · obtain ⟨rfl, rfl⟩ := Prod.mk.inj hnew
        subst hs
        refine ⟨source, events, built, [], snapshot, hfield, rfl, rfl, hsnapshot,
          Table.get?_put_self _ _ _, ?_⟩
        exact fun _ _ hmem => absurd hmem List.not_mem_nil
      · exact (hkept other generation hmem).2

theorem Issued.end (h : Issued contract values events s) {field : String} {generation : ℕ}
    {outcome : CallOutcome} (hrequests : next.requests = s.requests.erase (field, generation))
    (hgenerations : next.generations = s.generations)
    (hsnapshots : ∀ key, key ≠ (field, generation) →
      next.snapshots.get? key = s.snapshots.get? key) :
    Issued contract values (events ++ [.optionsRespond field generation outcome]) next where
  nodup := hrequests ▸ h.nodup.erase _
  generation_le other later hmem := by
    rw [hrequests] at hmem
    have hle := h.generation_le other later (List.mem_of_mem_erase hmem)
    rwa [EvaluatorState.generationOf, hgenerations]
  issued other later hmem := by
    rw [hrequests] at hmem
    obtain ⟨hne, hmem⟩ := h.nodup.mem_erase_iff.mp hmem
    refine (h.issued other later hmem).extend (h.generation_le other later hmem) ?_
      (hsnapshots _ hne) (by simp)
    rw [EvaluatorState.generationOf, EvaluatorState.generationOf, hgenerations]

theorem issued_optionsRespond (h : Issued contract values events s) {field : String}
    {generation : ℕ} {outcome : CallOutcome} :
    Issued contract values (events ++ [.optionsRespond field generation outcome])
      (optionsRespond contract s field generation outcome).2 := by
  generalize hresult : (optionsRespond contract s field generation outcome).2 = result
  have hstep := hresult ▸ responseStep contract s field generation outcome
  cases hstep with
  | ignored => exact h.keep rfl rfl (fun _ => Nat.le_refl _) (by simp)
  | ended => exact h.end rfl rfl fun _ _ => rfl
  | popped => exact h.end rfl rfl fun key hkey => Table.get?_erase_of_ne hkey _
  | accepted => exact h.end rfl rfl fun key hkey => Table.get?_erase_of_ne hkey _

theorem issued_relatedResponds (h : Issued contract values events s) {load : ℕ}
    {outcome : CallOutcome} :
    Issued contract values (events ++ [.relatedResponds load outcome])
      (relatedResponds s load outcome).2 := by
  have hsame : ∀ next : EvaluatorState, next.requests = s.requests →
      next.snapshots = s.snapshots → next.generations = s.generations →
      Issued contract values (events ++ [.relatedResponds load outcome]) next := by
    intro next hrequests hsnapshots hgenerations
    refine h.keep hrequests hsnapshots (fun field => ?_) (by simp)
    rw [EvaluatorState.generationOf, EvaluatorState.generationOf, hgenerations]
  unfold relatedResponds
  cases s.loads[load]? with
  | none => exact hsame _ rfl rfl rfl
  | some waiting =>
    obtain ⟨binding, remaining, outcomes⟩ := waiting
    cases outcome with
    | cancelled => exact hsame _ rfl rfl rfl
    | failed =>
      simp only
      split <;> exact hsame _ rfl rfl rfl
    | returned response =>
      simp only
      cases readPointer response binding.outputPointer with
      | error e => exact hsame _ rfl rfl rfl
      | ok found =>
        cases found with
        | none => exact hsame _ rfl rfl rfl
        | some value =>
          simp only
          cases writePointer s.values binding.targetPointer value with
          | error e => exact hsame _ rfl rfl rfl
          | ok written => exact hsame _ rfl rfl rfl

/-- Each request of a run that has not returned was made in it. -/
theorem issued (values : Json) (events : List EvaluatorEvent) :
    Issued contract values events (contract.after values events) := by
  induction events using List.reverseRecOn with
  | nil => exact ⟨List.nodup_nil, by simp [EvaluatorContract.after, Machine.after,
      EvaluatorState.initial], by simp [EvaluatorContract.after, Machine.after,
      EvaluatorState.initial]⟩
  | append_singleton events event ih =>
    rw [EvaluatorContract.after_concat]
    cases event with
    | setValue changed value => exact issued_setValue ih
    | requestOptions field built => exact issued_requestOptions ih rfl
    | optionsRespond field generation outcome => exact issued_optionsRespond ih
    | applyConditions => exact ih.keep rfl rfl (fun _ => Nat.le_refl _) (by simp)
    | loadRelatedData => exact ih.keep rfl rfl (fun _ => Nat.le_refl _) (by simp)
    | relatedResponds load outcome => exact issued_relatedResponds ih

end Requests
/-! Runs. -/

section Runs
variable {contract : EvaluatorContract} {values : Json} {events : List EvaluatorEvent}
  {field : String} {s : EvaluatorState}

/-- A snapshot has the values that were read. -/
theorem readPointer_of_snapshotAt {pointers : List String} {snapshot : OptionSnapshot}
    (hsnapshot : snapshotAt values pointers = .ok snapshot) {pointer : String}
    {found : Option Json} (hfound : snapshot.get? pointer = some found) :
    readPointer values pointer = .ok found := by
  induction pointers generalizing snapshot with
  | nil =>
    obtain rfl := Except.ok.inj hsnapshot
    cases hfound
  | cons first rest ih =>
    obtain ⟨value, hvalue, hsnapshot⟩ := exists_of_bind hsnapshot
    obtain ⟨others, hothers, hsnapshot⟩ := exists_of_bind hsnapshot
    obtain rfl := Except.ok.inj hsnapshot
    rw [Table.get?_cons] at hfound
    split at hfound
    · rename_i hsame
      rw [← hsame, ← Option.some.inj hfound]
      exact hvalue
    · exact ih hothers hfound

theorem exists_of_dependenciesKept {snapshot : OptionSnapshot} {pointers : List String}
    (hkept : dependenciesKept snapshot values pointers = .ok true) {pointer : String}
    (hmem : pointer ∈ pointers) : ∃ before now, snapshot.get? pointer = some (some before) ∧
      readPointer values pointer = .ok (some now) := by
  induction pointers with
  | nil => exact absurd hmem List.not_mem_nil
  | cons first rest ih =>
    obtain ⟨found, hfound, hkept⟩ := exists_of_bind hkept
    split at hkept
    · rename_i hstill
      rcases List.mem_cons.mp hmem with rfl | hmem
      · cases hbefore : snapshot.get? pointer with
        | none => simp [hbefore, stillThere] at hstill
        | some before =>
          cases before with
          | none => simp [hbefore, stillThere] at hstill
          | some before =>
            cases found with
            | none => simp [hbefore, stillThere] at hstill
            | some now => exact ⟨before, now, rfl, hfound⟩
      · exact ih hkept hmem
    · cases hkept

/-- An accepted response is one to the latest request, for equal values. -/
theorem of_acceptedOptions {source : CompiledOptionSource} {generation : ℕ} {response : Json}
    {options : List Fields} {token : Json}
    (h : acceptedOptions source s field generation response = .ok (some (options, token))) :
    s.generationOf field = generation ∧
      dependenciesKept ((s.snapshots.get? (field, generation)).getD []) s.values
        source.cascadeDependencies = .ok true ∧
      projectOptions source response = .ok options ∧
      paginationResponse source response = .ok token := by
  unfold acceptedOptions at h
  split at h
  · rename_i hgeneration
    obtain ⟨kept, hkept, h⟩ := exists_of_bind h
    cases kept with
    | false => cases h
    | true =>
      obtain ⟨projected, hprojected, h⟩ := exists_of_bind h
      obtain ⟨paged, hpaged, h⟩ := exists_of_bind h
      obtain ⟨rfl, rfl⟩ := Prod.mk.inj (Option.some.inj (Except.ok.inj h))
      exact ⟨by rw [EvaluatorState.generationOf, hgeneration, Option.getD_some], hkept, hprojected,
        hpaged⟩
  · cases h

/-- What is held was answered before; the event leaves the values it depends on. -/
theorem EvaluatorContract.AnsweredBy.extend {source : CompiledOptionSource} {options : List Fields}
    {token : Json} (h : contract.AnsweredBy values events field source options token)
    (event : EvaluatorEvent)
    (hkept : ∀ dependency ∈ source.cascadeDependencies,
      readPointer (contract.after values (events ++ [event])).values dependency =
        readPointer (contract.after values events).values dependency) :
    contract.AnsweredBy values (events ++ [event]) field source options token := by
  obtain ⟨before, built, between, response, later, hevents, hlatest, hoptions, htoken, hsame⟩ := h
  refine ⟨before, built, between, response, later ++ [event], ?_, hlatest, hoptions, htoken,
    fun dependency hmem => ?_⟩
  · nth_rewrite 1 [hevents]
    simp only [List.append_assoc, List.cons_append]
  · rw [hkept dependency hmem]
    exact hsame dependency hmem

/-- A response that is accepted with equal values answers the latest request. -/
theorem answeredBy_of_accepted {source : CompiledOptionSource} {generation : ℕ} {response : Json}
    {options : List Fields} {token : Json} (hsource : contract.sourceOf field = some source)
    (hrequest : (field, generation) ∈ (contract.after values events).requests)
    (haccepted : acceptedOptions source (contract.after values events) field generation response =
      .ok (some (options, token)))
    (hequal : ∀ dependency ∈ source.cascadeDependencies, ∀ before now,
      (((contract.after values events).snapshots.get? (field, generation)).getD []).get? dependency =
        some (some before) →
      readPointer (contract.after values events).values dependency = .ok (some now) →
      jsonEqual before now = true)
    (hvalues : (contract.after values (events ++
      [.optionsRespond field generation (.returned response)])).values =
        (contract.after values events).values) :
    contract.AnsweredBy values (events ++ [.optionsRespond field generation (.returned response)])
      field source options token := by
  obtain ⟨hcurrent, hkept, hoptions, htoken⟩ := of_acceptedOptions haccepted
  obtain ⟨found, before, built, between, snapshot, hfield, hevents, hgeneration, htaken, hnoted,
    hlatest⟩ := (issued values events).issued field generation hrequest
  obtain rfl := Option.some.inj (hsource.symm.trans hfield.declared)
  refine ⟨before, built, between, response, [], ?_, hlatest hcurrent, hoptions, htoken,
    fun dependency hmem => ?_⟩
  · nth_rewrite 1 [hevents]
    rw [← hgeneration, List.append_assoc, List.cons_append]
  · obtain ⟨old, now, hold, hnow⟩ := exists_of_dependenciesKept hkept hmem
    rw [hvalues]
    refine ⟨old, now, ?_, hnow, hequal dependency hmem old now hold hnow⟩
    rw [hnoted] at hold
    exact readPointer_of_snapshotAt htaken hold

/-- In every run of careful steps, the options that are held are fresh in every state. -/
theorem EvaluatorContract.fresh_of_careful
    (hrun : Machine.Along contract.step contract.Careful (.initial values) events) (field : String) :
    contract.Fresh values events field := by
  induction events using List.reverseRecOn with
  | nil =>
    intro hheld
    rcases hheld with hoptions | htoken
    · exact absurd rfl hoptions
    · exact absurd rfl htoken
  | append_singleton events event ih =>
    obtain ⟨hbefore, hcareful, -⟩ := Machine.Along.append.mp hrun
    change contract.Careful (contract.after values events) event at hcareful
    have hstep : HeldStep contract (contract.after values events) event
        (contract.step (contract.after values events) event).2 field := heldStep hcareful
    rw [← after_concat] at hstep
    intro hheld
    cases hstep with
    | same hoptions htoken hkept =>
      have hheld : (contract.after values events).Holds field := by
        rwa [EvaluatorState.Holds, hoptions, htoken] at hheld
      obtain ⟨source, options, token, hsource, hfound, hpaged, hanswered⟩ := ih hbefore hheld
      exact ⟨source, options, token, hsource, hoptions.trans hfound, htoken.trans hpaged,
        hanswered.extend event (hkept hheld source hsource)⟩
    | dropped hdropped => exact absurd hheld hdropped
    | @accepted source generation response options token hevent hsource hrequest haccepted hoptions
        htoken hvalues =>
      subst hevent
      obtain ⟨hequal, hpaged⟩ := hcareful source options token hsource haccepted
      refine ⟨source, options, token, hsource, hoptions, htoken.trans ?_,
        answeredBy_of_accepted hsource hrequest haccepted hequal hvalues⟩
      split
      · rename_i hnull
        exact hpaged hnull
      · rfl

end Runs
/-! Cities of a country that related data overwrite. -/

def citySource : CompiledOptionSource where
  producerId := some "list-cities"
  cascadeDependencies := ["/country"]
  emptyBehavior := .preserveSelection
  itemsPointer := none
  valuePointer := "/id"
  labelPointer := "/name"
  disabledPointer := none
  groupPointer := none
  responsePointer := none

def cityContract : EvaluatorContract where
  fields := [("/country", none), ("/city", some citySource)]
  conditions := []
  relatedData := [
    { id := "home"
      producerId := "read-profile"
      outputPointer := "/country"
      targetPointer := "/country"
      failFast := false }]

def inGermany : Json := .obj [("country", .str "DE")]

def germanCities : Json := .arr [.obj [("id", .str "B"), ("name", .str "Berlin")]]

def citiesLoaded : List EvaluatorEvent :=
  [.requestOptions "/city" true, .optionsRespond "/city" 1 (.returned germanCities)]

theorem EvaluatorContract.fresh_of_careful_cities :
    (cityContract.after inGermany citiesLoaded).Holds "/city" ∧
      cityContract.Fresh inGermany citiesLoaded "/city" := by
  have hcareful : Machine.Along cityContract.step cityContract.Careful (.initial inGermany)
      citiesLoaded := by
    refine ⟨trivial, ?_, trivial⟩
    intro source options token hsource haccepted
    obtain rfl := Option.some.inj hsource
    refine ⟨fun dependency hmem before now hbefore hnow => ?_, fun _ => rfl⟩
    obtain rfl := List.mem_singleton.mp hmem
    obtain rfl := Option.some.inj (Option.some.inj hbefore)
    obtain rfl := Option.some.inj (Except.ok.inj hnow)
    rfl
  exact ⟨.inl (by decide +kernel), fresh_of_careful hcareful "/city"⟩

/-- The cities of Germany stay when the country becomes France. -/
theorem EvaluatorContract.german_cities_kept : ¬ ∀ contract values events field,
    EvaluatorContract.Fresh contract values events field := by
  intro hall
  obtain ⟨source, options, token, hsource, -, -, before, built, between, response, later, hevents,
    -, -, -, hsame⟩ := hall cityContract inGermany
      (citiesLoaded ++ [.loadRelatedData, .relatedResponds 0 (.returned (.obj [("country", .str "FR")]))])
      "/city" (.inl (by decide +kernel))
  obtain rfl := Option.some.inj hsource
  cases before with
  | nil =>
    obtain ⟨old, now, hold, hnow, hequal⟩ := hsame "/country" List.mem_cons_self
    obtain rfl := Option.some.inj (Except.ok.inj hold)
    obtain rfl := Option.some.inj (Except.ok.inj hnow)
    cases hequal
  | cons event rest =>
    have hmem := congrArg (EvaluatorEvent.requestOptions "/city" built ∈ List.tail ·) hevents
    simp [citiesLoaded] at hmem

end CapabilityCompiler.Interactions
