import CapabilityCompiler.Foundation.Machine
import CapabilityCompiler.Foundation.Worklist
import CapabilityCompiler.Interactions.Contracts
import CapabilityCompiler.Interactions.PointerUpdates

/-! The headless evaluator of an interaction: its values, and the options it holds for fields. What
callers do is a sequence of events; between a request and its response there may be any others. -/
namespace CapabilityCompiler.Interactions
open Foundation Json

/-! Contracts. -/

/-- What the evaluator needs of a compiled option source; static sources have no producer, and
sources without pagination have no pointer to the next page. -/
structure CompiledOptionSource where
  producerId : Option String
  cascadeDependencies : List String
  emptyBehavior : EmptyBehavior
  itemsPointer : Option String
  valuePointer : String
  labelPointer : String
  disabledPointer : Option String
  groupPointer : Option String
  responsePointer : Option String

structure CompiledCondition where
  target : ConditionTarget
  targetPointer : String
  expression : Fields

structure CompiledRelatedData where
  id : String
  producerId : String
  outputPointer : String
  targetPointer : String
  failFast : Bool

/-- A compiled contract: its fields with their option sources. -/
structure EvaluatorContract where
  fields : Table String (Option CompiledOptionSource)
  conditions : List CompiledCondition
  relatedData : List CompiledRelatedData

namespace EvaluatorContract
variable (contract : EvaluatorContract)

/-- The option source of a field that has one. -/
def sourceOf (field : String) : Option CompiledOptionSource :=
  (contract.fields.get? field).join

/-- The pointers of a collection are checked one by one. -/
def pointerSequence : List String → Except ConditionError Unit
  | [] => .ok ()
  | pointer :: rest => do
    let _ ← evaluatorTokens pointer
    pointerSequence rest

/-- Looking for the dependents of a field reads the dependencies of all of them. -/
def readDependencies : Table String (Option CompiledOptionSource) → Except ConditionError Unit
  | [] => .ok ()
  | (_, none) :: rest => readDependencies rest
  | (_, some source) :: rest => do
    pointerSequence source.cascadeDependencies
    readDependencies rest

def dependsOn (changed : String) (entry : String × Option CompiledOptionSource) : Bool :=
  match entry.2 with
  | some source => decide (changed ∈ source.cascadeDependencies)
  | none => false

def cascadeDependents (changed : String) : List String :=
  Text.sortedSet ((contract.fields.filter (dependsOn changed)).map Prod.fst)

end EvaluatorContract

/-! States. -/

/-- The values at the dependencies of a field; nothing where there is none. -/
abbrev OptionSnapshot := Table String (Option Json)

/-- A call of `load_related_data` that waits for its next producer. -/
structure RelatedLoad where
  binding : CompiledRelatedData
  remaining : List CompiledRelatedData
  outcomes : Table String String

/-- The evaluator, with the requests and loads whose calls have not returned yet. -/
structure EvaluatorState where
  values : Json
  generations : Table String ℕ
  snapshots : Table (String × ℕ) OptionSnapshot
  options : Table String (List Fields)
  pagingTokens : Table String Json
  requests : List (String × ℕ)
  loads : List RelatedLoad

namespace EvaluatorState

def initial (values : Json) : EvaluatorState where
  values := values
  generations := []
  snapshots := []
  options := []
  pagingTokens := []
  requests := []
  loads := []

def generationOf (s : EvaluatorState) (field : String) : ℕ := (s.generations.get? field).getD 0

def nextGeneration (s : EvaluatorState) (field : String) : ℕ := s.generationOf field + 1

/-- A new generation begins for a field, without options. -/
def dropOptions (s : EvaluatorState) (field : String) : EvaluatorState :=
  { s with
    generations := s.generations.put field (s.nextGeneration field)
    options := s.options.erase field }

end EvaluatorState

/-! Answers. -/

structure FieldSemantics where
  visible : Bool
  enabled : Bool
  required : Bool

inductive EvaluatorAnswer where
  | done
  | waiting
  | resolved (accepted : Bool)
  | semantics (fields : Table String FieldSemantics)
  | outcomes (outcomes : Table String String)
  | raised (error : ConditionError)
  | cancelled

/-! The cascade. -/

structure Cascade where
  evaluator : EvaluatorState
  visited : List String
  failure : Option ConditionError

def clearsSelection (contract : EvaluatorContract) (field : String) : Bool :=
  match contract.sourceOf field with
  | some source => decide (source.emptyBehavior = .clearSelection)
  | none => false

/-- A dependent field has a new generation and no options; a field whose selection is cleared is
passed on. An exception ends the cascade. -/
def invalidate (contract : EvaluatorContract) (_changed dependent : String) (cascade : Cascade) :
    Cascade × Bool :=
  if dependent ∈ cascade.visited ∨ cascade.failure.isSome = true then (cascade, false)
  else if clearsSelection contract dependent = true then
    match deletePointer cascade.evaluator.values dependent with
    | .ok values =>
      ({ evaluator := { cascade.evaluator.dropOptions dependent with values }
         visited := dependent :: cascade.visited
         failure := none }, true)
    | .error e =>
      ({ evaluator := cascade.evaluator.dropOptions dependent
         visited := dependent :: cascade.visited
         failure := some e }, false)
  else
    ({ evaluator := cascade.evaluator.dropOptions dependent
       visited := dependent :: cascade.visited
       failure := none }, false)

/-- Every field is visited at most once. -/
def invalidateCascade (contract : EvaluatorContract) (changed : String) (s : EvaluatorState) :
    Option Cascade :=
  Worklist.run contract.cascadeDependents (invalidate contract) (1 + contract.fields.length)
    [changed] { evaluator := s, visited := [], failure := none }

/-- The fields visited so far are fields of the contract, and none was visited twice. -/
structure Visited (contract : EvaluatorContract) (cascade : Cascade) : Prop where
  nodup : cascade.visited.Nodup
  declared : cascade.visited ⊆ contract.fields.map Prod.fst

section Cascades
variable {contract : EvaluatorContract}

theorem mem_cascadeDependents {changed dependent : String} :
    dependent ∈ contract.cascadeDependents changed ↔
      ∃ source, (dependent, some source) ∈ contract.fields ∧
        changed ∈ source.cascadeDependencies := by
  simp only [EvaluatorContract.cascadeDependents, Text.mem_sortedSet, List.mem_map, List.mem_filter]
  constructor
  · rintro ⟨⟨field, source⟩, ⟨hmem, hdepends⟩, rfl⟩
    cases source with
    | none => cases hdepends
    | some source => exact ⟨source, hmem, of_decide_eq_true hdepends⟩
  · rintro ⟨source, hmem, hdepends⟩
    exact ⟨(dependent, some source), ⟨hmem, decide_eq_true hdepends⟩, rfl⟩

/-- What an update does. -/
inductive Invalidation (contract : EvaluatorContract) (dependent : String) (cascade : Cascade) :
    Cascade × Bool → Prop where
  | done (h : dependent ∈ cascade.visited ∨ cascade.failure.isSome = true) :
    Invalidation contract dependent cascade (cascade, false)
  | kept (hnew : dependent ∉ cascade.visited) (hrunning : cascade.failure = none)
    (hkeeps : clearsSelection contract dependent = false) :
    Invalidation contract dependent cascade
      (⟨cascade.evaluator.dropOptions dependent, dependent :: cascade.visited, none⟩, false)
  | cleared (hnew : dependent ∉ cascade.visited) (hrunning : cascade.failure = none)
    (hclears : clearsSelection contract dependent = true) {values : Json}
    (hdelete : deletePointer cascade.evaluator.values dependent = .ok values) :
    Invalidation contract dependent cascade
      (⟨{ cascade.evaluator.dropOptions dependent with values }, dependent :: cascade.visited, none⟩,
        true)
  | failed (hnew : dependent ∉ cascade.visited) (hrunning : cascade.failure = none)
    (hclears : clearsSelection contract dependent = true) {e : ConditionError}
    (hdelete : deletePointer cascade.evaluator.values dependent = .error e) :
    Invalidation contract dependent cascade
      (⟨cascade.evaluator.dropOptions dependent, dependent :: cascade.visited, some e⟩, false)

theorem invalidation (contract : EvaluatorContract) (changed dependent : String)
    (cascade : Cascade) :
    Invalidation contract dependent cascade (invalidate contract changed dependent cascade) := by
  unfold invalidate
  split
  · rename_i hdone
    exact .done hdone
  rename_i hopen
  obtain ⟨hnew, hfailure⟩ := not_or.mp hopen
  have hrunning : cascade.failure = none := by simpa using hfailure
  split
  · rename_i hclears
    cases hdelete : deletePointer cascade.evaluator.values dependent with
    | ok values => exact .cleared hnew hrunning hclears hdelete
    | error e => exact .failed hnew hrunning hclears hdelete
  · rename_i hkeeps
    exact .kept hnew hrunning (by simpa using hkeeps)

/-- The fields visited grow by the new one. -/
theorem Invalidation.visited_eq {dependent : String} {cascade : Cascade} {result : Cascade × Bool}
    (h : Invalidation contract dependent cascade result) :
    result = (cascade, false) ∨
      dependent ∉ cascade.visited ∧ result.1.visited = dependent :: cascade.visited := by
  cases h with
  | done _ => exact .inl rfl
  | kept hnew => exact .inr ⟨hnew, rfl⟩
  | cleared hnew => exact .inr ⟨hnew, rfl⟩
  | failed hnew => exact .inr ⟨hnew, rfl⟩

theorem Invalidation.visited_subset {dependent : String} {cascade : Cascade}
    {result : Cascade × Bool} (h : Invalidation contract dependent cascade result) :
    cascade.visited ⊆ result.1.visited := by
  rcases h.visited_eq with rfl | ⟨-, hvisited⟩
  · exact fun _ => id
  · rw [hvisited]
    exact List.subset_cons_self _ _

theorem visited_keeps :
    Worklist.Keeps contract.cascadeDependents (invalidate contract) (Visited contract) := by
  intro changed dependent cascade hdependent h
  rcases (invalidation contract changed dependent cascade).visited_eq with hsame | ⟨hnew, hvisited⟩
  · rw [hsame]
    exact h
  · obtain ⟨source, hmem, -⟩ := mem_cascadeDependents.mp hdependent
    constructor
    · rw [hvisited]
      exact List.nodup_cons.mpr ⟨hnew, h.nodup⟩
    · rw [hvisited]
      exact List.cons_subset.mpr ⟨List.mem_map_of_mem hmem, h.declared⟩

theorem invalidate_bounded : Worklist.Bounded contract.cascadeDependents (invalidate contract)
    (Visited contract) (fun cascade => cascade.visited.length) contract.fields.length where
  keeps := visited_keeps
  le_bound cascade h := by
    have hle := (h.nodup.subperm h.declared).length_le
    rwa [List.length_map] at hle
  mono changed dependent cascade _ _ := by
    rcases (invalidation contract changed dependent cascade).visited_eq with hsame | ⟨-, hvisited⟩
    · rw [hsame]
    · rw [hvisited, List.length_cons]
      omega
  grows changed dependent cascade _ _ hpassed := by
    rcases (invalidation contract changed dependent cascade).visited_eq with hsame | ⟨-, hvisited⟩
    · rw [hsame] at hpassed
      cases hpassed
    · rw [hvisited, List.length_cons]
      omega

end Cascades

theorem invalidateCascade_isSome (contract : EvaluatorContract) (changed : String)
    (s : EvaluatorState) : (invalidateCascade contract changed s).isSome = true := by
  refine invalidate_bounded.run_isSome ⟨List.nodup_nil, List.nil_subset _⟩ ?_
  rw [List.length_singleton]
  exact Nat.add_le_add_left (Nat.sub_le _ _) _

/-! Values. -/

def setValue (contract : EvaluatorContract) (s : EvaluatorState) (field : String) (value : Json) :
    EvaluatorAnswer × EvaluatorState :=
  if (contract.fields.get? field).isNone then
    (.raised (.rejected "interaction field is not declared"), s)
  else match writePointer s.values field value with
    | .error e => (.raised e, s)
    | .ok values =>
      let written := { s with values }
      match EvaluatorContract.readDependencies contract.fields with
      | .error e => (.raised e, written)
      | .ok () =>
        let cascade := (invalidateCascade contract field written).get
          (invalidateCascade_isSome contract field written)
        (match cascade.failure with
          | some e => .raised e
          | none => .done, cascade.evaluator)

/-! Options. -/

/-- A part of an option that only some sources declare. -/
def optionalPart (item : Json) (name : String) (isPart : Json → Bool) (message : String) :
    Option String → Except ConditionError Fields
  | none => .ok []
  | some pointer => do
    match ← readPointer item pointer with
    | some value => if isPart value then .ok [(name, value)] else rejected message
    | none => rejected message

def isBool : Json → Bool
  | .bool _ => true
  | _ => false

def isStr : Json → Bool
  | .str _ => true
  | _ => false

def projectOption (source : CompiledOptionSource) : Json → Except ConditionError Fields
  | .obj fields => do
    let value ← readPointer (.obj fields) source.valuePointer
    let label ← readPointer (.obj fields) source.labelPointer
    match value, label with
    | some value, some (.str label) => do
      let disabled ← optionalPart (.obj fields) "disabled" isBool
        "option disabled value is not provisioned" source.disabledPointer
      let group ← optionalPart (.obj fields) "group" isStr
        "option group value is not provisioned" source.groupPointer
      .ok ([("value", value), ("label", .str label)] ++ disabled ++ group)
    | _, _ => rejected "option value and label must resolve"
  | _ => rejected "option item must be a mapping"

/-- The items of a response: all of it, or what the pointer of the source leads to. -/
def optionItems (source : CompiledOptionSource) (response : Json) :
    Except ConditionError (Option Json) :=
  match source.itemsPointer, response with
  | none, response => .ok (some response)
  | some pointer, .obj fields => readPointer (.obj fields) pointer
  | some _, _ => rejected "option items pointer cannot resolve"

def projectOptions (source : CompiledOptionSource) (response : Json) :
    Except ConditionError (List Fields) := do
  match ← optionItems source response with
  | some (.arr items) => items.mapM (projectOption source)
  | _ => rejected "option items must be a sequence"

/-- The token of the next page; null where there is none. -/
def paginationResponse (source : CompiledOptionSource) (response : Json) :
    Except ConditionError Json :=
  match source.responsePointer, response with
  | none, _ => .ok .null
  | some pointer, .obj fields => do
    match ← readPointer (.obj fields) pointer with
    | some token => .ok token
    | none => rejected "option pagination response pointer must resolve"
  | some _, _ => rejected "option pagination response pointer must resolve"

/-! Requests. -/

/-- The values at some pointers. -/
def snapshotAt (values : Json) : List String → Except ConditionError OptionSnapshot
  | [] => .ok []
  | pointer :: rest => do
    let value ← readPointer values pointer
    let others ← snapshotAt values rest
    .ok ((pointer, value) :: others)

namespace EvaluatorState
variable (s : EvaluatorState) (field : String) (generation : ℕ)

def beginRequest : EvaluatorState :=
  { s with generations := s.generations.put field (s.nextGeneration field) }

def noteSnapshot (snapshot : OptionSnapshot) : EvaluatorState :=
  { s with snapshots := s.snapshots.put (field, generation) snapshot }

def awaitResponse : EvaluatorState := { s with requests := (field, generation) :: s.requests }

def endRequest : EvaluatorState := { s with requests := s.requests.erase (field, generation) }

def popSnapshot : EvaluatorState := { s with snapshots := s.snapshots.erase (field, generation) }

/-- A null token leaves the token of the field as it is. -/
def holdOptions (options : List Fields) (token : Json) : EvaluatorState :=
  { s with
    options := s.options.put field options
    pagingTokens := if token = .null then s.pagingTokens else s.pagingTokens.put field token }

end EvaluatorState

/-- Begin a request. Its arguments may fail to be built; then it ends, with its snapshot kept. -/
def requestOptions (contract : EvaluatorContract) (s : EvaluatorState) (field : String)
    (built : Bool) : EvaluatorAnswer × EvaluatorState :=
  match contract.fields.get? field with
  | none => (.raised (.rejected "interaction field is not declared"), s)
  | some none => (.raised (.rejected "interaction field has no option source"), s)
  | some (some source) =>
    if source.producerId.isNone then
      (.raised (.rejected "option source producer_id must be nonempty"), s)
    else match EvaluatorContract.pointerSequence source.cascadeDependencies with
      | .error e => (.raised e, s)
      | .ok () =>
        let begun := s.beginRequest field
        match snapshotAt s.values source.cascadeDependencies with
        | .error e => (.raised e, begun)
        | .ok snapshot =>
          let noted := begun.noteSnapshot field (s.nextGeneration field) snapshot
          if built then (.waiting, noted.awaitResponse field (s.nextGeneration field))
          else (.raised (.rejected "request binding source is not provisioned"), noted)

inductive CallOutcome where
  | returned (response : Json)
  | failed
  | cancelled

/-- A value in a snapshot is still there. What was missing counts as changed: the copy of the marker
for a missing value is not the marker. -/
def stillThere : Option (Option Json) → Option Json → Bool
  | some (some before), some now => pyEqual before now
  | _, _ => false

def dependenciesKept (snapshot : OptionSnapshot) (values : Json) :
    List String → Except ConditionError Bool
  | [] => .ok true
  | pointer :: rest => do
    let now ← readPointer values pointer
    if stillThere (snapshot.get? pointer) now then dependenciesKept snapshot values rest
    else .ok false

/-- The options and the token of a response that is not stale. -/
def acceptedOptions (source : CompiledOptionSource) (s : EvaluatorState) (field : String)
    (generation : ℕ) (response : Json) : Except ConditionError (Option (List Fields × Json)) := do
  if s.generations.get? field = some generation then
    let snapshot := (s.snapshots.get? (field, generation)).getD []
    if ← dependenciesKept snapshot s.values source.cascadeDependencies then
      let options ← projectOptions source response
      let token ← paginationResponse source response
      .ok (some (options, token))
    else .ok none
  else .ok none

def isContainer : Json → Bool
  | .obj _ => true
  | .arr _ => true
  | _ => false

/-- The producer of a request answers. A response that is no container leaves the snapshot. -/
def optionsRespond (contract : EvaluatorContract) (s : EvaluatorState) (field : String)
    (generation : ℕ) (outcome : CallOutcome) : EvaluatorAnswer × EvaluatorState :=
  match contract.sourceOf field with
  | none => (.done, s)
  | some source =>
    if (field, generation) ∈ s.requests then
      let ended := s.endRequest field generation
      match outcome with
      | .cancelled => (.cancelled, ended.popSnapshot field generation)
      | .failed => (.resolved false, ended.popSnapshot field generation)
      | .returned response =>
        if isContainer response then
          let popped := ended.popSnapshot field generation
          match acceptedOptions source s field generation response with
          | .error (.rejected _) => (.resolved false, popped)
          | .error e => (.raised e, popped)
          | .ok none => (.resolved false, popped)
          | .ok (some (options, token)) => (.resolved true, popped.holdOptions field options token)
        else (.resolved false, ended)
    else (.done, s)

/-! Conditions. -/

def FieldSemantics.set (semantics : FieldSemantics) (matched : Bool) : ConditionTarget → FieldSemantics
  | .visible => { semantics with visible := matched }
  | .enabled => { semantics with enabled := matched }
  | .required => { semantics with required := matched }
  | .reset => semantics

def initialSemantics : FieldSemantics where
  visible := true
  enabled := true
  required := false

def objectFields : Json → Fields
  | .obj fields => fields
  | _ => []

/-- Conditions in turn, each on the values that the resets before it left. -/
def applyEach (contract : EvaluatorContract) : List CompiledCondition → Table String FieldSemantics →
    Json → Except ConditionError (Table String FieldSemantics) × Json
  | [], semantics, values => (.ok semantics, values)
  | condition :: rest, semantics, values =>
    if (contract.fields.get? condition.targetPointer).isNone then
      (rejected "compiled condition is not provisioned", values)
    else match evaluateCondition condition.expression (objectFields values) with
      | .error e => (.error e, values)
      | .ok matched =>
        if condition.target = .reset then
          if matched then
            match deletePointer values condition.targetPointer with
            | .ok remaining => applyEach contract rest semantics remaining
            | .error e => (.error e, values)
          else applyEach contract rest semantics values
        else
          let former := (semantics.get? condition.targetPointer).getD initialSemantics
          applyEach contract rest
            (semantics.put condition.targetPointer (former.set matched condition.target)) values

def applyConditions (contract : EvaluatorContract) (s : EvaluatorState) :
    EvaluatorAnswer × EvaluatorState :=
  let semantics := contract.fields.mapValues fun _ => initialSemantics
  let applied := applyEach contract contract.conditions semantics s.values
  (match applied.1 with
    | .ok semantics => .semantics semantics
    | .error e => .raised e, { s with values := applied.2 })

/-! Related data. -/

/-- Go on to the next producer, if there is one. -/
def nextLoad (outcomes : Table String String) :
    List CompiledRelatedData → EvaluatorAnswer × Option RelatedLoad
  | [] => (.outcomes outcomes, none)
  | binding :: remaining => (.waiting, some { binding, remaining, outcomes })

def EvaluatorState.setLoad (s : EvaluatorState) (load : ℕ) (next : Option RelatedLoad) :
    EvaluatorState :=
  { s with loads := match next with
      | some next => s.loads.set load next
      | none => s.loads.eraseIdx load }

def loadRelatedData (contract : EvaluatorContract) (s : EvaluatorState) :
    EvaluatorAnswer × EvaluatorState :=
  let next := nextLoad [] contract.relatedData
  (next.1, { s with loads := s.loads ++ next.2.toList })

/-- The producer that a load waits for answers. -/
def relatedResponds (s : EvaluatorState) (load : ℕ) (outcome : CallOutcome) :
    EvaluatorAnswer × EvaluatorState :=
  match s.loads[load]? with
  | none => (.done, s)
  | some { binding, remaining, outcomes } =>
    match outcome with
    | .cancelled => (.cancelled, s.setLoad load none)
    | .failed =>
      let noted := outcomes.put binding.id "source_error"
      if binding.failFast then (.outcomes noted, s.setLoad load none)
      else
        let next := nextLoad noted remaining
        (next.1, s.setLoad load next.2)
    | .returned response =>
      match readPointer response binding.outputPointer with
      | .error e => (.raised e, s.setLoad load none)
      | .ok none =>
        let next := nextLoad (outcomes.put binding.id "not_provisioned") remaining
        (next.1, s.setLoad load next.2)
      | .ok (some value) =>
        match writePointer s.values binding.targetPointer value with
        | .error e => (.raised e, s.setLoad load none)
        | .ok values =>
          let next := nextLoad (outcomes.put binding.id "resolved") remaining
          (next.1, { s.setLoad load next.2 with values })

/-! Runs. -/

inductive EvaluatorEvent where
  | setValue (field : String) (value : Json)
  | requestOptions (field : String) (built : Bool)
  | optionsRespond (field : String) (generation : ℕ) (outcome : CallOutcome)
  | applyConditions
  | loadRelatedData
  | relatedResponds (load : ℕ) (outcome : CallOutcome)

namespace EvaluatorContract
variable (contract : EvaluatorContract)

def step (s : EvaluatorState) : EvaluatorEvent → EvaluatorAnswer × EvaluatorState
  | .setValue field value => setValue contract s field value
  | .requestOptions field built => requestOptions contract s field built
  | .optionsRespond field generation outcome => optionsRespond contract s field generation outcome
  | .applyConditions => applyConditions contract s
  | .loadRelatedData => loadRelatedData contract s
  | .relatedResponds load outcome => relatedResponds s load outcome

/-- The state that a run from some values has reached. -/
def after (values : Json) (events : List EvaluatorEvent) : EvaluatorState :=
  Machine.after contract.step (.initial values) events

end EvaluatorContract
end CapabilityCompiler.Interactions
