import CapabilityCompiler.Compiler.ProvedActions
import CapabilityCompiler.Quality.Composition

/-! Which results the steps of a workflow really depend on, and when the components of the composition
graph follow these dependencies. -/
namespace CapabilityCompiler.Quality
open Foundation Models Compiler

/-! References. -/

/-- The step whose result a text refers to. -/
def stepId? (text : String) : Option String :=
  match compilerReference? text with
  | some (.step id _) => some id
  | _ => none

/-- The input that a text refers to. -/
def inputName? (text : String) : Option String :=
  match compilerReference? text with
  | some (.root root path) => if root = "input" then path.head? else none
  | _ => none

section Names
variable {root text : String}

theorem takeWhile_segment {segment : List Char} (h : segment.all isSegmentPart = true)
    {rest : List Char} (hrest : rest.head?.all (fun c => !isSegmentPart c) = true) :
    (segment ++ rest).takeWhile isSegmentPart = segment := by
  induction segment with
  | nil =>
    cases rest with
    | nil => rfl
    | cons c rest =>
      have hc : isSegmentPart c = false := by simpa using hrest
      simp [hc]
  | cons c segment ih =>
    simp only [List.all_cons, Bool.and_eq_true] at h
    rw [List.cons_append, List.takeWhile_cons_of_pos h.1, ih h.2]

/-- What follows the name is the end of the text or a dot. -/
theorem joined_rest (name : String) (rest : List String) :
    ∃ after : List Char, Text.joinChars '.' ((name :: rest).map String.toList) = name.toList ++ after ∧
      after.head?.all (fun c => !isSegmentPart c) = true := by
  cases rest with
  | nil => exact ⟨[], by simp [Text.joinChars], rfl⟩
  | cons next rest => exact ⟨_, Text.joinChars_cons_cons _ _ _ _, rfl⟩

theorem split_of_dropPrefix {rest : List Char} (hroot : '.' ∉ root.toList)
    (h : Text.dropPrefix? ("$.".toList ++ root.toList ++ ['.']) text.toList = some rest) :
    Text.split '.' text = "$" :: root :: (Text.splitChars '.' rest).map String.ofList := by
  have htext : text.toList = ['$'] ++ '.' :: (root.toList ++ '.' :: rest) := by
    rw [Text.dropPrefix?_eq_some h]
    simp
  rw [Text.split, htext, Text.splitChars_append, Text.splitChars_append,
    Text.splitChars_of_not_mem hroot, Text.splitChars_of_not_mem (by decide)]
  simp

/-- A name is matched only below the root. -/
theorem referencedName?_of_ne {other : String} {path : List String} (hroot : '.' ∉ root.toList)
    (h : Text.split '.' text = "$" :: other :: path) (hne : other ≠ root) :
    referencedName? root text = none := by
  unfold referencedName?
  cases hdrop : Text.dropPrefix? ("$.".toList ++ root.toList ++ ['.']) text.toList with
  | none => rfl
  | some rest =>
    have hsplit := split_of_dropPrefix hroot hdrop
    rw [h] at hsplit
    exact absurd (List.cons.inj (List.cons.inj hsplit).2).1 hne

/-- The name that is matched in a well-formed reference is the one it refers to. -/
theorem referencedName?_of_split {path : List String}
    (h : Text.split '.' text = "$" :: root :: path)
    (hpath : ∀ segment ∈ path, isSegment segment = true) :
    referencedName? root text = path.head? := by
  have htext := Text.toList_of_split h
  unfold referencedName?
  cases path with
  | nil =>
    have hshort : ¬ ("$.".toList ++ root.toList ++ ['.']).isPrefixOf text.toList = true := by
      intro hpre
      have hle := (List.isPrefixOf_iff_prefix.mp hpre).length_le
      simp [htext, Text.joinChars] at hle
    rw [Text.dropPrefix?, if_neg hshort]
    rfl
  | cons name rest =>
    obtain ⟨after, hafter, hend⟩ := joined_rest name rest
    have hwhole : text.toList = ("$.".toList ++ root.toList ++ ['.']) ++ (name.toList ++ after) := by
      rw [htext, List.map_cons, List.map_cons, List.map_cons, Text.joinChars_cons_cons,
        Text.joinChars_cons_cons, ← List.map_cons, hafter]
      simp
    have hname := hpath name List.mem_cons_self
    unfold isSegment at hname
    cases hchars : name.toList with
    | nil => simp [hchars] at hname
    | cons first tail =>
      simp only [hchars, Bool.and_eq_true] at hname
      have hdrop : Text.dropPrefix? ("$.".toList ++ root.toList ++ ['.']) text.toList =
          some (first :: (tail ++ after)) := by
        rw [hwhole, hchars, Text.dropPrefix?, if_pos (List.isPrefixOf_iff_prefix.mpr ⟨_, rfl⟩),
          List.drop_left, List.cons_append]
      rw [hdrop]
      simp only [hname.1, if_true, takeWhile_segment hname.2 hend, List.head?_cons]
      rw [← hchars, String.ofList_toList]

/-- What the compiler takes for a reference, or for no reference at all. -/
def Readable (text : String) : Prop :=
  (compilerReference? text).isSome = true ∨ looksDynamic text = false

theorem referencedName?_of_plain (hroot : '.' ∉ root.toList) (h : looksDynamic text = false) :
    referencedName? root text = none := by
  unfold referencedName?
  cases hdrop : Text.dropPrefix? ("$.".toList ++ root.toList ++ ['.']) text.toList with
  | none => rfl
  | some rest =>
    have hdynamic := Text.hasPrefix_of_split (split_of_dropPrefix hroot hdrop)
    simp [looksDynamic, hdynamic] at h

/-- In a readable text the step that is matched is the one that is referred to. -/
theorem referencedName?_steps (h : Readable text) : referencedName? "steps" text = stepId? text := by
  have hdot : '.' ∉ "steps".toList := by decide
  unfold stepId?
  cases hreference : compilerReference? text with
  | none =>
    have hplain : looksDynamic text = false := h.resolve_left (by simp [hreference])
    exact referencedName?_of_plain hdot hplain
  | some reference =>
    obtain ⟨hwritten, htokens⟩ := written_of_matchTokens hreference
    cases reference with
    | root root path =>
      refine referencedName?_of_ne hdot htokens ?_
      rintro rfl
      exact absurd hwritten.1 (by decide)
    | step id path => exact referencedName?_of_split htokens hwritten.2

theorem referencedName?_input (h : Readable text) :
    referencedName? "input" text = inputName? text := by
  have hdot : '.' ∉ "input".toList := by decide
  unfold inputName?
  cases hreference : compilerReference? text with
  | none =>
    have hplain : looksDynamic text = false := h.resolve_left (by simp [hreference])
    exact referencedName?_of_plain hdot hplain
  | some reference =>
    obtain ⟨hwritten, htokens⟩ := written_of_matchTokens hreference
    cases reference with
    | root root path =>
      by_cases hroot : root = "input"
      · subst hroot
        exact referencedName?_of_split htokens hwritten.2
      · simp only [if_neg hroot]
        exact referencedName?_of_ne hdot htokens hroot
    | step id path => exact referencedName?_of_ne hdot htokens (by decide)

end Names

/-! Dependencies. -/

def referredSteps (value : Json) : List String := (texts value).filterMap stepId?

/-- Only operands that are references refer to anything. -/
def conditionSteps (condition : BranchCondition) : List String :=
  (branchOccurrences [] false condition).filterMap (stepId? ·.text)

/-- The steps whose results a step refers to, as a value, in a condition or as a collection. -/
def refersTo : WorkflowStep → List String
  | .call _ _ arguments => referredSteps (.obj arguments)
  | .pick _ value _ | .redact _ value _ | .emit _ value => referredSteps value
  | .map _ items expression _ => (stepId? expression).toList ++ referredSteps items
  | .filter _ items condition _ => (stepId? condition).toList ++ referredSteps items
  | .assert _ condition _ => (stepId? condition).toList
  | .branch _ condition _ _ => conditionSteps condition
  | .parallel _ _ => []
  | .foreach _ items _ _ _ => referredSteps items

def selectedInputs : WorkflowStep → List String
  | .call _ _ arguments => (texts (.obj arguments)).filterMap inputName?
  | _ => []

def isCall : WorkflowStep → Bool
  | .call .. => true
  | _ => false

mutual

/-- The literal operands of a condition. -/
def conditionLiterals : WorkflowCondition → List Json
  | .eq left right => operandLiterals left ++ operandLiterals right
  | .isIn item values => operandLiterals item ++ operandLiterals values
  | .all conditions | .any conditions => literalsOfAll conditions
  | .not condition => conditionLiterals condition

def literalsOfAll : List WorkflowCondition → List Json
  | [] => []
  | condition :: rest => conditionLiterals condition ++ literalsOfAll rest

def operandLiterals : WorkflowConditionOperand → List Json
  | .reference _ => []
  | .literal value => [value]

end

/-- The steps that literals of a condition look like references to. -/
def lookalikes : BranchCondition → List String
  | .reference _ => []
  | .structured bounded => (conditionLiterals bounded.condition).flatMap stepsIn

/-- A step at its place, with the steps that the conditions and collections around it refer to, and those
that literals in these conditions look like. -/
structure Site where
  position : List ℕ
  step : WorkflowStep
  context : List String
  lookalikes : List String

mutual

def stepSites (position : List ℕ) (context alike : List String) : WorkflowStep → List Site
  | .branch id condition thenSteps elseSteps =>
    ⟨position, .branch id condition thenSteps elseSteps, context, alike⟩ ::
      (workflowSites (0 :: position) (context ++ conditionSteps condition)
          (alike ++ lookalikes condition) 0 thenSteps ++
        workflowSites (1 :: position) (context ++ conditionSteps condition)
          (alike ++ lookalikes condition) 0 elseSteps)
  | .parallel id children =>
    ⟨position, .parallel id children, context, alike⟩ ::
      workflowSites position context alike 0 children
  | .foreach id items itemName maxItems workflow =>
    ⟨position, .foreach id items itemName maxItems workflow, context, alike⟩ ::
      workflowSites position (context ++ referredSteps items) alike 0 workflow
  | step => [⟨position, step, context, alike⟩]

def workflowSites (position : List ℕ) (context alike : List String) (index : ℕ) :
    List WorkflowStep → List Site
  | [] => []
  | step :: rest =>
    stepSites (index :: position) context alike step ++
      workflowSites position context alike (index + 1) rest

end

def sitesOf (workflow : Workflow) : List Site := workflowSites [] [] [] 0 workflow

def lastPosition (position : List ℕ) (steps : List WorkflowStep) : List (List ℕ) :=
  if steps = [] then [] else [(steps.length - 1) :: position]

/-- The places whose results make up the result of a step. -/
def resultPositions (site : Site) : List (List ℕ) :=
  match site.step with
  | .branch _ _ thenSteps elseSteps =>
    lastPosition (0 :: site.position) thenSteps ++ lastPosition (1 :: site.position) elseSteps
  | .parallel _ children => (List.range children.length).map (· :: site.position)
  | .foreach _ _ _ _ workflow => lastPosition site.position workflow
  | _ => []

/-- One step uses the result of another: it refers to it, a condition or a collection around it does, or
the result of the other is a part of its own. -/
def Uses (sites : List Site) (consumer producer : Site) : Prop :=
  producer ∈ sites ∧
    ((∃ id, producer.step.id = some id ∧ (id ∈ refersTo consumer.step ∨ id ∈ consumer.context)) ∨
      producer.position ∈ resultPositions consumer)

def UsesCall (sites : List Site) (consumer producer : Site) : Prop :=
  Uses sites consumer producer ∧ isCall producer.step = true

/-- A call whose result is used through steps that are no calls, one at least. -/
inductive UsesThrough (sites : List Site) : Site → Site → Prop where
  | call {consumer middle producer : Site} : Uses sites consumer middle →
      isCall middle.step = false → UsesCall sites middle producer → UsesThrough sites consumer producer
  | step {consumer middle producer : Site} : Uses sites consumer middle →
      isCall middle.step = false → UsesThrough sites middle producer →
      UsesThrough sites consumer producer

/-- A literal in a condition around the one step looks like a reference to the other, a call. -/
def LooksAt (sites : List Site) (consumer producer : Site) : Prop :=
  producer ∈ sites ∧ isCall producer.step = true ∧
    ∃ id, producer.step.id = some id ∧ id ∈ consumer.lookalikes

/-- The calls of a capability with their phases, numbered by their places. -/
def callSites (capability : Capability) : List (String × Site) :=
  (phases capability).flatMap fun phase =>
    ((sitesOf phase.2).filter (isCall ·.step)).map fun site => (phase.1, site)

section Relations
variable (capability : Capability) (quality : CapabilityQuality)

/-- Calls of one phase whose steps are related. -/
def Between (related : List Site → Site → Site → Prop) (producer consumer : ℕ) : Prop :=
  ∃ phase ∈ phases capability, ∃ a b, (callSites capability)[producer]? = some (phase.1, a) ∧
    (callSites capability)[consumer]? = some (phase.1, b) ∧ related (sitesOf phase.2) b a

/-- Both calls refer to a resource selector in their arguments. -/
def SharesSelector (a b : ℕ) : Prop :=
  ∃ name ∈ selectorNames quality, ∃ first second, (callSites capability)[a]? = some first ∧
    (callSites capability)[b]? = some second ∧ name ∈ selectedInputs first.2.step ∧
    name ∈ selectedInputs second.2.step

/-- The first call of the preview and the first call of the commit. -/
def Linked (a b : ℕ) : Prop :=
  (callSites capability).findIdx? (·.1 = "preview") = some a ∧
    (callSites capability).findIdx? (·.1 = "commit") = some b

/-- What connects two calls. -/
def Connects (a b : ℕ) : Prop :=
  Between capability UsesCall a b ∨ Between capability UsesThrough a b ∨
    SharesSelector capability quality a b ∨ Linked capability a b

/-- What the graph makes of it: steps that are no calls are not seen, and literals are. -/
def SeemsToConnect (a b : ℕ) : Prop :=
  Between capability UsesCall a b ∨ Between capability LooksAt a b ∨
    SharesSelector capability quality a b ∨ Linked capability a b

/-- The graph has the calls of the capability, and two of them are in one component exactly if they are
connected. -/
def ReflectsDataFlow : Prop :=
  ∃ graph, buildWorkflowCompositionGraph capability quality = some graph ∧
    graph.calls.length = (callSites capability).length ∧
    ∀ a b, a < graph.calls.length → b < graph.calls.length →
      ((∃ members ∈ graph.components, a ∈ members ∧ b ∈ members) ↔
        Relation.EqvGen (Connects capability quality) a b)

/-- Calls that depend on one another through other steps seem to be connected anyway, and calls that a
literal seems to connect are connected anyway. -/
structure SeenThrough : Prop where
  through : ∀ a b, Between capability UsesThrough a b →
    Relation.EqvGen (SeemsToConnect capability quality) a b
  literal : ∀ a b, Between capability LooksAt a b → Relation.EqvGen (Connects capability quality) a b

end Relations

/-- The capability is compiled without errors. -/
def Compiles : Capability → Prop
  | .read capability => ∃ catalog policies targets,
      errorFree (compileCapability capability catalog policies targets).2 = true
  | .action capability => ∃ isValid operations actionSemantics policies targets,
      errorFree (compileActionCapability isValid capability operations actionSemantics policies
        targets).2 = true

/-! Identifiers of steps are unique. -/

def siteIds (sites : List Site) : List String := sites.filterMap (·.step.id)

/-- Registering takes fresh identifiers, each once. -/
structure Registers (ids seen after : List String) : Prop where
  nodup : ids.Nodup
  fresh : ∀ id ∈ ids, id ∉ seen
  mem : ∀ id, id ∈ after ↔ id ∈ ids ∨ id ∈ seen

section Registers
variable {ids others seen middle after : List String}

theorem Registers.nil : Registers [] seen seen :=
  ⟨List.nodup_nil, by simp, by simp⟩

theorem Registers.append (h : Registers ids seen middle) (h' : Registers others middle after) :
    Registers (ids ++ others) seen after where
  nodup := by
    refine List.nodup_append.mpr ⟨h.nodup, h'.nodup, ?_⟩
    rintro id hid other hother rfl
    exact h'.fresh id hother ((h.mem id).mpr (.inl hid))
  fresh id hid hseen := by
    rcases List.mem_append.mp hid with hid | hid
    · exact h.fresh id hid hseen
    · exact h'.fresh id hid ((h.mem id).mpr (.inr hseen))
  mem id := by
    rw [h'.mem, h.mem, List.mem_append]
    tauto

theorem registers_registerStepId {location : Location} {id : Option String}
    (h : errorFree (registerStepId location id seen).diagnostics = true) :
    Registers id.toList seen (registerStepId location id seen).seen := by
  unfold registerStepId at h ⊢
  cases id with
  | none => exact .nil
  | some id =>
    simp only at h ⊢
    split_ifs at h ⊢ with hseen
    · exact absurd h not_errorFree_diagnostic
    · exact ⟨List.nodup_singleton id, by simpa using hseen, fun other => by
        simp [Walk.report, Option.toList]⟩

end Registers

end CapabilityCompiler.Quality
