import CapabilityCompiler.Actions.PointerAgreement
import CapabilityCompiler.Interactions.ConditionEvaluation

/-! The JSON semantics of conditions, and where the evaluator follows it. -/
namespace CapabilityCompiler.Interactions
open Foundation Json
open Actions (evaluatePointer Misread valueAt_mono walks_agree_iff)
open Compiler (valueAt)

/-! The semantics. -/

/-- The value of an operand: a reference has the value that RFC 6901 finds. -/
def ConditionOperand.value? (state : Json) : ConditionOperand → Option Json
  | .reference pointer => evaluatePointer state pointer
  | .literal value => some value

def compareJson : ComparisonOperator → Json → Json → Bool
  | .eq, left, right => jsonEqual left right
  | .ne, left, right => !jsonEqual left right
  | .isIn, left, .arr items => items.any (jsonEqual left)
  | .isIn, _, _ => false

/-- The expression is a part of the other, which may be itself. -/
inductive Within : ConditionExpression → ConditionExpression → Prop where
  | whole (e : ConditionExpression) : Within e e
  | inside {e operand parent : ConditionExpression} (hmem : operand ∈ parent.subexpressions)
      (hwithin : Within e operand) : Within e parent

/-- The evaluation returns, with what the operator means. -/
def Means (state : Fields) (e : ConditionExpression) : Prop :=
  ∃ result, evaluateCondition e.dump state = .ok result ∧
    match e with
    | .all operands =>
      result = true ↔ ∀ operand ∈ operands, evaluateCondition operand.dump state = .ok true
    | .any operands =>
      result = true ↔ ∃ operand ∈ operands, evaluateCondition operand.dump state = .ok true
    | .not operand => result = true ↔ evaluateCondition operand.dump state = .ok false
    | .present operand => result = (operand.value? (.obj state)).isSome
    | .comparison operator left right => ∀ x y, left.value? (.obj state) = some x →
      right.value? (.obj state) = some y → result = compareJson operator x y

/-- Every part of the condition has its meaning. -/
def JsonSemantics (state : Fields) (condition : ConditionExpression) : Prop :=
  ∀ e, Within e condition → Means state e

/-! Where the evaluator follows it. -/

/-- On the way along the tokens an array is read at a numeral with too many digits. -/
inductive Overlong : Json → List String → Prop where
  | numeral {items : List Json} {token : String} {rest : List String} {index : ℕ} :
      Text.decimal? token = some index → maxIntDigits < token.length →
      Overlong (.arr items) (token :: rest)
  | item {items : List Json} {token : String} {rest : List String} {index : ℕ} {item : Json} :
      Text.decimal? token = some index → items[index]? = some item → Overlong item rest →
      Overlong (.arr items) (token :: rest)
  | member {fields : Fields} {token : String} {rest : List String} {child : Json} :
      field? token fields = some child → Overlong child rest →
      Overlong (.obj fields) (token :: rest)

/-- A reference does not stop the evaluation. -/
def ConditionOperand.Readable (state : Json) : ConditionOperand → Prop
  | .reference pointer => pointer ≠ "/" ∧
    ∀ tokens, JsonPointer.tokens? pointer = some tokens → ¬ Overlong state tokens
  | .literal _ => True

/-- What is read where every decimal numeral counts as an array index. -/
def ConditionOperand.found? (state : Json) : ConditionOperand → Option Json
  | .reference pointer => (JsonPointer.tokens? pointer).bind (valueAt Text.decimal? state)
  | .literal value => some value

def ConditionOperand.WellRead (state : Json) : ConditionOperand → Prop
  | .reference pointer =>
    ∀ tokens, JsonPointer.tokens? pointer = some tokens → ¬ Misread state tokens
  | .literal _ => True

/-- Only a text can be looked up in a text. -/
def Comparable : ComparisonOperator → Json → Json → Prop
  | .isIn, left, .str _ => ∃ part, left = .str part
  | _, _, _ => True

/-- No values are taken for equal that are not equal as JSON, and no text is a part of a text. -/
def Distinguished : ComparisonOperator → Json → Json → Prop
  | .isIn, left, .arr items =>
    (∃ item ∈ items, pyEqual left item = true) → ∃ item ∈ items, jsonEqual left item = true
  | .isIn, .str part, .str text => isPart part text = false
  | .isIn, _, _ => True
  | _, left, right => pyEqual left right = true → jsonEqual left right = true

/-- What a part of a condition must not ask for. -/
def Harmless (state : Json) : ConditionExpression → Prop
  | .present operand => operand.Readable state ∧ operand.WellRead state
  | .comparison operator left right =>
    left.Readable state ∧ right.Readable state ∧
      (∀ x y, left.found? state = some x → right.found? state = some y →
        Comparable operator x y) ∧
      ∀ x y, left.value? state = some x → right.value? state = some y →
        Distinguished operator x y
  | _ => True

/-! Reading. -/

section Reading
variable {state : Json} {pointer : String} {tokens : List String} {operand : ConditionOperand}

theorem tokens?_of_validPointer (h : validPointer pointer = true) :
    ∃ rest, pointer.toList = '/' :: rest ∧
      (Text.splitChars '/' rest).all JsonPointer.escapesValid = true ∧
      JsonPointer.tokens? pointer = some ((Text.splitChars '/' rest).map fun token =>
        Text.unescapeToken (String.ofList token)) := by
  rw [validPointer, Bool.and_eq_true, decide_eq_true_eq] at h
  obtain ⟨hhead, hescapes⟩ := h
  obtain ⟨rest, hrest⟩ := List.head?_eq_some_iff.mp hhead
  rw [hrest] at hescapes
  refine ⟨rest, hrest, hescapes, ?_⟩
  have hescapes : (Text.splitChars '/' rest).all JsonPointer.escapesValid = true := hescapes
  rw [JsonPointer.tokens?, hrest]
  simp only [hescapes, if_true]

theorem evaluatorTokens_eq (hvalid : validPointer pointer = true) (hroot : pointer ≠ "/") :
    (evaluatorTokens pointer).toOption = JsonPointer.tokens? pointer := by
  obtain ⟨rest, hrest, hescapes, htokens⟩ := tokens?_of_validPointer hvalid
  have hstart : ¬ (pointer.toList.head? ≠ some '/' ∨ pointer = "/") := by
    rw [hrest]
    simp [hroot]
  have htail : (Text.splitChars '/' pointer.toList).tail = Text.splitChars '/' rest := by
    rw [hrest]
    rfl
  rw [htokens, evaluatorTokens, if_neg hstart]
  simp only [htail, hescapes, if_true]
  rfl

theorem Overlong.not_scalar (h : Overlong state tokens) : state.isScalar = false := by
  cases h <;> rfl

/-- Reading along tokens succeeds exactly if no numeral is too long. -/
theorem readTokens_eq_ok_iff {found : Option Json} :
    readTokens state tokens = .ok found ↔
      ¬ Overlong state tokens ∧ found = valueAt Text.decimal? state tokens := by
  induction tokens generalizing state with
  | nil =>
    have hshort : ¬ Overlong state [] := by rintro ⟨⟩
    cases state <;> simp [readTokens, valueAt, hshort, eq_comm]
  | cons token rest ih =>
    cases state with
    | obj fields =>
      cases hchild : field? token fields with
      | none =>
        have hshort : ¬ Overlong (.obj fields) (token :: rest) := by
          rintro (_ | _ | ⟨hfound, -⟩)
          exact absurd (hfound.symm.trans hchild) (by simp)
        simp [readTokens, valueAt, hchild, hshort, eq_comm]
      | some child =>
        have hover : Overlong (.obj fields) (token :: rest) ↔ Overlong child rest := by
          constructor
          · rintro (_ | _ | ⟨hfound, hover⟩)
            rwa [Option.some.inj (hchild.symm.trans hfound)]
          · exact .member hchild
        rw [readTokens, valueAt, hchild, Option.bind_some, hover]
        exact ih
    | arr items =>
      cases hnumeral : Text.decimal? token with
      | none =>
        have hshort : ¬ Overlong (.arr items) (token :: rest) := by
          rintro (⟨hfound, -⟩ | ⟨hfound, -⟩ | _)
          · exact absurd (hfound.symm.trans hnumeral) (by simp)
          · exact absurd (hfound.symm.trans hnumeral) (by simp)
        simp [readTokens, valueAt, hnumeral, hshort, eq_comm]
      | some index =>
        rw [readTokens, valueAt, hnumeral, Option.bind_some]
        by_cases hlong : maxIntDigits < token.length
        · have hover : Overlong (.arr items) (token :: rest) := .numeral hnumeral hlong
          simp [intOf_of_lt hlong, hover, bind, Except.bind]
        · simp only [intOf_of_le hlong]
          cases hitem : items[index]? with
          | none =>
            have hshort : ¬ Overlong (.arr items) (token :: rest) := by
              rintro (⟨-, hfound⟩ | ⟨hfound, hentered, -⟩ | _)
              · exact hlong hfound
              · obtain rfl := Option.some.inj (hnumeral.symm.trans hfound)
                exact absurd (hentered.symm.trans hitem) (by simp)
            simp [bind, Except.bind, hitem, hshort, eq_comm]
          | some item =>
            have hover : Overlong (.arr items) (token :: rest) ↔ Overlong item rest := by
              constructor
              · rintro (⟨-, hfound⟩ | ⟨hfound, hentered, hover⟩ | _)
                · exact absurd hfound hlong
                · obtain rfl := Option.some.inj (hnumeral.symm.trans hfound)
                  rwa [Option.some.inj (hitem.symm.trans hentered)]
              · exact .item hnumeral hitem
            rw [hover, Option.bind_some]
            simp only [bind, Except.bind, hitem]
            exact ih
    | _ =>
      refine ⟨fun h => ⟨fun hover => absurd hover.not_scalar (by simp [isScalar]), ?_⟩, ?_⟩
      · simpa [readTokens, valueAt, eq_comm] using h
      · rintro ⟨-, rfl⟩
        simp [readTokens, valueAt]

/-- Reading an operand. -/
def ConditionOperand.read (state : Json) : ConditionOperand → Except ConditionError (Option Json)
  | .reference pointer => readPointer state pointer
  | .literal value => .ok (some value)

theorem operandValue_dump (operand : ConditionOperand) :
    operandValue state (some operand.dump) = operand.read state := by
  cases operand with
  | reference pointer =>
    have hkeys : hasKeys [("kind", Json.str "reference"), ("pointer", .str pointer)]
        ["kind", "pointer"] = true := rfl
    simp [ConditionOperand.dump, operandValue, ConditionOperand.read, hkeys]
  | literal value =>
    have hkeys : hasKeys [("kind", Json.str "literal"), ("value", value)] ["kind", "value"] =
        true := rfl
    simp [ConditionOperand.dump, operandValue, ConditionOperand.read, hkeys]

theorem readPointer_eq_ok_iff (hvalid : validPointer pointer = true) {found : Option Json} :
    readPointer state pointer = .ok found ↔
      (ConditionOperand.reference pointer).Readable state ∧
        found = (ConditionOperand.reference pointer).found? state := by
  obtain ⟨rest, hrest, -, htokens⟩ := tokens?_of_validPointer hvalid
  by_cases hroot : pointer = "/"
  · have hraises : evaluatorTokens pointer =
        rejected "interaction field must be an absolute JSON Pointer" := if_pos (.inr hroot)
    rw [readPointer, hraises]
    simp [rejected, bind, Except.bind, ConditionOperand.Readable, hroot]
  · have hsame := evaluatorTokens_eq hvalid hroot
    rw [htokens] at hsame
    cases hread : evaluatorTokens pointer with
    | error e =>
      rw [hread] at hsame
      exact absurd hsame (by simp [Except.toOption])
    | ok tokens =>
      rw [hread] at hsame
      rw [← hsame] at htokens
      simp only [readPointer, hread, bind, Except.bind, readTokens_eq_ok_iff,
        ConditionOperand.Readable, ConditionOperand.found?, htokens, Except.toOption,
        Option.some.injEq, forall_eq', Option.bind_some, ne_eq, hroot, not_false_eq_true, true_and]

theorem ConditionOperand.read_eq_ok_iff (hvalid : operand.isValid = true) {found : Option Json} :
    operand.read state = .ok found ↔ operand.Readable state ∧ found = operand.found? state := by
  cases operand with
  | reference pointer => exact readPointer_eq_ok_iff hvalid
  | literal value => simp [read, Readable, found?, eq_comm]

/-- What RFC 6901 finds is read. -/
theorem ConditionOperand.found?_of_value? {v : Json} (h : operand.value? state = some v) :
    operand.found? state = some v := by
  cases operand with
  | reference pointer =>
    obtain ⟨tokens, htokens, hfound⟩ := Option.bind_eq_some_iff.mp h
    rw [found?, htokens, Option.bind_some]
    exact valueAt_mono (fun token index => JsonPointer.decimal?_of_index?) hfound
  | literal value => exact h

/-- The same operands are present exactly if no index is misread. -/
theorem ConditionOperand.isSome_eq_iff :
    (operand.found? state).isSome = (operand.value? state).isSome ↔ operand.WellRead state := by
  cases operand with
  | literal value => simp [found?, value?, WellRead]
  | reference pointer =>
    cases htokens : JsonPointer.tokens? pointer with
    | none => simp [found?, value?, evaluatePointer, WellRead, htokens]
    | some tokens =>
      simp only [found?, value?, evaluatePointer, WellRead, htokens, Option.bind_some,
        Option.some.injEq, forall_eq']
      constructor
      · intro hsame hmisread
        obtain ⟨⟨v, hv⟩, hnone⟩ := hmisread.found
        rw [hv, hnone] at hsame
        exact absurd hsame (by simp)
      · intro hread
        rw [((walks_agree_iff state tokens).mpr hread).1]

end Reading

/-! Comparing. -/

section Comparing
variable {operator : ComparisonOperator} {left right : Json}

theorem compareValues_isOk_iff :
    (∃ result, compareValues operator left right = .ok result) ↔ Comparable operator left right := by
  cases operator with
  | eq => simp [compareValues, Comparable]
  | ne => simp [compareValues, Comparable]
  | isIn =>
    cases right with
    | str text =>
      cases left <;> simp [compareValues, isMember, Comparable]
    | _ => simp [compareValues, isMember, Comparable]

theorem pyEqual_eq_iff : pyEqual left right = jsonEqual left right ↔
    (pyEqual left right = true → jsonEqual left right = true) := by
  constructor
  · intro hsame hequal
    rw [← hsame, hequal]
  · intro hequal
    rw [Bool.eq_iff_iff]
    exact ⟨hequal, pyEqual_of_jsonEqual⟩

/-- A comparison that returns has its JSON meaning exactly if the values are distinguished. -/
theorem compareValues_eq_iff {result : Bool} (h : compareValues operator left right = .ok result) :
    result = compareJson operator left right ↔ Distinguished operator left right := by
  cases operator with
  | eq =>
    obtain rfl := Except.ok.inj h
    exact pyEqual_eq_iff
  | ne =>
    obtain rfl := Except.ok.inj h
    rw [compareJson, Bool.not_inj_iff]
    exact pyEqual_eq_iff
  | isIn =>
    cases right with
    | arr items =>
      obtain rfl := Except.ok.inj h
      rw [compareJson, Distinguished, Bool.eq_iff_iff, List.any_eq_true, List.any_eq_true]
      constructor
      · exact fun hsame => hsame.mp
      · rintro hequal
        refine ⟨hequal, ?_⟩
        rintro ⟨item, hitem, hsame⟩
        exact ⟨item, hitem, pyEqual_of_jsonEqual hsame⟩
    | str text =>
      cases left with
      | str part =>
        obtain rfl := Except.ok.inj h
        rfl
      | _ => exact absurd h (by simp [compareValues, isMember])
    | _ =>
      obtain rfl := Except.ok.inj h
      simp [compareJson, Distinguished]

end Comparing

/-! Evaluating. -/

section Evaluating
variable {state : Fields} {e : ConditionExpression} {operands : List ConditionExpression}
  {operand : ConditionOperand}

/-- The evaluation of the document of an expression, without the budget. -/
def evaluate (state : Fields) (e : ConditionExpression) : Except ConditionError Bool :=
  evaluateDocument (.obj state) (.obj e.dump)

def evaluateAll (state : Fields) (operands : List ConditionExpression) :
    Except ConditionError (List Bool) :=
  evaluateItems (.obj state) (dumpOperands operands)

theorem evaluateSequence_dump (h : operands ≠ []) :
    evaluateSequence (.obj state) (.arr (dumpOperands operands)) = evaluateAll state operands := by
  cases operands with
  | nil => exact absurd rfl h
  | cons operand rest => rfl

theorem evaluate_all (h : operands ≠ []) :
    evaluate state (.all operands) = (evaluateAll state operands).map (·.all id) := by
  rw [← evaluateSequence_dump h]
  rfl

theorem evaluate_any (h : operands ≠ []) :
    evaluate state (.any operands) = (evaluateAll state operands).map (·.any id) := by
  rw [← evaluateSequence_dump h]
  rfl

theorem evaluate_not (e : ConditionExpression) :
    evaluate state (.not e) = (evaluate state e).map (!·) := rfl

theorem evaluate_present (operand : ConditionOperand) :
    evaluate state (.present operand) = (operand.read (.obj state)).map (·.isSome) := by
  rw [← operandValue_dump]
  rfl

theorem evaluate_comparison (operator : ComparisonOperator) (left right : ConditionOperand) :
    evaluate state (.comparison operator left right) =
      (do let x ← left.read (.obj state)
          let y ← right.read (.obj state)
          compareFound operator x y) := by
  rw [← operandValue_dump, ← operandValue_dump]
  cases operator <;> rfl

theorem evaluateAll_eq_ok_iff {values : List Bool} :
    evaluateAll state operands = .ok values ↔
      List.Forall₂ (fun e value => evaluate state e = .ok value) operands values := by
  induction operands generalizing values with
  | nil =>
    cases values <;> simp [evaluateAll, dumpOperands, evaluateItems]
  | cons e rest ih =>
    have hstep : evaluateAll state (e :: rest) = (do
        let value ← evaluate state e
        let values ← evaluateAll state rest
        .ok (value :: values)) := rfl
    rw [hstep]
    cases hvalue : evaluate state e with
    | error error =>
      simp only [bind, Except.bind, reduceCtorEq, false_iff]
      rintro (_ | ⟨hfirst, -⟩)
      exact absurd (hfirst.symm.trans hvalue) (by simp)
    | ok value =>
      cases hvalues : evaluateAll state rest with
      | error error =>
        simp only [bind, Except.bind, reduceCtorEq, false_iff]
        rintro (_ | ⟨-, hrest⟩)
        exact absurd ((ih.mpr hrest).symm.trans hvalues) (by simp)
      | ok others =>
        simp only [bind, Except.bind, Except.ok.injEq]
        constructor
        · rintro rfl
          exact .cons hvalue (ih.mp hvalues)
        · rintro (_ | ⟨hfirst, hrest⟩)
          rw [Except.ok.inj (hvalue.symm.trans hfirst),
            Except.ok.inj (hvalues.symm.trans (ih.mpr hrest))]

/-- If every operand evaluates, all of them do. -/
theorem exists_evaluateAll (h : ∀ e ∈ operands, ∃ value, evaluate state e = .ok value) :
    ∃ values, evaluateAll state operands = .ok values := by
  induction operands with
  | nil => exact ⟨[], rfl⟩
  | cons e rest ih =>
    obtain ⟨value, hvalue⟩ := h e List.mem_cons_self
    obtain ⟨values, hvalues⟩ := ih fun other hmem => h other (List.mem_cons_of_mem _ hmem)
    exact ⟨value :: values,
      evaluateAll_eq_ok_iff.mpr (.cons hvalue (evaluateAll_eq_ok_iff.mp hvalues))⟩

theorem all_values_iff {values : List Bool} (h : evaluateAll state operands = .ok values) :
    values.all id = true ↔ ∀ e ∈ operands, evaluate state e = .ok true := by
  have hvalues := evaluateAll_eq_ok_iff.mp h
  clear h
  induction hvalues with
  | nil => simp
  | cons hvalue _ ih => simp [hvalue, ih]

theorem any_values_iff {values : List Bool} (h : evaluateAll state operands = .ok values) :
    values.any id = true ↔ ∃ e ∈ operands, evaluate state e = .ok true := by
  have hvalues := evaluateAll_eq_ok_iff.mp h
  clear h
  induction hvalues with
  | nil => simp
  | cons hvalue _ ih => simp [hvalue, ih]

/-- A test of presence returns exactly if its operand can be read. -/
theorem evaluate_present_eq_ok_iff (hvalid : operand.isValid = true) {result : Bool} :
    evaluate state (.present operand) = .ok result ↔
      operand.Readable (.obj state) ∧ result = (operand.found? (.obj state)).isSome := by
  rw [evaluate_present]
  cases hread : operand.read (.obj state) with
  | error error =>
    have hnot : ¬ operand.Readable (.obj state) := by
      intro hreadable
      have hok := (operand.read_eq_ok_iff hvalid).mpr ⟨hreadable, rfl⟩
      exact absurd (hread.symm.trans hok) (by simp)
    simp [Except.map, hnot]
  | ok found =>
    obtain ⟨hreadable, rfl⟩ := (operand.read_eq_ok_iff hvalid).mp hread
    simp [Except.map, hreadable, eq_comm]

/-- A comparison returns exactly if its operands can be read and their values be compared. -/
theorem evaluate_comparison_eq_ok_iff {operator : ComparisonOperator}
    {left right : ConditionOperand} (hleft : left.isValid = true) (hright : right.isValid = true)
    {result : Bool} :
    evaluate state (.comparison operator left right) = .ok result ↔
      left.Readable (.obj state) ∧ right.Readable (.obj state) ∧
        compareFound operator (left.found? (.obj state)) (right.found? (.obj state)) =
          .ok result := by
  rw [evaluate_comparison]
  cases hreadLeft : left.read (.obj state) with
  | error error =>
    have hnot : ¬ left.Readable (.obj state) := by
      intro hreadable
      have hok := (left.read_eq_ok_iff hleft).mpr ⟨hreadable, rfl⟩
      exact absurd (hreadLeft.symm.trans hok) (by simp)
    simp [bind, Except.bind, hnot]
  | ok foundLeft =>
    obtain ⟨hreadableLeft, rfl⟩ := (left.read_eq_ok_iff hleft).mp hreadLeft
    cases hreadRight : right.read (.obj state) with
    | error error =>
      have hnot : ¬ right.Readable (.obj state) := by
        intro hreadable
        have hok := (right.read_eq_ok_iff hright).mpr ⟨hreadable, rfl⟩
        exact absurd (hreadRight.symm.trans hok) (by simp)
      simp [bind, Except.bind, hnot]
    | ok foundRight =>
      obtain ⟨hreadableRight, rfl⟩ := (right.read_eq_ok_iff hright).mp hreadRight
      simp [bind, Except.bind, hreadableLeft, hreadableRight]

theorem exists_compareFound_iff {operator : ComparisonOperator} {left right : Option Json} :
    (∃ result, compareFound operator left right = .ok result) ↔
      ∀ x y, left = some x → right = some y → Comparable operator x y := by
  cases left with
  | none => simp [compareFound]
  | some x =>
    cases right with
    | none => simp [compareFound]
    | some y => simpa [compareFound] using compareValues_isOk_iff

end Evaluating

/-! Parts of an accepted condition. -/

section Parts
variable {e condition : ConditionExpression}

theorem isValid_of_mem {operand : ConditionExpression} (hvalid : condition.isValid = true)
    (hmem : operand ∈ condition.subexpressions) : operand.isValid = true := by
  cases condition with
  | all operands =>
    rw [ConditionExpression.isValid, Bool.and_eq_true, allValid_iff] at hvalid
    exact hvalid.2 operand hmem
  | any operands =>
    rw [ConditionExpression.isValid, Bool.and_eq_true, allValid_iff] at hvalid
    exact hvalid.2 operand hmem
  | not negated =>
    obtain rfl := List.mem_singleton.mp hmem
    exact hvalid
  | comparison operator left right => exact absurd hmem List.not_mem_nil
  | present tested => exact absurd hmem List.not_mem_nil

/-- An operand is not larger than the expression. -/
theorem measures_of_mem {operand : ConditionExpression}
    (hmem : operand ∈ condition.subexpressions) :
    operand.nodeCount ≤ condition.nodeCount ∧ operand.height ≤ condition.height := by
  cases condition with
  | all operands =>
    have hheight := heights_le.mp (Nat.le_refl (heights operands)) operand hmem
    rw [ConditionExpression.nodeCount, ConditionExpression.height]
    exact ⟨Nat.le_add_left_of_le (nodeCount_le_nodeCounts hmem), Nat.le_add_left_of_le hheight⟩
  | any operands =>
    have hheight := heights_le.mp (Nat.le_refl (heights operands)) operand hmem
    rw [ConditionExpression.nodeCount, ConditionExpression.height]
    exact ⟨Nat.le_add_left_of_le (nodeCount_le_nodeCounts hmem), Nat.le_add_left_of_le hheight⟩
  | not negated =>
    obtain rfl := List.mem_singleton.mp hmem
    rw [ConditionExpression.nodeCount, ConditionExpression.height]
    omega
  | comparison operator left right => exact absurd hmem List.not_mem_nil
  | present tested => exact absurd hmem List.not_mem_nil

theorem Within.trans {part : ConditionExpression} (hpart : Within part e)
    (hwithin : Within e condition) : Within part condition := by
  induction hwithin with
  | whole => exact hpart
  | inside hmem _ ih => exact .inside hmem ih

theorem Within.accepted (hwithin : Within e condition) (h : condition.Accepted) : e.Accepted := by
  induction hwithin with
  | whole => exact h
  | inside hmem _ ih =>
    obtain ⟨hcount, hheight⟩ := measures_of_mem hmem
    obtain ⟨hcounts, hheights⟩ := validateConditionComplexity_iff.mp h.2
    exact ih ⟨isValid_of_mem h.1 hmem,
      validateConditionComplexity_iff.mpr ⟨hcount.trans hcounts, hheight.trans hheights⟩⟩

/-- An accepted expression passes the budget of the evaluator as well. -/
theorem evaluateCondition_of_accepted (h : e.Accepted) (state : Fields) :
    evaluateCondition e.dump state = evaluate state e := by
  have hbudget := checkBudget_document maxConditionNodes [(.expression e, 1)]
  have hagrees : checkBudget documentChildren maxConditionNodes [(.obj e.dump, 1)] = .ok () :=
    hbudget.trans h.2
  rw [evaluateCondition, hagrees]
  rfl

end Parts

/-! The theorem. -/

section Semantics
variable {state : Fields} {condition : ConditionExpression}

/-- A condition all of whose parts are harmless evaluates. -/
theorem exists_evaluate (hvalid : condition.isValid = true)
    (h : ∀ e, Within e condition → Harmless (.obj state) e) :
    ∃ result, evaluate state condition = .ok result := by
  induction condition with
  | all operands ih =>
    rw [ConditionExpression.isValid, Bool.and_eq_true, allValid_iff] at hvalid
    obtain ⟨hsome, hvalid⟩ := hvalid
    obtain ⟨values, hvalues⟩ := exists_evaluateAll fun e hmem =>
      ih e hmem (hvalid e hmem) fun other hother => h other (.inside hmem hother)
    refine ⟨values.all id, ?_⟩
    rw [evaluate_all (by simpa using hsome), hvalues]
    rfl
  | any operands ih =>
    rw [ConditionExpression.isValid, Bool.and_eq_true, allValid_iff] at hvalid
    obtain ⟨hsome, hvalid⟩ := hvalid
    obtain ⟨values, hvalues⟩ := exists_evaluateAll fun e hmem =>
      ih e hmem (hvalid e hmem) fun other hother => h other (.inside hmem hother)
    refine ⟨values.any id, ?_⟩
    rw [evaluate_any (by simpa using hsome), hvalues]
    rfl
  | not negated ih =>
    obtain ⟨value, hvalue⟩ := ih hvalid fun other hother => h other (.inside List.mem_cons_self hother)
    exact ⟨!value, by rw [evaluate_not, hvalue]; rfl⟩
  | comparison operator left right =>
    rw [ConditionExpression.isValid, Bool.and_eq_true] at hvalid
    obtain ⟨hleft, hright, hcomparable, -⟩ := h _ (.whole _)
    obtain ⟨result, hresult⟩ := exists_compareFound_iff.mpr hcomparable
    exact ⟨result, (evaluate_comparison_eq_ok_iff hvalid.1 hvalid.2).mpr ⟨hleft, hright, hresult⟩⟩
  | present tested =>
    exact ⟨_, (evaluate_present_eq_ok_iff hvalid).mpr ⟨(h _ (.whole _)).1, rfl⟩⟩

/-- A comparison that returns means what it should exactly if its values are distinguished. -/
theorem comparison_means_iff {operator : ComparisonOperator} {left right : ConditionOperand}
    {result : Bool} (hresult : compareFound operator (left.found? (.obj state))
      (right.found? (.obj state)) = .ok result) :
    (∀ x y, left.value? (.obj state) = some x → right.value? (.obj state) = some y →
        result = compareJson operator x y) ↔
      ∀ x y, left.value? (.obj state) = some x → right.value? (.obj state) = some y →
        Distinguished operator x y := by
  have hcompared : ∀ x y, left.value? (.obj state) = some x → right.value? (.obj state) = some y →
      compareValues operator x y = .ok result := by
    intro x y hx hy
    rw [ConditionOperand.found?_of_value? hx, ConditionOperand.found?_of_value? hy] at hresult
    exact hresult
  constructor
  · intro hmeans x y hx hy
    exact (compareValues_eq_iff (hcompared x y hx hy)).mp (hmeans x y hx hy)
  · intro hdistinguished x y hx hy
    exact (compareValues_eq_iff (hcompared x y hx hy)).mpr (hdistinguished x y hx hy)

theorem evaluate_operand {operand : ConditionExpression} (h : condition.Accepted)
    (hmem : operand ∈ condition.subexpressions) (state : Fields) :
    evaluateCondition operand.dump state = evaluate state operand :=
  evaluateCondition_of_accepted ((Within.inside hmem (.whole operand)).accepted h) state

/-- An expression with harmless parts has its meaning. -/
theorem means_of_harmless (haccepted : condition.Accepted)
    (h : ∀ e, Within e condition → Harmless (.obj state) e) : Means state condition := by
  obtain ⟨result, hresult⟩ := exists_evaluate haccepted.1 h
  refine ⟨result, (evaluateCondition_of_accepted haccepted state).trans hresult, ?_⟩
  have hoperand : ∀ operand ∈ condition.subexpressions,
      evaluateCondition operand.dump state = evaluate state operand :=
    fun operand hmem => evaluate_operand haccepted hmem state
  cases condition with
  | all operands =>
    have hsome : operands ≠ [] := by
      rintro rfl
      exact absurd haccepted.1 (by simp [ConditionExpression.isValid])
    rw [evaluate_all hsome] at hresult
    cases hvalues : evaluateAll state operands with
    | error error => exact absurd hresult (by simp [hvalues, Except.map])
    | ok values =>
      rw [hvalues] at hresult
      obtain rfl := Except.ok.inj hresult
      simp only
      rw [all_values_iff hvalues]
      exact forall₂_congr fun operand hmem => by rw [hoperand operand hmem]
  | any operands =>
    have hsome : operands ≠ [] := by
      rintro rfl
      exact absurd haccepted.1 (by simp [ConditionExpression.isValid])
    rw [evaluate_any hsome] at hresult
    cases hvalues : evaluateAll state operands with
    | error error => exact absurd hresult (by simp [hvalues, Except.map])
    | ok values =>
      rw [hvalues] at hresult
      obtain rfl := Except.ok.inj hresult
      simp only
      rw [any_values_iff hvalues]
      exact exists_congr fun operand => and_congr_right fun hmem => by rw [hoperand operand hmem]
  | not negated =>
    simp only
    rw [hoperand negated List.mem_cons_self]
    rw [evaluate_not] at hresult
    cases hvalue : evaluate state negated with
    | error error => exact absurd hresult (by simp [hvalue, Except.map])
    | ok value =>
      rw [hvalue] at hresult
      obtain rfl := Except.ok.inj hresult
      cases value <;> simp
  | comparison operator left right =>
    have hvalid := haccepted.1
    rw [ConditionExpression.isValid, Bool.and_eq_true] at hvalid
    obtain ⟨-, -, hcompared⟩ := (evaluate_comparison_eq_ok_iff hvalid.1 hvalid.2).mp hresult
    exact (comparison_means_iff hcompared).mpr (h _ (.whole _)).2.2.2
  | present tested =>
    obtain ⟨-, rfl⟩ := (evaluate_present_eq_ok_iff haccepted.1).mp hresult
    exact ConditionOperand.isSome_eq_iff.mpr (h _ (.whole _)).2

/-- An expression that has its meaning is harmless. -/
theorem harmless_of_means (haccepted : condition.Accepted) (h : Means state condition) :
    Harmless (.obj state) condition := by
  obtain ⟨result, hresult, hmeans⟩ := h
  rw [evaluateCondition_of_accepted haccepted] at hresult
  cases condition with
  | all operands => trivial
  | any operands => trivial
  | not negated => trivial
  | comparison operator left right =>
    have hvalid := haccepted.1
    rw [ConditionExpression.isValid, Bool.and_eq_true] at hvalid
    obtain ⟨hleft, hright, hcompared⟩ :=
      (evaluate_comparison_eq_ok_iff hvalid.1 hvalid.2).mp hresult
    exact ⟨hleft, hright, exists_compareFound_iff.mp ⟨result, hcompared⟩,
      (comparison_means_iff hcompared).mp hmeans⟩
  | present tested =>
    obtain ⟨hreadable, hfound⟩ := (evaluate_present_eq_ok_iff haccepted.1).mp hresult
    exact ⟨hreadable, ConditionOperand.isSome_eq_iff.mp (hfound.symm.trans hmeans)⟩

end Semantics

/-- Conditions have their JSON semantics exactly if all their parts are harmless. -/
theorem semantics_iff_harmless (condition : ConditionExpression) (state : Fields)
    (haccepted : condition.Accepted) :
    JsonSemantics state condition ↔ ∀ e, Within e condition → Harmless (.obj state) e := by
  constructor
  · intro h e hwithin
    exact harmless_of_means (hwithin.accepted haccepted) (h e hwithin)
  · intro h e hwithin
    exact means_of_harmless (hwithin.accepted haccepted) fun other hother =>
      h other (hother.trans hwithin)

/-- Whether a flag is the number one. -/
private def flagIsOne : ConditionExpression :=
  .comparison .eq (.reference "/flag") (.literal (.int 1))

theorem semantics_iff_harmless_flag :
    JsonSemantics [("flag", .int 1)] flagIsOne ↔
      ∀ e, Within e flagIsOne → Harmless (.obj [("flag", .int 1)]) e :=
  semantics_iff_harmless flagIsOne [("flag", .int 1)]
    ⟨by decide, validateConditionComplexity_iff.mpr ⟨by decide, by decide⟩⟩

/-- A flag that is true counts as the number one. -/
theorem true_taken_for_one :
    flagIsOne.Accepted ∧ ¬ JsonSemantics [("flag", .bool true)] flagIsOne := by
  have haccepted : flagIsOne.Accepted :=
    ⟨by decide, validateConditionComplexity_iff.mpr ⟨by decide, by decide⟩⟩
  refine ⟨haccepted, fun h => ?_⟩
  obtain ⟨result, hresult, hmeans⟩ := h flagIsOne (.whole _)
  have hanswer : evaluateCondition flagIsOne.dump [("flag", .bool true)] = .ok true := by decide
  obtain rfl := Except.ok.inj (hresult.symm.trans hanswer)
  exact absurd (hmeans (.bool true) (.int 1) (by decide) rfl) (by decide)

end CapabilityCompiler.Interactions
