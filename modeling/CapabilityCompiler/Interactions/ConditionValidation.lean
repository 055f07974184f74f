import CapabilityCompiler.Interactions.ConditionReading

/-! Validation of condition documents: parsing first, the recursive validator for what is handed back.
A document is accepted with what the grammar derives, and rejected otherwise, unless an operator that is
a list or an object is met. -/
namespace CapabilityCompiler.Interactions.ConditionParser
open Foundation

section Collect
variable {items : List Validation}

theorem collect_ok_of_accepted {operands : Option (List ConditionExpression)}
    (h : collect items = .ok operands) {found : List ConditionExpression}
    (hfound : operands = some found) : items = found.map .accepted := by
  induction items generalizing operands found with
  | nil =>
    obtain rfl : some [] = operands := Except.ok.inj h
    obtain rfl := Option.some.inj hfound
    rfl
  | cons item rest ih =>
    cases item with
    | typeError => cases h
    | unending => cases h
    | rejected =>
      cases hrest : collect rest with
      | error failure => simp [collect, hrest, Except.map] at h
      | ok others =>
        simp only [collect, hrest, Except.map, Except.ok.injEq] at h
        exact absurd (h.trans hfound) (by simp)
    | accepted e =>
      cases hrest : collect rest with
      | error failure => simp [collect, hrest, Except.map] at h
      | ok others =>
        simp only [collect, hrest, Except.map, Except.ok.injEq] at h
        obtain ⟨tail, htail, rfl⟩ := Option.map_eq_some_iff.mp (h.trans hfound)
        rw [ih hrest htail]
        rfl

/-- Validating the items stops with the first that neither is accepted nor rejected. -/
theorem collect_eq_error {failure : Validation} (h : collect items = .error failure) :
    failure ∈ items ∧ (failure = .typeError ∨ failure = .unending) := by
  induction items with
  | nil => cases h
  | cons item rest ih =>
    cases item with
    | typeError =>
      obtain rfl := Except.error.inj h
      exact ⟨List.mem_cons_self, .inl rfl⟩
    | unending =>
      obtain rfl := Except.error.inj h
      exact ⟨List.mem_cons_self, .inr rfl⟩
    | rejected =>
      cases hrest : collect rest with
      | ok others => simp [collect, hrest, Except.map] at h
      | error other =>
        obtain rfl : other = failure := by simpa [collect, hrest, Except.map] using h
        exact ⟨List.mem_cons_of_mem _ (ih hrest).1, (ih hrest).2⟩
    | accepted e =>
      cases hrest : collect rest with
      | ok others => simp [collect, hrest, Except.map] at h
      | error other =>
        obtain rfl : other = failure := by simpa [collect, hrest, Except.map] using h
        exact ⟨List.mem_cons_of_mem _ (ih hrest).1, (ih hrest).2⟩

theorem collect_of_typeError (hends : Validation.unending ∉ items)
    (h : Validation.typeError ∈ items) : collect items = .error .typeError := by
  induction items with
  | nil => exact absurd h List.not_mem_nil
  | cons item rest ih =>
    have hrest : Validation.unending ∉ rest := fun hin => hends (List.mem_cons_of_mem _ hin)
    cases item with
    | typeError => rfl
    | unending => exact absurd List.mem_cons_self hends
    | rejected =>
      rw [collect, ih hrest ((List.mem_cons.mp h).resolve_left (by simp))]
      rfl
    | accepted e =>
      rw [collect, ih hrest ((List.mem_cons.mp h).resolve_left (by simp))]
      rfl

end Collect

section Validation
variable {heap : Heap} {literal? : ℕ → Option Json} {levels node : ℕ} {path : List ℕ}

/-- The parser ends, with what the recursion reads. -/
theorem parseConditionExpression_eq :
    parseConditionExpression heap literal? node =
      some ((PostOrder.read (conditionVisitor heap literal?) maxConditionDepth 0 node).map
        Prod.fst) := by
  have hlocal : (conditionVisitor heap literal?).Local := conditionVisitor_local
  rw [parseConditionExpression, PostOrder.evaluate_eq hlocal]
  show some (Except.bind (Except.map _ (PostOrder.read _ maxConditionDepth 0 node)) _) = _
  cases PostOrder.read (conditionVisitor heap literal?) maxConditionDepth 0 node <;> rfl

theorem validateWithin_succ (hpath : node ∉ path) (hdict : isDict heap node = true) :
    validateWithin heap literal? (levels + 1) path node =
      match PostOrder.read (conditionVisitor heap literal?) maxConditionDepth 0 node with
      | .ok (e, _) => .accepted e
      | .error .invalid => .rejected
      | .error .typeError => .typeError
      | .error .raw => handler heap literal? (validateWithin heap literal? levels (node :: path)) node := by
  rw [validateWithin, if_neg hpath, if_pos hdict, parseConditionExpression_eq]
  cases PostOrder.read (conditionVisitor heap literal?) maxConditionDepth 0 node with
  | ok found => rfl
  | error failure => cases failure <;> rfl

theorem ofModel_ne (result : Option ConditionExpression) :
    ofModel result ≠ .typeError ∧ ofModel result ≠ .unending := by
  cases result <;> simp [ofModel]

theorem eq_some_of_ofModel {result : Option ConditionExpression} {e : ConditionExpression}
    (h : ofModel result = .accepted e) : result = some e := by
  cases result with
  | none => cases h
  | some found => rw [Validation.accepted.inj h]

section Handler
variable {validate : ℕ → Validation}

theorem derivesAll_of_accepted
    (hvalid : ∀ item e, validate item = .accepted e → Derives heap literal? e item)
    {operands : List ℕ} {found : List ConditionExpression}
    (h : operands.map validate = found.map .accepted) : DerivesAll heap literal? found operands := by
  induction operands generalizing found with
  | nil =>
    obtain rfl : found = [] := List.map_eq_nil_iff.mp h.symm
    rfl
  | cons item rest ih =>
    cases found with
    | nil => exact absurd h (by simp)
    | cons e others =>
      obtain ⟨hitem, hrest⟩ := List.cons.inj h
      exact ⟨item, rest, rfl, hvalid item e hitem, ih hrest⟩

/-- What the recursive validator accepts is derived. -/
theorem derives_of_handler
    (hvalid : ∀ item e, validate item = .accepted e → Derives heap literal? e item)
    {e : ConditionExpression} (h : handler heap literal? validate node = .accepted e) :
    Derives heap literal? e node := by
  unfold handler at h
  cases hshape : shape heap node with
  | group operator operands =>
    cases hcollect : collect (operands.map validate) with
    | error failure =>
      simp only [hshape, hcollect] at h
      obtain ⟨-, rfl | rfl⟩ := collect_eq_error hcollect <;> cases h
    | ok children =>
      simp only [hshape, hcollect] at h
      obtain ⟨hkeys, found, hfound, hne, rfl⟩ := group?_eq_some (eq_some_of_ofModel h)
      exact derives_group hshape hkeys hne
        (derivesAll_of_accepted hvalid (collect_ok_of_accepted hcollect hfound))
  | negation operand =>
    cases hcollect : collect [validate operand] with
    | error failure =>
      simp only [hshape, hcollect] at h
      obtain ⟨-, rfl | rfl⟩ := collect_eq_error hcollect <;> cases h
    | ok children =>
      simp only [hshape, hcollect] at h
      obtain ⟨hkeys, found, hfound, rfl⟩ := negation?_eq_some (eq_some_of_ofModel h)
      obtain ⟨operands, hoperands, hhead⟩ := Option.bind_eq_some_iff.mp hfound
      have hitems := collect_ok_of_accepted hcollect hoperands
      obtain ⟨first, rest, rfl⟩ := List.exists_cons_of_ne_nil
        (show operands ≠ [] by rintro rfl; simp at hhead)
      obtain rfl : first = found := Option.some.inj hhead
      obtain ⟨htext, hfield, -⟩ := negation_of_shape hshape
      exact ⟨htext, hkeys, operand, hfield, hvalid operand first (List.cons.inj hitems).1⟩
  | comparison operator =>
    simp only [hshape] at h
    obtain ⟨hkeys, left, right, hleft, hright, rfl⟩ := comparison?_eq_some (eq_some_of_ofModel h)
    exact ⟨comparison_of_shape hshape, hkeys, hleft, hright⟩
  | present =>
    simp only [hshape] at h
    obtain ⟨hkeys, operand, hoperand, rfl⟩ := present?_eq_some (eq_some_of_ofModel h)
    exact ⟨present_of_shape hshape, hkeys, hoperand⟩
  | unhashable => simp [hshape] at h
  | malformed => simp [hshape] at h

/-- The values that the recursive validator goes on with. -/
def operandsOf (heap : Heap) (node : ℕ) : List ℕ :=
  match shape heap node with
  | .group _ operands => operands
  | .negation operand => [operand]
  | _ => []

theorem unending_not_mem (hends : ∀ item, validate item ≠ .unending) (operands : List ℕ) :
    Validation.unending ∉ operands.map validate := by
  intro hin
  obtain ⟨item, -, hitem⟩ := List.mem_map.mp hin
  exact hends item hitem

theorem handler_ne_unending (hends : ∀ item, validate item ≠ .unending) :
    handler heap literal? validate node ≠ .unending := by
  intro h
  unfold handler at h
  cases hshape : shape heap node with
  | group operator operands =>
    cases hcollect : collect (operands.map validate) with
    | error failure =>
      obtain rfl : failure = .unending := by simpa only [hshape, hcollect] using h
      exact unending_not_mem hends operands (collect_eq_error hcollect).1
    | ok children => exact (ofModel_ne _).2 (by simpa only [hshape, hcollect] using h)
  | negation operand =>
    cases hcollect : collect [validate operand] with
    | error failure =>
      obtain rfl : failure = .unending := by simpa only [hshape, hcollect] using h
      exact unending_not_mem hends [operand] (collect_eq_error hcollect).1
    | ok children => exact (ofModel_ne _).2 (by simpa only [hshape, hcollect] using h)
  | comparison operator => exact (ofModel_ne _).2 (by simpa only [hshape] using h)
  | present => exact (ofModel_ne _).2 (by simpa only [hshape] using h)
  | unhashable => simp [hshape] at h
  | malformed => simp [hshape] at h

/-- The recursive validator fails where the validation of an operand does. -/
theorem handler_eq_typeError_iff (hends : ∀ item, validate item ≠ .unending) :
    handler heap literal? validate node = .typeError ↔
      ∃ item ∈ operandsOf heap node, validate item = .typeError := by
  have hcollects : ∀ operands : List ℕ, ∀ outcome : Validation,
      (∀ failure, collect (operands.map validate) = .error failure → outcome = failure) →
      (∀ children, collect (operands.map validate) = .ok children → outcome ≠ .typeError) →
      (outcome = .typeError ↔ ∃ item ∈ operands, validate item = .typeError) := by
    intro operands outcome herror hok
    constructor
    · intro h
      cases hcollect : collect (operands.map validate) with
      | ok children => exact absurd h (hok children hcollect)
      | error failure =>
        obtain rfl : failure = .typeError := (herror failure hcollect).symm.trans h
        exact List.mem_map.mp (collect_eq_error hcollect).1
    · intro h
      exact herror .typeError
        (collect_of_typeError (unending_not_mem hends operands) (List.mem_map.mpr h))
  unfold handler operandsOf
  cases hshape : shape heap node with
  | group operator operands =>
    refine hcollects operands _ (fun failure hfailure => by simp only [hfailure]) ?_
    intro children hchildren
    simpa only [hchildren] using (ofModel_ne _).1
  | negation operand =>
    have hmap : [operand].map validate = [validate operand] := rfl
    refine hcollects [operand] _ (fun failure hfailure => ?_) fun children hchildren => ?_
    · simp only [← hmap, hfailure]
    · simpa only [← hmap, hchildren] using (ofModel_ne _).1
  | comparison operator => simpa using (ofModel_ne _).1
  | present => simpa using (ofModel_ne _).1
  | unhashable => simp
  | malformed => simp

end Handler
theorem validateWithin_ne_unending : validateWithin heap literal? levels path node ≠ .unending := by
  induction levels generalizing path node with
  | zero => simp [validateWithin]
  | succ n ih =>
    by_cases hpath : node ∈ path
    · simp [validateWithin, hpath]
    by_cases hdict : isDict heap node = true
    · rw [validateWithin_succ hpath hdict]
      split
      · simp
      · simp
      · simp
      · exact handler_ne_unending fun item => ih
    · simp [validateWithin, hpath, hdict]

/-- What is accepted is derived within the limits. -/
theorem derives_of_accepted {e : ConditionExpression}
    (h : validateWithin heap literal? levels path node = .accepted e) :
    DerivesWithin heap literal? e node := by
  induction levels generalizing path node e with
  | zero => cases h
  | succ n ih =>
    by_cases hpath : node ∈ path
    · simp [validateWithin, hpath] at h
    by_cases hdict : isDict heap node = true
    · rw [validateWithin_succ hpath hdict] at h
      split at h
      · rename_i found count hread
        obtain rfl := Validation.accepted.inj h
        obtain ⟨hderives, hdepth, hcount⟩ := derives_of_read hread
        have hbound : count ≤ maxConditionNodes := (PostOrder.count_of_read hread).2
        exact ⟨hderives, hdepth, by omega⟩
      · cases h
      · cases h
      · -- The validator is fallen back on where nothing is derived.
        rename_i hread
        have hcomes := (read_eq_error_iff stopsAt_malformed).mp hread
        have hderives := derives_of_handler (fun item e haccepted => (ih haccepted).1) h
        exact absurd hderives (not_derives_of_comes hcomes e)
    · simp [validateWithin, hpath, hdict] at h

theorem accepted_of_derives {e : ConditionExpression} (hpath : node ∉ path)
    (h : DerivesWithin heap literal? e node) :
    validateWithin heap literal? (levels + 1) path node = .accepted e := by
  obtain ⟨hderives, hdepth, hsize⟩ := h
  have hread := @read_of_derives heap literal? maxConditionDepth 0 node e hderives hdepth (by omega)
  rw [validateWithin_succ hpath (isDict_of_derives hderives), hread]

theorem mem_operandsOf {item : ℕ} : item ∈ operandsOf heap node ↔
    (∃ operator operands, shape heap node = .group operator operands ∧ item ∈ operands) ∨
      shape heap node = .negation item := by
  unfold operandsOf
  cases shape heap node <;> simp [eq_comm]

theorem validateWithin_eq_typeError_iff :
    validateWithin heap literal? levels path node = .typeError ↔
      Meets heap literal? levels path node := by
  induction levels generalizing path node with
  | zero =>
    constructor
    · intro h
      cases h
    · intro h
      cases h
  | succ n ih =>
    have hhandler := @handler_eq_typeError_iff heap literal? node
      (validateWithin heap literal? n (node :: path)) fun item => validateWithin_ne_unending
    constructor
    · intro h
      by_cases hpath : node ∈ path
      · simp [validateWithin, hpath] at h
      by_cases hdict : isDict heap node = true
      · rw [validateWithin_succ hpath hdict] at h
        split at h
        · cases h
        · cases h
        · rename_i hread
          exact .reading hpath hdict ((read_eq_error_iff stopsAt_unhashable).mp hread)
        · rename_i hread
          have hcomes := (read_eq_error_iff stopsAt_malformed).mp hread
          obtain ⟨item, hitem, hfails⟩ := hhandler.mp h
          obtain ⟨operator, operands, hshape, hin⟩ | hshape := mem_operandsOf.mp hitem
          · exact .operand hpath hdict hcomes hshape hin (ih.mp hfails)
          · exact .negation hpath hdict hcomes hshape (ih.mp hfails)
      · simp [validateWithin, hpath, hdict] at h
    · intro h
      cases h with
      | reading hpath hdict hcomes =>
        rw [validateWithin_succ hpath hdict, (read_eq_error_iff stopsAt_unhashable).mpr hcomes]
      | operand hpath hdict hcomes hshape hin hmeets =>
        rw [validateWithin_succ hpath hdict, (read_eq_error_iff stopsAt_malformed).mpr hcomes]
        exact hhandler.mpr ⟨_, mem_operandsOf.mpr (.inl ⟨_, _, hshape, hin⟩), ih.mpr hmeets⟩
      | negation hpath hdict hcomes hshape hmeets =>
        rw [validateWithin_succ hpath hdict, (read_eq_error_iff stopsAt_malformed).mpr hcomes]
        exact hhandler.mpr ⟨_, mem_operandsOf.mpr (.inr hshape), ih.mpr hmeets⟩

end Validation

/-- Validation accepts what the grammar derives within the limits, as what it derives, and rejects
everything else. -/
structure ParsesGrammar (heap : Heap) (literal? : ℕ → Option Json) (ceiling root : ℕ) : Prop where
  accepted : ∀ e, validateCondition heap literal? ceiling root = .accepted e ↔
    DerivesWithin heap literal? e root
  rejected : (¬ ∃ e, DerivesWithin heap literal? e root) →
    validateCondition heap literal? ceiling root = .rejected

/-- The parser is the grammar unless it meets an operator that is a list or an object. -/
theorem parsesGrammar_iff (heap : Heap) (literal? : ℕ → Option Json) (ceiling root : ℕ) :
    ParsesGrammar heap literal? ceiling root ↔ ¬ Meets heap literal? (ceiling + 1) [] root := by
  have hpath : root ∉ ([] : List ℕ) := List.not_mem_nil
  have haccepted : ∀ e, validateCondition heap literal? ceiling root = .accepted e ↔
      DerivesWithin heap literal? e root :=
    fun e => ⟨derives_of_accepted, accepted_of_derives hpath⟩
  constructor
  · intro h hmeets
    have hfails : validateCondition heap literal? ceiling root = .typeError :=
      validateWithin_eq_typeError_iff.mpr hmeets
    by_cases hderives : ∃ e, DerivesWithin heap literal? e root
    · obtain ⟨e, he⟩ := hderives
      exact absurd (hfails.symm.trans ((h.accepted e).mpr he)) (by simp)
    · exact absurd (hfails.symm.trans (h.rejected hderives)) (by simp)
  · intro hmeets
    refine ⟨haccepted, fun hnone => ?_⟩
    cases hresult : validateCondition heap literal? ceiling root with
    | accepted e => exact absurd ⟨e, (haccepted e).mp hresult⟩ hnone
    | rejected => rfl
    | typeError => exact absurd (validateWithin_eq_typeError_iff.mp hresult) hmeets
    | unending => exact absurd hresult validateWithin_ne_unending

/-- The document of one field, an operator that is an empty list. -/
def listOperator : Heap
  | 0 => .dict [("operator", 1)]
  | _ => .list []

theorem listOperator_raises : ¬ ParsesGrammar listOperator (fun _ => none) 255 0 := by
  intro h
  have hfails : validateCondition listOperator (fun _ => none) 255 0 = .typeError := rfl
  have hnone : ¬ ∃ e, DerivesWithin listOperator (fun _ => none) e 0 := by
    rintro ⟨e, he⟩
    exact absurd (hfails.symm.trans ((h.accepted e).mpr he)) (by simp)
  exact absurd (hfails.symm.trans (h.rejected hnone)) (by simp)

end CapabilityCompiler.Interactions.ConditionParser
