import CapabilityCompiler.Interactions.ConditionGrammar

/-! The iterative parser reads exactly what the grammar derives, within its limits, and stops where the
reading in order does. -/
namespace CapabilityCompiler.Interactions.ConditionParser
open Foundation

section Operands
variable {heap : Heap} {literal? : ℕ → Option Json}

/-- Results of operands, if all of them are objects. -/
theorem mapM_objects {operands : List ℕ} {f : ℕ → Option ConditionExpression}
    {found : List ConditionExpression}
    (h : (operands.mapM fun child => if isDict heap child then f child else none) = some found) :
    (∀ child ∈ operands, isDict heap child = true) ∧ operands.mapM f = some found := by
  induction operands generalizing found with
  | nil => exact ⟨by simp, h⟩
  | cons child rest ih =>
    rw [List.mapM_cons] at h
    by_cases hdict : isDict heap child = true
    · rw [if_pos hdict] at h
      obtain ⟨first, hfirst, h⟩ := Option.bind_eq_some_iff.mp h
      obtain ⟨others, hothers, hfound⟩ := Option.bind_eq_some_iff.mp h
      have hrest := ih hothers
      refine ⟨List.forall_mem_cons.mpr ⟨hdict, hrest.1⟩, ?_⟩
      rw [List.mapM_cons, hfirst, hrest.2]
      exact hfound
    · rw [if_neg hdict] at h
      exact absurd h (by simp)

theorem mapM_congr {operands : List ℕ} {f g : ℕ → Option ConditionExpression}
    (h : ∀ child ∈ operands, f child = g child) : operands.mapM f = operands.mapM g := by
  induction operands with
  | nil => rfl
  | cons child rest ih =>
    have hrest := ih fun other hother => h other (List.mem_cons_of_mem _ hother)
    rw [List.mapM_cons, List.mapM_cons, h child List.mem_cons_self, hrest]

theorem filter_objects {operands : List ℕ} (h : ∀ child ∈ operands, isDict heap child = true) :
    operands.filter (isDict heap) = operands :=
  List.filter_eq_self.mpr h

theorem orInvalid_eq_ok {α : Type} {result : Option α} {a : α} (h : orInvalid result = .ok a) :
    result = some a := by
  cases result with
  | none => exact absurd h (by simp [orInvalid])
  | some b => rw [Except.ok.inj h]

theorem group?_eq_some {operator : List ConditionExpression → ConditionExpression} {node : ℕ}
    {operands : Option (List ConditionExpression)} {e : ConditionExpression}
    (h : group? heap operator node operands = some e) :
    onlyKeys heap node ["operands", "operator"] = true ∧
      ∃ found, operands = some found ∧ found ≠ [] ∧ e = operator found := by
  unfold group? at h
  split_ifs at h with hkeys
  refine ⟨hkeys, ?_⟩
  split at h
  · rename_i first rest
    exact ⟨first :: rest, rfl, by simp, (Option.some.inj h).symm⟩
  · exact absurd h (by simp)

theorem group?_of_ne_nil {operator : List ConditionExpression → ConditionExpression} {node : ℕ}
    {operands : List ConditionExpression}
    (hkeys : onlyKeys heap node ["operands", "operator"] = true) (h : operands ≠ []) :
    group? heap operator node (some operands) = some (operator operands) := by
  obtain ⟨first, rest, rfl⟩ := List.exists_cons_of_ne_nil h
  rw [group?, if_pos hkeys]

theorem negation?_eq_some {node : ℕ} {operand : Option ConditionExpression} {e : ConditionExpression}
    (h : negation? heap node operand = some e) :
    onlyKeys heap node ["operand", "operator"] = true ∧ ∃ found, operand = some found ∧
      e = .not found := by
  unfold negation? at h
  split_ifs at h with hkeys
  obtain ⟨found, hfound, rfl⟩ := Option.map_eq_some_iff.mp h
  exact ⟨hkeys, found, hfound, rfl⟩

theorem comparison?_eq_some {operator : ComparisonOperator} {node : ℕ} {e : ConditionExpression}
    (h : comparison? heap literal? operator node = some e) :
    onlyKeys heap node ["left", "operator", "right"] = true ∧ ∃ left right,
      operandField? heap literal? node "left" = some left ∧
      operandField? heap literal? node "right" = some right ∧ e = .comparison operator left right := by
  unfold comparison? at h
  split_ifs at h with hkeys
  refine ⟨hkeys, ?_⟩
  split at h
  · rename_i left right hleft hright
    exact ⟨left, right, hleft, hright, (Option.some.inj h).symm⟩
  · exact absurd h (by simp)

theorem present?_eq_some {node : ℕ} {e : ConditionExpression}
    (h : present? heap literal? node = some e) :
    onlyKeys heap node ["operand", "operator"] = true ∧ ∃ operand,
      operandField? heap literal? node "operand" = some operand ∧ e = .present operand := by
  unfold present? at h
  split_ifs at h with hkeys
  obtain ⟨operand, hoperand, rfl⟩ := Option.map_eq_some_iff.mp h
  exact ⟨hkeys, operand, hoperand, rfl⟩

theorem derives_group {operator : List ConditionExpression → ConditionExpression} {node : ℕ}
    {operands : List ℕ} {found : List ConditionExpression}
    (hshape : shape heap node = .group operator operands)
    (hkeys : onlyKeys heap node ["operands", "operator"] = true) (hne : found ≠ [])
    (h : DerivesAll heap literal? found operands) : Derives heap literal? (operator found) node := by
  obtain ⟨hids, ⟨htext, rfl⟩ | ⟨htext, rfl⟩⟩ := group_of_shape hshape
  · exact ⟨htext, hkeys, hne, operands, hids, h⟩
  · exact ⟨htext, hkeys, hne, operands, hids, h⟩

theorem measure_group {operator : List ConditionExpression → ConditionExpression} {node : ℕ}
    {operands : List ℕ} (hshape : shape heap node = .group operator operands)
    (found : List ConditionExpression) :
    (operator found).depth = 1 + depthAll found ∧ (operator found).size = 1 + sizeAll found := by
  obtain ⟨-, ⟨-, rfl⟩ | ⟨-, rfl⟩⟩ := group_of_shape hshape <;> exact ⟨rfl, rfl⟩

/-- A derived group is the one of its operands. -/
theorem exists_of_derives_group {operator : List ConditionExpression → ConditionExpression}
    {node : ℕ} {operands : List ℕ} {e : ConditionExpression}
    (hshape : shape heap node = .group operator operands) (h : Derives heap literal? e node) :
    ∃ found, DerivesAll heap literal? found operands := by
  obtain ⟨hids, htext⟩ := group_of_shape hshape
  cases e with
  | all found =>
    obtain ⟨-, -, -, ids, hids', hall⟩ := h
    obtain rfl := Option.some.inj (hids.symm.trans hids')
    exact ⟨found, hall⟩
  | any found =>
    obtain ⟨-, -, -, ids, hids', hall⟩ := h
    obtain rfl := Option.some.inj (hids.symm.trans hids')
    exact ⟨found, hall⟩
  | _ =>
    have hother := shape_of_derives h
    simp [hshape] at hother

theorem exists_of_derives_negation {node operand : ℕ} {e : ConditionExpression}
    (hshape : shape heap node = .negation operand) (h : Derives heap literal? e node) :
    ∃ found, Derives heap literal? found operand := by
  cases e with
  | not found =>
    obtain ⟨-, -, id, hid, hderives⟩ := h
    obtain rfl := Option.some.inj ((negation_of_shape hshape).2.1.symm.trans hid)
    exact ⟨found, hderives⟩
  | _ =>
    have hother := shape_of_derives h
    simp [hshape] at hother

theorem exists_of_derivesAll {operands : List ConditionExpression} {ids : List ℕ}
    (h : DerivesAll heap literal? operands ids) : ∀ id ∈ ids, ∃ e, Derives heap literal? e id := by
  induction operands generalizing ids with
  | nil =>
    obtain rfl : ids = [] := h
    simp
  | cons operand rest ih =>
    obtain ⟨id, others, rfl, hid, hothers⟩ := h
    exact List.forall_mem_cons.mpr ⟨⟨operand, hid⟩, ih hothers⟩

end Operands

section Reading
variable {heap : Heap} {literal? : ℕ → Option Json} {levels count count' node : ℕ}

theorem conditionVisitor_local : (conditionVisitor heap literal?).Local := by
  intro node below f g hbelow hsame
  simp only [conditionVisitor] at hbelow ⊢
  cases hshape : shape heap node with
  | group operator operands =>
    simp only [hshape, Except.ok.injEq] at hbelow ⊢
    subst hbelow
    rw [mapM_congr]
    intro child hchild
    split_ifs with hdict
    · exact hsame child (List.mem_filter.mpr ⟨hchild, hdict⟩)
    · rfl
  | negation operand =>
    simp only [hshape, Except.ok.injEq] at hbelow ⊢
    subst hbelow
    rw [hsame operand List.mem_cons_self]
  | _ => rfl

/-- The objects that are read one after the other are derived, in order. -/
theorem derivesAll_of_readAll {reader : ℕ → ℕ → Except Interruption (ConditionExpression × ℕ)}
    (hreader : ∀ count node e count', reader count node = .ok (e, count') →
      Derives heap literal? e node ∧ e.depth ≤ levels ∧ count' = count + e.size)
    {nodes : List ℕ} {results : Table ℕ ConditionExpression}
    (h : PostOrder.readAll reader count nodes = .ok (results, count')) :
    DerivesAll heap literal? (results.map Prod.snd) nodes ∧
      depthAll (results.map Prod.snd) ≤ levels ∧
      count' = count + sizeAll (results.map Prod.snd) := by
  induction nodes generalizing count results with
  | nil =>
    obtain ⟨rfl, rfl⟩ := Prod.mk.inj (Except.ok.inj h)
    exact ⟨rfl, Nat.zero_le _, rfl⟩
  | cons node rest ih =>
    obtain ⟨e, next, others, hnode, hrest, rfl⟩ := PostOrder.readAll_cons_eq_ok h
    obtain ⟨hderives, hdepth, hnext⟩ := hreader _ _ _ _ hnode
    obtain ⟨hall, hdepths, hlast⟩ := ih hrest
    refine ⟨⟨node, rest, rfl, hderives, hall⟩, Nat.max_le.mpr ⟨hdepth, hdepths⟩, ?_⟩
    simp only [List.map_cons, sizeAll]
    omega

/-- What is read is derived. -/
theorem derives_of_read {e : ConditionExpression}
    (h : PostOrder.read (conditionVisitor heap literal?) levels count node = .ok (e, count')) :
    Derives heap literal? e node ∧ e.depth ≤ levels ∧ count' = count + e.size := by
  induction levels generalizing count node e count' with
  | zero => exact absurd h (by simp [PostOrder.read])
  | succ n ih =>
    obtain ⟨-, below, results, hbelow, hall, hfinish⟩ := PostOrder.read_succ_eq_ok h
    have hreads := derivesAll_of_readAll (fun _ _ _ _ hread => ih hread) hall
    simp only [conditionVisitor] at hbelow hfinish
    cases hshape : shape heap node with
    | group operator operands =>
      simp only [hshape, Except.ok.injEq] at hbelow hfinish
      obtain ⟨hkeys, found, hfound, hne, rfl⟩ := group?_eq_some (orInvalid_eq_ok hfinish)
      obtain ⟨hobjects, hlookup⟩ := mapM_objects hfound
      obtain rfl : operands = below := (filter_objects hobjects).symm.trans hbelow
      rw [PostOrder.mapM_get?_of_readAll conditionVisitor_local hall] at hlookup
      rw [Option.some.inj hlookup] at hreads
      obtain ⟨hderives, hdepth, hcount⟩ := hreads
      obtain ⟨hdepthOf, hsizeOf⟩ := measure_group hshape found
      exact ⟨derives_group hshape hkeys hne hderives, by omega, by omega⟩
    | negation operand =>
      simp only [hshape, Except.ok.injEq] at hbelow hfinish
      subst hbelow
      obtain ⟨hkeys, found, hfound, rfl⟩ := negation?_eq_some (orInvalid_eq_ok hfinish)
      obtain ⟨first, next, others, hoperand, hrest, rfl⟩ := PostOrder.readAll_cons_eq_ok hall
      obtain ⟨rfl, rfl⟩ := Prod.mk.inj (Except.ok.inj hrest)
      obtain rfl : first = found := by simpa [Table.get?_cons] using hfound
      obtain ⟨hderives, hdepth, hcount⟩ := ih hoperand
      obtain ⟨htext, hfield, -⟩ := negation_of_shape hshape
      refine ⟨⟨htext, hkeys, operand, hfield, hderives⟩, ?_, ?_⟩
      · simp only [ConditionExpression.depth]
        omega
      · simp only [ConditionExpression.size]
        omega
    | comparison operator =>
      simp only [hshape, Except.ok.injEq] at hbelow hfinish
      subst hbelow
      obtain ⟨-, rfl⟩ := Prod.mk.inj (Except.ok.inj hall)
      obtain ⟨hkeys, left, right, hleft, hright, rfl⟩ :=
        comparison?_eq_some (orInvalid_eq_ok hfinish)
      exact ⟨⟨comparison_of_shape hshape, hkeys, hleft, hright⟩, Nat.le_add_left 1 n, rfl⟩
    | present =>
      simp only [hshape, Except.ok.injEq] at hbelow hfinish
      subst hbelow
      obtain ⟨-, rfl⟩ := Prod.mk.inj (Except.ok.inj hall)
      obtain ⟨hkeys, operand, hoperand, rfl⟩ := present?_eq_some (orInvalid_eq_ok hfinish)
      exact ⟨⟨present_of_shape hshape, hkeys, hoperand⟩, Nat.le_add_left 1 n, rfl⟩
    | unhashable => simp [hshape] at hfinish
    | malformed => simp [hshape] at hfinish

/-- Objects that are derived are read one after the other. -/
theorem readAll_of_derivesAll {operands : List ConditionExpression}
    (hreads : ∀ operand ∈ operands, ∀ count node, Derives heap literal? operand node →
      operand.depth ≤ levels → count + operand.size ≤ maxConditionNodes →
      PostOrder.read (conditionVisitor heap literal?) levels count node =
        .ok (operand, count + operand.size))
    {ids : List ℕ} (h : DerivesAll heap literal? operands ids) (hdepth : depthAll operands ≤ levels)
    (hsize : count + sizeAll operands ≤ maxConditionNodes) :
    ∃ results, PostOrder.readAll (PostOrder.read (conditionVisitor heap literal?) levels) count ids =
      .ok (results, count + sizeAll operands) ∧ results.map Prod.snd = operands := by
  induction operands generalizing count ids with
  | nil =>
    obtain rfl : ids = [] := h
    exact ⟨[], rfl, rfl⟩
  | cons operand rest ih =>
    obtain ⟨id, others, rfl, hderives, hothers⟩ := h
    obtain ⟨hfirst, hlater⟩ := Nat.max_le.mp hdepth
    simp only [sizeAll] at hsize ⊢
    have hread := hreads operand List.mem_cons_self count id hderives hfirst (by omega)
    obtain ⟨results, hall, hresults⟩ := @ih (count + operand.size)
      (fun other hother => hreads other (List.mem_cons_of_mem _ hother)) others hothers hlater
      (by omega)
    refine ⟨(id, operand) :: results, ?_, by rw [List.map_cons, hresults]⟩
    simp only [PostOrder.readAll, hread, hall, Nat.add_assoc]

/-- A group is read when its operands are. -/
theorem read_group {operator : List ConditionExpression → ConditionExpression} {ids : List ℕ}
    {operands : List ConditionExpression} {results : Table ℕ ConditionExpression}
    (hshape : shape heap node = .group operator ids)
    (hkeys : onlyKeys heap node ["operands", "operator"] = true) (hne : operands ≠ [])
    (hobjects : ∀ id ∈ ids, isDict heap id = true) (hcount : count + 1 ≤ maxConditionNodes)
    (hall : PostOrder.readAll (PostOrder.read (conditionVisitor heap literal?) levels) (count + 1)
      ids = .ok (results, count')) (hresults : results.map Prod.snd = operands) :
    PostOrder.read (conditionVisitor heap literal?) (levels + 1) count node =
      .ok (operator operands, count') := by
  have hlookup := PostOrder.mapM_get?_of_readAll conditionVisitor_local hall
  rw [hresults] at hlookup
  have hparsed : (ids.mapM fun child => if isDict heap child then results.get? child else none) =
      some operands := by
    rw [← hlookup]
    exact mapM_congr fun child hchild => if_pos (hobjects child hchild)
  refine PostOrder.read_succ_of_ok hcount ?_ hall ?_
  · simp only [conditionVisitor, hshape, filter_objects hobjects]
  · simp only [conditionVisitor, hshape, hparsed, group?_of_ne_nil hkeys hne, orInvalid]

theorem objects_of_derivesAll {operands : List ConditionExpression} {ids : List ℕ}
    (h : DerivesAll heap literal? operands ids) : ∀ id ∈ ids, isDict heap id = true := by
  intro id hid
  obtain ⟨e, he⟩ := exists_of_derivesAll h id hid
  exact isDict_of_derives he

/-- What is derived is read, within the limits. -/
theorem read_of_derives {e : ConditionExpression} (h : Derives heap literal? e node)
    (hdepth : e.depth ≤ levels) (hsize : count + e.size ≤ maxConditionNodes) :
    PostOrder.read (conditionVisitor heap literal?) levels count node =
      .ok (e, count + e.size) := by
  induction e generalizing levels count node with
  | all operands ih =>
    obtain ⟨htext, hkeys, hne, ids, hids, hall⟩ := h
    simp only [ConditionExpression.depth, ConditionExpression.size] at hdepth hsize ⊢
    obtain ⟨n, rfl⟩ : ∃ n, levels = n + 1 := ⟨levels - 1, by omega⟩
    obtain ⟨results, hread, hresults⟩ := @readAll_of_derivesAll heap literal? n (count + 1) operands
      (fun operand hoperand _ _ hderives hd hs => ih operand hoperand hderives hd hs) ids hall
      (by omega) (by omega)
    rw [← Nat.add_assoc]
    refine read_group ?_ hkeys hne (objects_of_derivesAll hall) (by omega) hread hresults
    rw [shape_of_text htext, namedShape, groupShape_eq hids]
  | any operands ih =>
    obtain ⟨htext, hkeys, hne, ids, hids, hall⟩ := h
    simp only [ConditionExpression.depth, ConditionExpression.size] at hdepth hsize ⊢
    obtain ⟨n, rfl⟩ : ∃ n, levels = n + 1 := ⟨levels - 1, by omega⟩
    obtain ⟨results, hread, hresults⟩ := @readAll_of_derivesAll heap literal? n (count + 1) operands
      (fun operand hoperand _ _ hderives hd hs => ih operand hoperand hderives hd hs) ids hall
      (by omega) (by omega)
    rw [← Nat.add_assoc]
    refine read_group ?_ hkeys hne (objects_of_derivesAll hall) (by omega) hread hresults
    rw [shape_of_text htext, namedShape, groupShape_eq hids]
  | not operand ih =>
    obtain ⟨htext, hkeys, id, hid, hderives⟩ := h
    simp only [ConditionExpression.depth, ConditionExpression.size] at hdepth hsize ⊢
    obtain ⟨n, rfl⟩ : ∃ n, levels = n + 1 := ⟨levels - 1, by omega⟩
    have hshape : shape heap node = .negation id := by
      rw [shape_of_text htext, namedShape, negationShape, hid]
      simp only [isDict_of_derives hderives, if_true]
    have hread := @ih n (count + 1) id hderives (by omega) (by omega)
    rw [← Nat.add_assoc]
    have hall : PostOrder.readAll (PostOrder.read (conditionVisitor heap literal?) n) (count + 1)
        [id] = .ok ([(id, operand)], count + 1 + operand.size) := by
      simp only [PostOrder.readAll, hread]
    refine PostOrder.read_succ_of_ok (show count + 1 ≤ maxConditionNodes by omega) ?_ hall ?_
    · simp only [conditionVisitor, hshape]
    · simp only [conditionVisitor, hshape, Table.get?_cons, if_true, negation?, hkeys,
        Option.map_some, orInvalid]
  | comparison operator left right =>
    have hshape : shape heap node = .comparison operator := shape_of_derives h
    obtain ⟨-, hkeys, hleft, hright⟩ := h
    simp only [ConditionExpression.depth, ConditionExpression.size] at hdepth hsize ⊢
    obtain ⟨n, rfl⟩ : ∃ n, levels = n + 1 := ⟨levels - 1, by omega⟩
    have hall : PostOrder.readAll (PostOrder.read (conditionVisitor heap literal?) n) (count + 1)
        [] = .ok ([], count + 1) := rfl
    refine PostOrder.read_succ_of_ok (show count + 1 ≤ maxConditionNodes from hsize) ?_ hall ?_
    · simp only [conditionVisitor, hshape]
    · simp only [conditionVisitor, hshape, comparison?, hkeys, if_true, hleft, hright, orInvalid]
  | present operand =>
    have hshape : shape heap node = .present := shape_of_derives h
    obtain ⟨-, hkeys, hoperand⟩ := h
    simp only [ConditionExpression.depth, ConditionExpression.size] at hdepth hsize ⊢
    obtain ⟨n, rfl⟩ : ∃ n, levels = n + 1 := ⟨levels - 1, by omega⟩
    have hall : PostOrder.readAll (PostOrder.read (conditionVisitor heap literal?) n) (count + 1)
        [] = .ok ([], count + 1) := rfl
    refine PostOrder.read_succ_of_ok (show count + 1 ≤ maxConditionNodes from hsize) ?_ hall ?_
    · simp only [conditionVisitor, hshape]
    · simp only [conditionVisitor, hshape, present?, hkeys, if_true, hoperand, Option.map_some,
        orInvalid]

/-! Where reading stops. -/

/-- Entering or leaving an object fails with the failure only where the object has the shape. -/
structure StopsAt (heap : Heap) (literal? : ℕ → Option Json) (target : Shape → Bool)
    (failure : Interruption) : Prop where
  other : failure ≠ .invalid
  entering : ∀ node, (conditionVisitor heap literal?).children node = .error failure →
    target (shape heap node) = true
  leaving : ∀ node parsed, (conditionVisitor heap literal?).finish node parsed = .error failure →
    target (shape heap node) = true
  reached : ∀ levels count node, count < maxConditionNodes → target (shape heap node) = true →
    PostOrder.read (conditionVisitor heap literal?) (levels + 1) count node = .error failure

theorem stopsAt_unhashable : StopsAt heap literal? Shape.isUnhashable .typeError where
  other := by simp
  entering node h := by
    cases hshape : shape heap node <;> simp_all [conditionVisitor, Shape.isUnhashable]
  leaving node parsed h := by
    simp only [conditionVisitor, orInvalid] at h
    cases hshape : shape heap node <;> simp only [hshape] at h
    all_goals first | rfl | cases h | (split at h <;> cases h)
  reached levels count node hcount h := by
    have hshape : shape heap node = .unhashable := by
      cases hshape : shape heap node <;> simp_all [Shape.isUnhashable]
    rw [PostOrder.read_succ_of_lt hcount]
    simp only [conditionVisitor, hshape]

theorem stopsAt_malformed : StopsAt heap literal? Shape.isMalformed .raw where
  other := by simp
  entering node h := by
    cases hshape : shape heap node <;> simp_all [conditionVisitor]
  leaving node parsed h := by
    simp only [conditionVisitor, orInvalid] at h
    cases hshape : shape heap node <;> simp only [hshape] at h
    all_goals first | rfl | cases h | (split at h <;> cases h)
  reached levels count node hcount h := by
    have hshape : shape heap node = .malformed := by
      cases hshape : shape heap node <;> simp_all [Shape.isMalformed]
    rw [PostOrder.read_succ_of_lt hcount]
    simp only [conditionVisitor, hshape, PostOrder.readAll]

/-- Reading fails so where reading in order comes to the shape. -/
theorem read_eq_error_iff {target : Shape → Bool} {failure : Interruption}
    (hstops : StopsAt heap literal? target failure) :
    PostOrder.read (conditionVisitor heap literal?) levels count node = .error failure ↔
      Comes heap literal? target levels count node := by
  constructor
  · intro h
    induction levels generalizing count node with
    | zero => exact absurd (Except.error.inj h).symm hstops.other
    | succ n ih =>
      rw [PostOrder.read] at h
      split_ifs at h with hmany
      · exact absurd (Except.error.inj h).symm hstops.other
      have hcount : count < maxConditionNodes := Nat.not_lt.mp hmany
      cases hbelow : (conditionVisitor heap literal?).children node with
      | error first =>
        obtain rfl : first = failure := by simpa [hbelow] using h
        exact .here hcount (hstops.entering node hbelow)
      | ok below =>
        cases hall : PostOrder.readAll (PostOrder.read (conditionVisitor heap literal?) n) (count + 1)
            below with
        | ok found =>
          obtain ⟨results, last⟩ := found
          cases hfinish : (conditionVisitor heap literal?).finish node (Table.get? · results) with
          | ok e => simp [hbelow, hall, hfinish] at h
          | error first =>
            obtain rfl : first = failure := by simpa [hbelow, hall, hfinish] using h
            exact .here hcount (hstops.leaving node _ hfinish)
        | error first =>
          obtain rfl : first = failure := by simpa [hbelow, hall] using h
          obtain ⟨before, child, after, results, next, rfl, hbefore, hchild⟩ :=
            PostOrder.readAll_eq_error_iff.mp hall
          obtain ⟨hderives, hdepth, rfl⟩ :=
            derivesAll_of_readAll (fun _ _ _ _ hread => derives_of_read hread) hbefore
          have hcomes := ih hchild
          simp only [conditionVisitor] at hbelow
          cases hshape : shape heap node with
          | group operator operands =>
            simp only [hshape, Except.ok.injEq] at hbelow
            have hbound := (PostOrder.count_of_readAll
              (fun _ _ _ _ hread => PostOrder.count_of_read hread) hbefore hcount).2
            exact .operand hcount hshape hbelow hderives hdepth hbound hcomes
          | negation operand =>
            simp only [hshape, Except.ok.injEq] at hbelow
            cases before with
            | nil =>
              obtain ⟨rfl, -⟩ := List.cons.inj hbelow
              obtain ⟨rfl, -⟩ := Prod.mk.inj (Except.ok.inj hbefore)
              exact .negation hcount hshape hcomes
            | cons other before => simp at hbelow
          | _ => simp [hshape] at hbelow
  · intro h
    induction h with
    | here hcount htarget => exact hstops.reached _ _ _ hcount htarget
    | @operand n count node child operator operands before after read hcount hshape hsplit hderives
        hdepth hsize _ ih =>
      obtain ⟨results, hbefore, -⟩ := readAll_of_derivesAll
        (fun operand _ _ _ hderives hd hs => read_of_derives hderives hd hs) hderives hdepth hsize
      have hall := PostOrder.readAll_eq_error_iff.mpr
        ⟨before, child, after, results, _, hsplit, hbefore, ih⟩
      have hbelow : (conditionVisitor heap literal?).children node =
          .ok (operands.filter (isDict heap)) := by
        simp only [conditionVisitor, hshape]
      rw [PostOrder.read_succ_of_lt (show count < (conditionVisitor heap literal?).maxNodes from hcount)]
      simp only [hbelow, hall]
    | @negation n count node operand hcount hshape _ ih =>
      have hbelow : (conditionVisitor heap literal?).children node = .ok [operand] := by
        simp only [conditionVisitor, hshape]
      rw [PostOrder.read_succ_of_lt (show count < (conditionVisitor heap literal?).maxNodes from hcount)]
      simp only [hbelow, PostOrder.readAll, ih]

/-- Where reading comes to a malformed object, nothing is derived. -/
theorem not_derives_of_comes (h : Comes heap literal? Shape.isMalformed levels count node)
    (e : ConditionExpression) : ¬ Derives heap literal? e node := by
  induction h generalizing e with
  | here _ htarget =>
    intro hderives
    have hshape := shape_of_derives hderives
    cases e <;> simp only at hshape
    · obtain ⟨ids, hids⟩ := hshape
      simp [hids, Shape.isMalformed] at htarget
    · obtain ⟨ids, hids⟩ := hshape
      simp [hids, Shape.isMalformed] at htarget
    · obtain ⟨id, hid⟩ := hshape
      simp [hid, Shape.isMalformed] at htarget
    · simp [hshape, Shape.isMalformed] at htarget
    · simp [hshape, Shape.isMalformed] at htarget
  | operand _ hshape hsplit _ _ _ _ ih =>
    intro hderives
    obtain ⟨found, hfound⟩ := exists_of_derives_group hshape hderives
    obtain ⟨child, hchild⟩ := exists_of_derivesAll hfound _ (List.mem_filter.mp
      (hsplit ▸ List.mem_append_right _ List.mem_cons_self)).1
    exact ih child hchild
  | negation _ hshape _ ih =>
    intro hderives
    obtain ⟨found, hfound⟩ := exists_of_derives_negation hshape hderives
    exact ih found hfound

end Reading
end CapabilityCompiler.Interactions.ConditionParser
