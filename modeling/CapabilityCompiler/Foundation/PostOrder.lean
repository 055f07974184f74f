import CapabilityCompiler.Foundation.Table
import Mathlib.Tactic.Common

/-! Post-order evaluation with an explicit stack. Nodes are entered and left; the result of a node is
kept in a table under the node itself, so that nodes may be shared. Depth and number of visits are
bounded, so that cycles end too. The stack machine computes what the recursion does. -/
namespace CapabilityCompiler.Foundation.PostOrder

/-- What entering and leaving a node do. Entering gives the nodes below, in the order of their visits;
leaving looks up their results. -/
structure Visitor (κ α ε : Type) where
  children : κ → Except ε (List κ)
  finish : κ → (κ → Option α) → Except ε α
  maxDepth : ℕ
  maxNodes : ℕ
  tooDeep : ε
  tooMany : ε

/-- Leaving a node looks at nothing but the results of the nodes below it. -/
def Visitor.Local {κ α ε : Type} (v : Visitor κ α ε) : Prop :=
  ∀ node below f g, v.children node = .ok below → (∀ child ∈ below, f child = g child) →
    v.finish node f = v.finish node g

structure Frame (κ : Type) where
  node : κ
  left : Bool
  depth : ℕ

section Evaluation
variable {κ α ε : Type} [DecidableEq κ] (v : Visitor κ α ε)

/-- The machine: what is on the stack, the results so far and the visits so far. -/
def run : ℕ → List (Frame κ) → Table κ α → ℕ → Option (Except ε (Table κ α))
  | _, [], results, _ => some (.ok results)
  | 0, _ :: _, _, _ => none
  | fuel + 1, ⟨node, false, depth⟩ :: rest, results, count =>
    if v.maxDepth < depth then some (.error v.tooDeep)
    else if v.maxNodes < count + 1 then some (.error v.tooMany)
    else match v.children node with
      | .error e => some (.error e)
      | .ok below =>
        run fuel (below.map (⟨·, false, depth + 1⟩) ++ ⟨node, true, depth⟩ :: rest) results (count + 1)
  | fuel + 1, ⟨node, true, _⟩ :: rest, results, count =>
    match v.finish node (Table.get? · results) with
    | .error e => some (.error e)
    | .ok a => run fuel rest (results.put node a) count

/-- The result of a node, if the machine leaves it; every visit takes two steps. -/
def evaluate (root : κ) : Option (Except ε (Option α)) :=
  (run v (2 * v.maxNodes + 1) [⟨root, false, 1⟩] [] 0).map (Except.map (Table.get? root))

/-- Read nodes one after the other. -/
def readAll (read : ℕ → κ → Except ε (α × ℕ)) : ℕ → List κ → Except ε (Table κ α × ℕ)
  | count, [] => .ok ([], count)
  | count, node :: rest =>
    match read count node with
    | .error e => .error e
    | .ok (a, count) =>
      match readAll read count rest with
      | .error e => .error e
      | .ok (others, count) => .ok ((node, a) :: others, count)

/-- The recursion, with the levels that are left and the visits so far. -/
def read : ℕ → ℕ → κ → Except ε (α × ℕ)
  | 0, _, _ => .error v.tooDeep
  | levels + 1, count, node =>
    if v.maxNodes < count + 1 then .error v.tooMany
    else match v.children node with
      | .error e => .error e
      | .ok below =>
        match readAll (read levels) (count + 1) below with
        | .error e => .error e
        | .ok (results, count) =>
          match v.finish node (Table.get? · results) with
          | .error e => .error e
          | .ok a => .ok (a, count)

/-! The recursion. -/

section Recursion
variable {v} {levels count count' : ℕ} {node : κ} {a : α}

/-- What a successful visit did. -/
theorem read_succ_eq_ok (h : read v (levels + 1) count node = .ok (a, count')) :
    count + 1 ≤ v.maxNodes ∧ ∃ below results, v.children node = .ok below ∧
      readAll (read v levels) (count + 1) below = .ok (results, count') ∧
      v.finish node (Table.get? · results) = .ok a := by
  rw [read] at h
  split_ifs at h with hmany
  refine ⟨by omega, ?_⟩
  cases hbelow : v.children node with
  | error e => simp [hbelow] at h
  | ok below =>
    cases hall : readAll (read v levels) (count + 1) below with
    | error e => simp [hbelow, hall] at h
    | ok found =>
      obtain ⟨results, last⟩ := found
      cases hfinish : v.finish node (Table.get? · results) with
      | error e => simp [hbelow, hall, hfinish] at h
      | ok result =>
        simp only [hbelow, hall, hfinish, Except.ok.injEq, Prod.mk.injEq] at h
        obtain ⟨rfl, rfl⟩ := h
        exact ⟨below, results, rfl, hall, hfinish⟩

/-- A visit within the bound on visits. -/
theorem read_succ_of_lt (h : count < v.maxNodes) :
    read v (levels + 1) count node = match v.children node with
      | .error e => .error e
      | .ok below =>
        match readAll (read v levels) (count + 1) below with
        | .error e => .error e
        | .ok (results, count) =>
          match v.finish node (Table.get? · results) with
          | .error e => .error e
          | .ok a => .ok (a, count) := by
  rw [read, if_neg (by omega)]

theorem read_succ_of_ok {below : List κ} {results : Table κ α} (hmany : count + 1 ≤ v.maxNodes)
    (hbelow : v.children node = .ok below)
    (hall : readAll (read v levels) (count + 1) below = .ok (results, count'))
    (hfinish : v.finish node (Table.get? · results) = .ok a) :
    read v (levels + 1) count node = .ok (a, count') := by
  simp only [read_succ_of_lt hmany, hbelow, hall, hfinish]

omit [DecidableEq κ] in
theorem readAll_cons_eq_ok {reader : ℕ → κ → Except ε (α × ℕ)} {rest : List κ}
    {results : Table κ α} (h : readAll reader count (node :: rest) = .ok (results, count')) :
    ∃ a next others, reader count node = .ok (a, next) ∧
      readAll reader next rest = .ok (others, count') ∧ results = (node, a) :: others := by
  rw [readAll] at h
  cases hnode : reader count node with
  | error e => simp [hnode] at h
  | ok found =>
    obtain ⟨a, next⟩ := found
    cases hrest : readAll reader next rest with
    | error e => simp [hnode, hrest] at h
    | ok others =>
      obtain ⟨others, last⟩ := others
      simp only [hnode, hrest, Except.ok.injEq, Prod.mk.injEq] at h
      obtain ⟨rfl, rfl⟩ := h
      exact ⟨a, next, others, rfl, hrest, rfl⟩

/-- Every node that was read has a result. -/
theorem exists_of_readAll {reader : ℕ → κ → Except ε (α × ℕ)} {nodes : List κ}
    {results : Table κ α} (h : readAll reader count nodes = .ok (results, count')) :
    ∀ child ∈ nodes, ∃ a before after, results.get? child = some a ∧
      reader before child = .ok (a, after) := by
  induction nodes generalizing count results with
  | nil => simp
  | cons node rest ih =>
    obtain ⟨a, next, others, hnode, hrest, rfl⟩ := readAll_cons_eq_ok h
    intro child hchild
    by_cases heq : node = child
    · subst heq
      exact ⟨a, count, next, by rw [Table.get?_cons, if_pos rfl], hnode⟩
    · obtain ⟨b, before, after, hget, hread⟩ :=
        ih hrest child ((List.mem_cons.mp hchild).resolve_left (Ne.symm heq))
      exact ⟨b, before, after, by rw [Table.get?_cons, if_neg heq, hget], hread⟩

/-- The result of a node depends on nothing but the node. -/
theorem read_unique (hlocal : v.Local) {levels' start start' : ℕ} {b : α}
    (h : read v levels start node = .ok (a, count))
    (h' : read v levels' start' node = .ok (b, count')) : a = b := by
  induction levels generalizing levels' start start' node a b count count' with
  | zero => exact absurd h (by simp [read])
  | succ n ih =>
    cases levels' with
    | zero => exact absurd h' (by simp [read])
    | succ n' =>
      obtain ⟨-, below, results, hbelow, hall, hfinish⟩ := read_succ_eq_ok h
      obtain ⟨-, below', results', hbelow', hall', hfinish'⟩ := read_succ_eq_ok h'
      obtain rfl : below = below' := Except.ok.inj (hbelow.symm.trans hbelow')
      have hsame : ∀ child ∈ below, results.get? child = results'.get? child := by
        intro child hchild
        obtain ⟨x, before, after, hget, hread⟩ := exists_of_readAll hall child hchild
        obtain ⟨y, before', after', hget', hread'⟩ := exists_of_readAll hall' child hchild
        rw [hget, hget', ih hread hread']
      rw [hlocal node below _ _ hbelow hsame, hfinish'] at hfinish
      exact (Except.ok.inj hfinish).symm

/-- The results of nodes that were read, each looked up under its node. -/
theorem mapM_get?_of_readAll (hlocal : v.Local) {nodes : List κ} {results : Table κ α}
    (h : readAll (read v levels) count nodes = .ok (results, count')) :
    nodes.mapM (Table.get? · results) = some (results.map Prod.snd) := by
  have hlookup : ∀ (rest : List κ) (others : Table κ α) (start : ℕ), rest ⊆ nodes →
      readAll (read v levels) start rest = .ok (others, count') →
      rest.mapM (Table.get? · results) = some (others.map Prod.snd) := by
    intro rest
    induction rest with
    | nil =>
      intro others start _ hrest
      obtain ⟨rfl, -⟩ := Prod.mk.inj (Except.ok.inj hrest)
      rfl
    | cons node rest ih =>
      intro others start hsub hrest
      obtain ⟨a, next, more, hnode, hmore, rfl⟩ := readAll_cons_eq_ok hrest
      obtain ⟨b, before, after, hget, hread⟩ := exists_of_readAll h node (hsub List.mem_cons_self)
      have hsame : b = a := read_unique hlocal hread hnode
      have htail := ih more next (fun other hother => hsub (List.mem_cons_of_mem _ hother)) hmore
      rw [List.mapM_cons, hget, htail, hsame]
      rfl
  exact hlookup nodes results count (fun _ hnode => hnode) h

omit [DecidableEq κ] in
/-- Reading nodes stops at one of them, after the ones before it. -/
theorem readAll_eq_error_iff {reader : ℕ → κ → Except ε (α × ℕ)} {nodes : List κ} {e : ε} :
    readAll reader count nodes = .error e ↔ ∃ before child after results next,
      nodes = before ++ child :: after ∧ readAll reader count before = .ok (results, next) ∧
        reader next child = .error e := by
  induction nodes generalizing count with
  | nil => simp [readAll]
  | cons node rest ih =>
    constructor
    · intro h
      cases hnode : reader count node with
      | error first =>
        obtain rfl : first = e := by simpa [readAll, hnode] using h
        exact ⟨[], node, rest, [], count, rfl, rfl, hnode⟩
      | ok found =>
        obtain ⟨a, next⟩ := found
        have hrest : readAll reader next rest = .error e := by
          cases hothers : readAll reader next rest with
          | error other => simpa [readAll, hnode, hothers] using h
          | ok others => simp [readAll, hnode, hothers] at h
        obtain ⟨before, child, after, results, last, rfl, hbefore, hchild⟩ := ih.mp hrest
        refine ⟨node :: before, child, after, (node, a) :: results, last, rfl, ?_, hchild⟩
        simp only [readAll, hnode, hbefore]
    · rintro ⟨before, child, after, results, last, heq, hbefore, hchild⟩
      cases before with
      | nil =>
        obtain ⟨rfl, rfl⟩ := List.cons.inj heq
        obtain ⟨-, rfl⟩ := Prod.mk.inj (Except.ok.inj hbefore)
        simp only [readAll, hchild]
      | cons first before =>
        obtain ⟨rfl, rfl⟩ := List.cons.inj heq
        obtain ⟨a, next, others, hnode, hothers, -⟩ := readAll_cons_eq_ok hbefore
        have hrest := ih.mpr ⟨before, child, after, others, last, rfl, hothers, hchild⟩
        simp only [readAll, hnode, hrest]

omit [DecidableEq κ] in
theorem count_of_readAll {reader : ℕ → κ → Except ε (α × ℕ)}
    (hreader : ∀ before node a after, reader before node = .ok (a, after) →
      before < after ∧ after ≤ v.maxNodes) {nodes : List κ} {results : Table κ α}
    (h : readAll reader count nodes = .ok (results, count')) (hcount : count ≤ v.maxNodes) :
    count ≤ count' ∧ count' ≤ v.maxNodes := by
  induction nodes generalizing count results with
  | nil =>
    obtain ⟨rfl, rfl⟩ := Prod.mk.inj (Except.ok.inj h)
    exact ⟨Nat.le_refl _, hcount⟩
  | cons node rest ih =>
    obtain ⟨a, next, others, hnode, hrest, -⟩ := readAll_cons_eq_ok h
    obtain ⟨hlt, hle⟩ := hreader _ _ _ _ hnode
    obtain ⟨hfrom, hto⟩ := ih hrest hle
    exact ⟨by omega, hto⟩

/-- A visit is counted, and the count stays within its bound. -/
theorem count_of_read (h : read v levels count node = .ok (a, count')) :
    count < count' ∧ count' ≤ v.maxNodes := by
  induction levels generalizing count node a count' with
  | zero => exact absurd h (by simp [read])
  | succ n ih =>
    obtain ⟨hmany, below, results, -, hall, -⟩ := read_succ_eq_ok h
    obtain ⟨hfrom, hto⟩ := count_of_readAll (fun before node a after hread => ih hread) hall hmany
    exact ⟨by omega, hto⟩

end Recursion

/-! The machine follows the recursion. -/

section Machine
variable {v} {levels depth count count' : ℕ} {node : κ} {rest : List (Frame κ)}
  {results : Table κ α}

variable (v) in
/-- Every result in the table is the one of its node. -/
def Sound (results : Table κ α) : Prop :=
  ∀ node a, results.get? node = some a →
    ∃ levels before after, read v levels before node = .ok (a, after)

theorem Sound.put {a : α} (h : Sound v results) (hread : read v levels count node = .ok (a, count')) :
    Sound v (results.put node a) := by
  intro other b hget
  by_cases heq : other = node
  · subst heq
    rw [Table.get?_put_self] at hget
    exact ⟨levels, count, count', Option.some.inj hget ▸ hread⟩
  · rw [Table.get?_put_of_ne heq] at hget
    exact h other b hget

/-- What the machine has done when it is through with some nodes. -/
structure Through (v : Visitor κ α ε) (results : Table κ α) (nodes : List κ) (after : Table κ α) :
    Prop where
  sound : Sound v after
  kept : ∀ node, (results.get? node).isSome = true → (after.get? node).isSome = true
  found : ∀ node ∈ nodes, (after.get? node).isSome = true

theorem isSome_put {other : κ} {a : α} (h : (results.get? other).isSome = true) :
    ((results.put node a).get? other).isSome = true := by
  by_cases heq : other = node
  · rw [heq, Table.get?_put_self]
    rfl
  · rwa [Table.get?_put_of_ne heq]

/-- A sound table answers like the results of the children. -/
theorem finish_eq (hlocal : v.Local) {below : List κ} {after children : Table κ α}
    (hbelow : v.children node = .ok below) (hthrough : Through v results below after)
    (hall : readAll (read v levels) count below = .ok (children, count')) :
    v.finish node (Table.get? · after) = v.finish node (Table.get? · children) := by
  refine hlocal node below _ _ hbelow fun child hchild => ?_
  obtain ⟨b, hb⟩ := Option.isSome_iff_exists.mp (hthrough.found child hchild)
  obtain ⟨_, _, _, hread⟩ := hthrough.sound child b hb
  obtain ⟨c, _, _, hc, hread'⟩ := exists_of_readAll hall child hchild
  rw [hb, hc, read_unique hlocal hread hread']

/-- The machine is through with a node after two steps for each visit. -/
def Visits (v : Visitor κ α ε) (levels depth : ℕ) : Prop :=
  ∀ count count' node a (rest : List (Frame κ)) results, Sound v results →
    read v levels count node = .ok (a, count') →
    ∃ after, Through v results [node] after ∧ ∀ fuel,
      run v (fuel + 2 * (count' - count)) (⟨node, false, depth⟩ :: rest) results count =
        run v fuel rest after count'

theorem visits_all (hvisits : Visits v levels depth) {nodes : List κ} {children : Table κ α}
    (hsound : Sound v results)
    (hall : readAll (read v levels) count nodes = .ok (children, count')) :
    ∃ after, Through v results nodes after ∧ ∀ fuel,
      run v (fuel + 2 * (count' - count)) (nodes.map (⟨·, false, depth⟩) ++ rest) results count =
        run v fuel rest after count' := by
  induction nodes generalizing count results children with
  | nil =>
    obtain ⟨-, rfl⟩ := Prod.mk.inj (Except.ok.inj hall)
    exact ⟨results, ⟨hsound, fun _ h => h, by simp⟩, fun fuel => by simp⟩
  | cons node nodes ih =>
    obtain ⟨a, next, others, hnode, hrest, -⟩ := readAll_cons_eq_ok hall
    obtain ⟨middle, hmiddle, hfirst⟩ := hvisits count next node a
      (nodes.map (⟨·, false, depth⟩) ++ rest) results hsound hnode
    obtain ⟨after, hafter, hothers⟩ := ih hmiddle.sound hrest
    refine ⟨after, ⟨hafter.sound, fun other h => hafter.kept other (hmiddle.kept other h), ?_⟩,
      fun fuel => ?_⟩
    · intro other hother
      rcases List.mem_cons.mp hother with rfl | hin
      · exact hafter.kept other (hmiddle.found other List.mem_cons_self)
      · exact hafter.found other hin
    · have hcounted := count_of_read hnode
      have hlater := count_of_readAll (fun before node a after hread => count_of_read hread) hrest
        hcounted.2
      have hsplit : fuel + 2 * (count' - count) =
          fuel + 2 * (count' - next) + 2 * (next - count) := by omega
      rw [List.map_cons, List.cons_append, hsplit, hfirst, hothers]

theorem visits (hlocal : v.Local) (hdepth : depth + levels = v.maxDepth + 1) :
    Visits v levels depth := by
  induction levels generalizing depth with
  | zero =>
    intro count count' node a rest results hsound hread
    exact absurd hread (by simp [read])
  | succ n ih =>
    intro count count' node a rest results hsound hread
    obtain ⟨hmany, below, children, hbelow, hall, hfinish⟩ := read_succ_eq_ok hread
    obtain ⟨middle, hmiddle, hmachine⟩ := @visits_all κ α ε _ v n (depth + 1) (count + 1) count'
      (⟨node, true, depth⟩ :: rest) results (ih (by omega)) below children hsound hall
    have hleave := finish_eq hlocal hbelow hmiddle hall
    refine ⟨middle.put node a, ⟨hmiddle.sound.put hread,
      fun other h => isSome_put (hmiddle.kept other h), ?_⟩, fun fuel => ?_⟩
    · intro other hother
      obtain rfl := List.mem_singleton.mp hother
      rw [Table.get?_put_self]
      rfl
    · have hcounted := count_of_readAll (fun before node a after hread => count_of_read hread) hall
        hmany
      have hsplit : fuel + 2 * (count' - count) =
          fuel + 1 + 2 * (count' - (count + 1)) + 1 := by omega
      rw [hsplit, run, if_neg (by omega), if_neg (by omega)]
      simp only [hbelow]
      rw [hmachine, run]
      simp only [hleave, hfinish]

/-- The machine stops where the recursion does. -/
def Stops (v : Visitor κ α ε) (levels depth : ℕ) : Prop :=
  ∀ count node e (rest : List (Frame κ)) results, Sound v results → count ≤ v.maxNodes →
    read v levels count node = .error e → ∃ steps ≤ 2 * (v.maxNodes - count) + 1, ∀ fuel,
      run v (fuel + steps) (⟨node, false, depth⟩ :: rest) results count = some (.error e)

theorem stops_all (hvisits : Visits v levels depth) (hstops : Stops v levels depth) {e : ε}
    {nodes : List κ} (hsound : Sound v results) (hcount : count ≤ v.maxNodes)
    (hall : readAll (read v levels) count nodes = .error e) :
    ∃ steps ≤ 2 * (v.maxNodes - count) + 1, ∀ fuel,
      run v (fuel + steps) (nodes.map (⟨·, false, depth⟩) ++ rest) results count =
        some (.error e) := by
  induction nodes generalizing count results with
  | nil => exact absurd hall (by simp [readAll])
  | cons node nodes ih =>
    cases hnode : read v levels count node with
    | error first =>
      obtain rfl : first = e := by simpa [readAll, hnode] using hall
      exact hstops count node first _ results hsound hcount hnode
    | ok found =>
      obtain ⟨a, next⟩ := found
      have hrest : readAll (read v levels) next nodes = .error e := by
        cases hothers : readAll (read v levels) next nodes with
        | error other => simpa [readAll, hnode, hothers] using hall
        | ok others => simp [readAll, hnode, hothers] at hall
      obtain ⟨middle, hmiddle, hfirst⟩ := hvisits count next node a
        (nodes.map (⟨·, false, depth⟩) ++ rest) results hsound hnode
      have hcounted := count_of_read hnode
      obtain ⟨steps, hsteps, hothers⟩ := ih hmiddle.sound hcounted.2 hrest
      refine ⟨steps + 2 * (next - count), by omega, fun fuel => ?_⟩
      rw [List.map_cons, List.cons_append, ← Nat.add_assoc, hfirst, hothers]

theorem stops (hlocal : v.Local) (hdepth : depth + levels = v.maxDepth + 1) :
    Stops v levels depth := by
  induction levels generalizing depth with
  | zero =>
    intro count node e rest results _ _ hread
    refine ⟨1, by omega, fun fuel => ?_⟩
    rw [run, if_pos (by omega)]
    rw [read] at hread
    rw [Except.error.inj hread]
  | succ n ih =>
    intro count node e rest results hsound hcount hread
    have hdeep : ¬ v.maxDepth < depth := by omega
    rw [read] at hread
    split_ifs at hread with hmany
    · refine ⟨1, by omega, fun fuel => ?_⟩
      rw [run, if_neg hdeep, if_pos hmany, Except.error.inj hread]
    cases hbelow : v.children node with
    | error first =>
      obtain rfl : first = e := by simpa [hbelow] using hread
      refine ⟨1, by omega, fun fuel => ?_⟩
      rw [run, if_neg hdeep, if_neg hmany]
      simp only [hbelow]
    | ok below =>
      have hvisits : Visits v n (depth + 1) := visits hlocal (by omega)
      cases hall : readAll (read v n) (count + 1) below with
      | error first =>
        obtain rfl : first = e := by simpa [hbelow, hall] using hread
        obtain ⟨steps, hsteps, hmachine⟩ := @stops_all κ α ε _ v n (depth + 1) (count + 1)
          (⟨node, true, depth⟩ :: rest) results hvisits (ih (by omega)) first below hsound
          (by omega) hall
        refine ⟨steps + 1, by omega, fun fuel => ?_⟩
        rw [← Nat.add_assoc, run, if_neg hdeep, if_neg hmany]
        simp only [hbelow]
        exact hmachine fuel
      | ok found =>
        obtain ⟨children, count'⟩ := found
        obtain ⟨middle, hmiddle, hmachine⟩ := @visits_all κ α ε _ v n (depth + 1) (count + 1) count'
          (⟨node, true, depth⟩ :: rest) results hvisits below children hsound hall
        have hleave := finish_eq hlocal hbelow hmiddle hall
        have hcounted := count_of_readAll (fun before node a after hread => count_of_read hread)
          hall (by omega)
        cases hfinish : v.finish node (Table.get? · children) with
        | ok a => simp [hbelow, hall, hfinish] at hread
        | error first =>
          obtain rfl : first = e := by simpa [hbelow, hall, hfinish] using hread
          refine ⟨1 + 2 * (count' - (count + 1)) + 1, by omega, fun fuel => ?_⟩
          rw [← Nat.add_assoc, ← Nat.add_assoc, run, if_neg hdeep, if_neg hmany]
          simp only [hbelow]
          rw [hmachine, run]
          simp only [hleave, hfinish]

/-- The machine ends, with what the recursion gives. -/
theorem evaluate_eq (hlocal : v.Local) (root : κ) :
    evaluate v root = some ((read v v.maxDepth 0 root).map fun found => some found.1) := by
  have hempty : Sound v ([] : Table κ α) := fun _ _ h => absurd h (by simp)
  unfold evaluate
  cases hread : read v v.maxDepth 0 root with
  | error e =>
    obtain ⟨steps, hsteps, hmachine⟩ :=
      stops hlocal (Nat.add_comm 1 v.maxDepth) 0 root e [] [] hempty (Nat.zero_le _) hread
    have hfuel : 2 * v.maxNodes + 1 = 2 * v.maxNodes + 1 - steps + steps := by omega
    rw [hfuel, hmachine]
    rfl
  | ok found =>
    obtain ⟨a, count⟩ := found
    obtain ⟨after, hthrough, hmachine⟩ :=
      visits hlocal (Nat.add_comm 1 v.maxDepth) 0 count root a [] [] hempty hread
    have hcounted := count_of_read hread
    have hfuel : 2 * v.maxNodes + 1 = 2 * v.maxNodes + 1 - 2 * (count - 0) + 2 * (count - 0) := by
      omega
    obtain ⟨b, hb⟩ := Option.isSome_iff_exists.mp (hthrough.found root List.mem_cons_self)
    obtain ⟨_, _, _, hagain⟩ := hthrough.sound root b hb
    obtain rfl := read_unique hlocal hread hagain
    rw [hfuel, hmachine]
    simp [run, Except.map, hb]

end Machine

end Evaluation
end CapabilityCompiler.Foundation.PostOrder
