import Mathlib.Data.List.Basic

/-! Memoized depth-first evaluation of an AND/OR graph: a goal met again is taken as proven. -/
namespace CapabilityCompiler.Foundation.Search

/-- A part of a combined verdict: a report known already, or a goal still to be evaluated. -/
inductive Item (G R : Type) where
  | report (r : R)
  | goal (g : G)

/-- How the verdict on a goal comes from its parts. -/
inductive Expansion (G R : Type) where
  | done (r : R)
  | defer (next : G)
  | all (items : List (Item G R))
  | any (goals : List G) (failure : R)

def itemGoals {G R : Type} : List (Item G R) → List G
  | [] => []
  | .report _ :: rest => itemGoals rest
  | .goal g :: rest => g :: itemGoals rest

def Expansion.goals {G R : Type} : Expansion G R → List G
  | .done _ => []
  | .defer next => [next]
  | .all items => itemGoals items
  | .any goals _ => goals

structure Problem (G K R : Type) where
  settle : G → Option R
  key : G → K
  expand : G → Expansion G R
  combine : List R → R
  proven : R
  isProven : R → Bool

section Evaluation
variable {G K R : Type} [DecidableEq K]

def evalItems (eval : List K → G → Option (R × List K)) :
    List K → List (Item G R) → Option (List R × List K)
  | visited, [] => some ([], visited)
  | visited, .report r :: rest => do
    let (rs, visited) ← evalItems eval visited rest
    return (r :: rs, visited)
  | visited, .goal g :: rest => do
    let (r, visited) ← eval visited g
    let (rs, visited) ← evalItems eval visited rest
    return (r :: rs, visited)

/-- The verdict on a goal and the keys visited; `none` when the fuel runs out. -/
def Problem.eval (pb : Problem G K R) : ℕ → List K → G → Option (R × List K)
  | 0, _, _ => none
  | fuel + 1, visited, g =>
    match pb.settle g with
    | some r => some (r, visited)
    | none =>
      if pb.key g ∈ visited then some (pb.proven, visited)
      else match pb.expand g with
        | .done r => some (r, pb.key g :: visited)
        | .defer next => pb.eval fuel (pb.key g :: visited) next
        | .all items => do
          let (rs, visited) ← evalItems (pb.eval fuel) (pb.key g :: visited) items
          return (pb.combine rs, visited)
        | .any goals failure => do
          let (rs, visited) ← evalItems (pb.eval fuel) (pb.key g :: visited) (goals.map .goal)
          return (if rs.any pb.isProven then pb.proven else failure, visited)

/-- The visited keys apart: a key is closed once the alternative it was first met in is over.
The memo stays clean as long as no closed key is met again. -/
structure Memo (K : Type) where
  opened : List K
  closed : List K
  clean : Bool

def scanItems (scan : Memo K → G → Memo K) : Memo K → List (Item G R) → Memo K
  | memo, [] => memo
  | memo, .report _ :: rest => scanItems scan memo rest
  | memo, .goal g :: rest => scanItems scan (scan memo g) rest

def Memo.close (before after : Memo K) : Memo K where
  opened := before.opened
  closed := after.opened ++ after.closed
  clean := after.clean

def scanBranches (scan : Memo K → G → Memo K) : Memo K → List G → Memo K
  | memo, [] => memo
  | memo, g :: rest => scanBranches scan (memo.close (scan memo g)) rest

/-- The memo after the evaluation of a goal, whatever the verdicts. -/
def Problem.scan (pb : Problem G K R) : ℕ → Memo K → G → Memo K
  | 0, memo, _ => memo
  | fuel + 1, memo, g =>
    match pb.settle g with
    | some _ => memo
    | none =>
      if pb.key g ∈ memo.opened then memo
      else if pb.key g ∈ memo.closed then { memo with clean := false }
      else
        let entered := { memo with opened := pb.key g :: memo.opened }
        match pb.expand g with
        | .done _ => entered
        | .defer next => pb.scan fuel entered next
        | .all items => scanItems (pb.scan fuel) entered items
        | .any goals _ => scanBranches (pb.scan fuel) entered goals

/-- The keys of a memo are the visited keys. -/
def Memo.Tracks (memo : Memo K) (visited : List K) : Prop :=
  ∀ k, k ∈ visited ↔ k ∈ memo.opened ∨ k ∈ memo.closed

end Evaluation

/-- What makes a verdict mean something: `Holds` follows from proven parts, keys name goals, and
`rank` decreases, so that a goal is never a part of itself. -/
structure Problem.Sound {G K R : Type} (pb : Problem G K R) (Ok Holds : G → Prop)
    (rank : G → ℕ) : Prop where
  settle : ∀ g r, Ok g → pb.settle g = some r → pb.isProven r = true → Holds g
  key : ∀ g h, Ok g → Ok h → pb.settle g = none → pb.settle h = none →
    pb.key g = pb.key h → rank g = rank h ∧ (Holds g → Holds h)
  combine : ∀ rs, pb.isProven (pb.combine rs) = true → ∀ r ∈ rs, pb.isProven r = true
  part : ∀ g h, Ok g → pb.settle g = none → h ∈ (pb.expand g).goals → Ok h ∧ rank h < rank g
  done : ∀ g r, Ok g → pb.settle g = none → pb.expand g = .done r → pb.isProven r = true → Holds g
  defer : ∀ g next, Ok g → pb.settle g = none → pb.expand g = .defer next →
    Holds next → Holds g
  all : ∀ g items, Ok g → pb.settle g = none → pb.expand g = .all items →
    (∀ r, Item.report r ∈ items → pb.isProven r = true) →
    (∀ h, Item.goal h ∈ items → Holds h) → Holds g
  any : ∀ g goals failure, Ok g → pb.settle g = none → pb.expand g = .any goals failure →
    pb.isProven failure = false ∧ ∀ h ∈ goals, Holds h → Holds g

/-- The goals an evaluation can come to. -/
inductive Problem.Reaches {G K R : Type} (pb : Problem G K R) (top : G) : G → Prop where
  | top : pb.Reaches top top
  | part {g h : G} : pb.Reaches top g → pb.settle g = none → h ∈ (pb.expand g).goals →
    pb.Reaches top h

/-- A list of goals that is closed under evaluation holds every goal reached from it. -/
theorem Problem.Reaches.mem_of_closed {G K R : Type} {pb : Problem G K R} {top g : G}
    (h : pb.Reaches top g) (goals : List G) (htop : top ∈ goals)
    (hclosed : ∀ g ∈ goals, ∀ h ∈ (pb.expand g).goals, h ∈ goals) : g ∈ goals := by
  induction h with
  | top => exact htop
  | part _ _ hmem ih => exact hclosed _ ih _ hmem

theorem mem_itemGoals {G R : Type} {items : List (Item G R)} {g : G} :
    g ∈ itemGoals items ↔ Item.goal g ∈ items := by
  induction items with
  | nil => simp [itemGoals]
  | cons item rest ih => cases item <;> simp [itemGoals, ih]

section Tracking
variable {G K R : Type} {eval : List K → G → Option (R × List K)} {scan : Memo K → G → Memo K}

theorem evalItems_report_eq_some {visited visited' : List K} {r : R} {rest : List (Item G R)}
    {rs : List R} (h : evalItems eval visited (.report r :: rest) = some (rs, visited')) :
    ∃ tail, evalItems eval visited rest = some (tail, visited') ∧ rs = r :: tail := by
  simp only [evalItems, Option.bind_eq_bind, Option.bind_eq_some_iff, Option.pure_def,
    Option.some.injEq, Prod.mk.injEq] at h
  obtain ⟨⟨tail, visited''⟩, htail, rfl, rfl⟩ := h
  exact ⟨tail, htail, rfl⟩

theorem evalItems_goal_eq_some {visited visited' : List K} {g : G} {rest : List (Item G R)}
    {rs : List R} (h : evalItems eval visited (.goal g :: rest) = some (rs, visited')) :
    ∃ r between tail, eval visited g = some (r, between) ∧
      evalItems eval between rest = some (tail, visited') ∧ rs = r :: tail := by
  simp only [evalItems, Option.bind_eq_bind, Option.bind_eq_some_iff, Option.pure_def,
    Option.some.injEq, Prod.mk.injEq] at h
  obtain ⟨⟨r, between⟩, hr, ⟨tail, visited''⟩, htail, rfl, rfl⟩ := h
  exact ⟨r, between, tail, hr, htail, rfl⟩

theorem evalItems_subset {items : List (Item G R)} {visited visited' : List K} {rs : List R}
    (heval : ∀ visited g r visited', eval visited g = some (r, visited') → visited ⊆ visited')
    (h : evalItems eval visited items = some (rs, visited')) : visited ⊆ visited' := by
  induction items generalizing visited rs with
  | nil =>
    simp only [evalItems, Option.some.injEq, Prod.mk.injEq] at h
    rw [h.2]
    exact List.Subset.refl visited'
  | cons item rest ih =>
    cases item with
    | report r =>
      obtain ⟨tail, htail, -⟩ := evalItems_report_eq_some h
      exact ih htail
    | goal g =>
      obtain ⟨r, between, tail, hr, htail, -⟩ := evalItems_goal_eq_some h
      exact List.Subset.trans (heval visited g r between hr) (ih htail)

theorem scanItems_tracks {items : List (Item G R)} {visited visited' : List K} {rs : List R}
    {memo : Memo K}
    (hscan : ∀ visited g r visited' memo, eval visited g = some (r, visited') →
      memo.Tracks visited → (scan memo g).Tracks visited')
    (h : evalItems eval visited items = some (rs, visited')) (hmemo : memo.Tracks visited) :
    (scanItems scan memo items).Tracks visited' := by
  induction items generalizing visited rs memo with
  | nil =>
    simp only [evalItems, Option.some.injEq, Prod.mk.injEq] at h
    rw [scanItems, ← h.2]
    exact hmemo
  | cons item rest ih =>
    cases item with
    | report r =>
      obtain ⟨tail, htail, -⟩ := evalItems_report_eq_some h
      exact ih htail hmemo
    | goal g =>
      obtain ⟨r, between, tail, hr, htail, -⟩ := evalItems_goal_eq_some h
      exact ih htail (hscan visited g r between memo hr hmemo)

theorem Memo.Tracks.close {before after : Memo K} {visited visited' : List K}
    (hbefore : before.Tracks visited) (hafter : after.Tracks visited')
    (hsub : visited ⊆ visited') : (before.close after).Tracks visited' := by
  intro k
  simp only [Memo.close, List.mem_append, hafter k]
  constructor
  · exact .inr
  · rintro (hk | hk)
    · exact (hafter k).mp (hsub ((hbefore k).mpr (.inl hk)))
    · exact hk

theorem scanBranches_tracks {goals : List G} {visited visited' : List K} {rs : List R}
    {memo : Memo K}
    (heval : ∀ visited g r visited', eval visited g = some (r, visited') → visited ⊆ visited')
    (hscan : ∀ visited g r visited' memo, eval visited g = some (r, visited') →
      memo.Tracks visited → (scan memo g).Tracks visited')
    (h : evalItems eval visited (goals.map .goal) = some (rs, visited'))
    (hmemo : memo.Tracks visited) : (scanBranches scan memo goals).Tracks visited' := by
  induction goals generalizing visited rs memo with
  | nil =>
    simp only [List.map_nil, evalItems, Option.some.injEq, Prod.mk.injEq] at h
    rw [scanBranches, ← h.2]
    exact hmemo
  | cons g rest ih =>
    obtain ⟨r, between, tail, hr, htail, -⟩ := evalItems_goal_eq_some h
    have hafter := hscan visited g r between memo hr hmemo
    exact ih htail (hmemo.close hafter (heval visited g r between hr))

theorem scanItems_clean {items : List (Item G R)} {memo : Memo K}
    (hscan : ∀ memo g, (scan memo g).clean = true → memo.clean = true)
    (h : (scanItems scan memo items).clean = true) : memo.clean = true := by
  induction items generalizing memo with
  | nil => exact h
  | cons item rest ih =>
    cases item with
    | report r => exact ih h
    | goal g => exact hscan memo g (ih h)

theorem scanBranches_clean {goals : List G} {memo : Memo K}
    (hscan : ∀ memo g, (scan memo g).clean = true → memo.clean = true)
    (h : (scanBranches scan memo goals).clean = true) : memo.clean = true := by
  induction goals generalizing memo with
  | nil => exact h
  | cons g rest ih =>
    have hclosed : (memo.close (scan memo g)).clean = true := ih h
    exact hscan memo g hclosed

theorem scanBranches_opened {goals : List G} {memo : Memo K} :
    (scanBranches scan memo goals).opened = memo.opened := by
  induction goals generalizing memo with
  | nil => rfl
  | cons g rest ih => exact ih

def Memo.enter (memo : Memo K) (k : K) : Memo K :=
  { memo with opened := k :: memo.opened }

theorem Memo.Tracks.enter {memo : Memo K} {visited : List K} (h : memo.Tracks visited) (k : K) :
    (memo.enter k).Tracks (k :: visited) := by
  intro l
  simp only [Memo.enter, List.mem_cons, h l]
  tauto

end Tracking

section Soundness
variable {G K R : Type} [DecidableEq K] {pb : Problem G K R} {Ok Holds : G → Prop} {rank : G → ℕ}

/-- The shape of one evaluation step at a goal that is neither settled nor visited. -/
theorem eval_fresh {fuel : ℕ} {visited visited' : List K} {g : G} {r : R}
    (hsettle : pb.settle g = none) (hkey : pb.key g ∉ visited)
    (h : pb.eval (fuel + 1) visited g = some (r, visited')) :
    (pb.expand g = .done r ∧ visited' = pb.key g :: visited) ∨
    (∃ next, pb.expand g = .defer next ∧
      pb.eval fuel (pb.key g :: visited) next = some (r, visited')) ∨
    (∃ items rs, pb.expand g = .all items ∧
      evalItems (pb.eval fuel) (pb.key g :: visited) items = some (rs, visited') ∧
      r = pb.combine rs) ∨
    (∃ goals failure rs, pb.expand g = .any goals failure ∧
      evalItems (pb.eval fuel) (pb.key g :: visited) (goals.map .goal) = some (rs, visited') ∧
      r = if rs.any pb.isProven then pb.proven else failure) := by
  simp only [Problem.eval, hsettle, hkey, if_false] at h
  cases hexpand : pb.expand g with
  | done s =>
    simp only [hexpand, Option.some.injEq, Prod.mk.injEq] at h
    exact .inl ⟨by rw [h.1], h.2.symm⟩
  | defer next =>
    rw [hexpand] at h
    exact .inr (.inl ⟨next, rfl, h⟩)
  | all items =>
    simp only [hexpand, Option.bind_eq_bind, Option.bind_eq_some_iff, Option.pure_def,
      Option.some.injEq, Prod.mk.injEq] at h
    obtain ⟨⟨rs, after⟩, hitems, hr, rfl⟩ := h
    exact .inr (.inr (.inl ⟨items, rs, rfl, hitems, hr.symm⟩))
  | any goals failure =>
    simp only [hexpand, Option.bind_eq_bind, Option.bind_eq_some_iff, Option.pure_def,
      Option.some.injEq, Prod.mk.injEq] at h
    obtain ⟨⟨rs, after⟩, hitems, hr, rfl⟩ := h
    exact .inr (.inr (.inr ⟨goals, failure, rs, rfl, hitems, hr.symm⟩))

theorem eval_settled {fuel : ℕ} {visited visited' : List K} {g : G} {r s : R}
    (hsettle : pb.settle g = some s) (h : pb.eval (fuel + 1) visited g = some (r, visited')) :
    r = s ∧ visited' = visited := by
  simp only [Problem.eval, hsettle, Option.some.injEq, Prod.mk.injEq] at h
  exact ⟨h.1.symm, h.2.symm⟩

theorem eval_visited {fuel : ℕ} {visited visited' : List K} {g : G} {r : R}
    (hsettle : pb.settle g = none) (hkey : pb.key g ∈ visited)
    (h : pb.eval (fuel + 1) visited g = some (r, visited')) :
    r = pb.proven ∧ visited' = visited := by
  simp only [Problem.eval, hsettle, hkey, if_true, Option.some.injEq, Prod.mk.injEq] at h
  exact ⟨h.1.symm, h.2.symm⟩

theorem eval_subset (fuel : ℕ) (visited : List K) (g : G) (r : R) (visited' : List K)
    (h : pb.eval fuel visited g = some (r, visited')) : visited ⊆ visited' := by
  induction fuel generalizing visited g r visited' with
  | zero => simp [Problem.eval] at h
  | succ fuel ih =>
    cases hsettle : pb.settle g with
    | some s =>
      rw [(eval_settled hsettle h).2]
      exact List.Subset.refl visited
    | none =>
      by_cases hkey : pb.key g ∈ visited
      · rw [(eval_visited hsettle hkey h).2]
        exact List.Subset.refl visited
      · have hcons := List.subset_cons_self (pb.key g) visited
        rcases eval_fresh hsettle hkey h with ⟨-, rfl⟩ | ⟨next, -, hnext⟩ |
          ⟨items, rs, -, hitems, -⟩ | ⟨goals, failure, rs, -, hitems, -⟩
        · exact hcons
        · exact List.Subset.trans hcons (ih _ next r visited' hnext)
        · exact List.Subset.trans hcons (evalItems_subset ih hitems)
        · exact List.Subset.trans hcons (evalItems_subset ih hitems)

theorem scan_settled {fuel : ℕ} {memo : Memo K} {g : G} {s : R} (hsettle : pb.settle g = some s) :
    pb.scan (fuel + 1) memo g = memo := by
  simp [Problem.scan, hsettle]

theorem scan_opened {fuel : ℕ} {memo : Memo K} {g : G} (hsettle : pb.settle g = none)
    (hkey : pb.key g ∈ memo.opened) : pb.scan (fuel + 1) memo g = memo := by
  simp [Problem.scan, hsettle, hkey]

theorem scan_closed {fuel : ℕ} {memo : Memo K} {g : G} (hsettle : pb.settle g = none)
    (hopened : pb.key g ∉ memo.opened) (hclosed : pb.key g ∈ memo.closed) :
    pb.scan (fuel + 1) memo g = { memo with clean := false } := by
  simp [Problem.scan, hsettle, hopened, hclosed]

theorem scan_fresh {fuel : ℕ} {memo : Memo K} {g : G} (hsettle : pb.settle g = none)
    (hopened : pb.key g ∉ memo.opened) (hclosed : pb.key g ∉ memo.closed) :
    pb.scan (fuel + 1) memo g = match pb.expand g with
      | .done _ => memo.enter (pb.key g)
      | .defer next => pb.scan fuel (memo.enter (pb.key g)) next
      | .all items => scanItems (pb.scan fuel) (memo.enter (pb.key g)) items
      | .any goals _ => scanBranches (pb.scan fuel) (memo.enter (pb.key g)) goals := by
  simp [Problem.scan, hsettle, hopened, hclosed, Memo.enter]

theorem scan_clean (fuel : ℕ) (memo : Memo K) (g : G) (h : (pb.scan fuel memo g).clean = true) :
    memo.clean = true := by
  induction fuel generalizing memo g with
  | zero => exact h
  | succ fuel ih =>
    cases hsettle : pb.settle g with
    | some s => rwa [scan_settled hsettle] at h
    | none =>
      by_cases hopened : pb.key g ∈ memo.opened
      · rwa [scan_opened hsettle hopened] at h
      by_cases hclosed : pb.key g ∈ memo.closed
      · simp [scan_closed hsettle hopened hclosed] at h
      rw [scan_fresh hsettle hopened hclosed] at h
      have henter : (memo.enter (pb.key g)).clean = true := by
        cases hexpand : pb.expand g with
        | done r => rwa [hexpand] at h
        | defer next =>
          rw [hexpand] at h
          exact ih _ next h
        | all items =>
          rw [hexpand] at h
          exact scanItems_clean ih h
        | any goals failure =>
          rw [hexpand] at h
          exact scanBranches_clean ih h
      exact henter

theorem scan_tracks (fuel : ℕ) (visited : List K) (g : G) (r : R) (visited' : List K)
    (memo : Memo K) (h : pb.eval fuel visited g = some (r, visited'))
    (hmemo : memo.Tracks visited) : (pb.scan fuel memo g).Tracks visited' := by
  induction fuel generalizing visited g r visited' memo with
  | zero => simp [Problem.eval] at h
  | succ fuel ih =>
    cases hsettle : pb.settle g with
    | some s => rwa [scan_settled hsettle, (eval_settled hsettle h).2]
    | none =>
      by_cases hkey : pb.key g ∈ visited
      · rw [(eval_visited hsettle hkey h).2]
        by_cases hopened : pb.key g ∈ memo.opened
        · rwa [scan_opened hsettle hopened]
        · have hclosed := ((hmemo (pb.key g)).mp hkey).resolve_left hopened
          rwa [scan_closed hsettle hopened hclosed]
      · have hnot : ¬ (pb.key g ∈ memo.opened ∨ pb.key g ∈ memo.closed) := fun hm =>
          hkey ((hmemo (pb.key g)).mpr hm)
        rw [not_or] at hnot
        rw [scan_fresh hsettle hnot.1 hnot.2]
        have henter := hmemo.enter (pb.key g)
        rcases eval_fresh hsettle hkey h with ⟨hexpand, rfl⟩ | ⟨next, hexpand, hnext⟩ |
          ⟨items, rs, hexpand, hitems, -⟩ | ⟨goals, failure, rs, hexpand, hitems, -⟩
        · rw [hexpand]
          exact henter
        · rw [hexpand]
          exact ih _ next r visited' _ hnext henter
        · rw [hexpand]
          exact scanItems_tracks ih hitems henter
        · rw [hexpand]
          exact scanBranches_tracks (eval_subset fuel) ih hitems henter

/-- The goal of this key holds, or it stands too high to be met by goals of rank below `n`. -/
def Trusted (pb : Problem G K R) (Ok Holds : G → Prop) (rank : G → ℕ) (n : ℕ) (k : K) : Prop :=
  ∃ g, Ok g ∧ pb.settle g = none ∧ pb.key g = k ∧ (rank g < n → Holds g)

/-- The goal of this key holds. -/
def Done (pb : Problem G K R) (Ok Holds : G → Prop) (k : K) : Prop :=
  ∃ g, Ok g ∧ pb.settle g = none ∧ pb.key g = k ∧ Holds g

omit [DecidableEq K] in
theorem Done.trusted {n : ℕ} {k : K} (h : Done pb Ok Holds k) : Trusted pb Ok Holds rank n k := by
  obtain ⟨g, hok, hsettle, hkey, hholds⟩ := h
  exact ⟨g, hok, hsettle, hkey, fun _ => hholds⟩

omit [DecidableEq K] in
theorem Trusted.mono {m n : ℕ} {k : K} (h : Trusted pb Ok Holds rank n k) (hmn : m ≤ n) :
    Trusted pb Ok Holds rank m k := by
  obtain ⟨g, hok, hsettle, hkey, hholds⟩ := h
  exact ⟨g, hok, hsettle, hkey, fun hg => hholds (Nat.lt_of_lt_of_le hg hmn)⟩

/-- What one evaluation of a goal guarantees from a memo trusted up to rank `n`. -/
def CallSound (pb : Problem G K R) (Ok Holds : G → Prop) (rank : G → ℕ) (n fuel : ℕ) (g : G) :
    Prop :=
  ∀ visited r visited' (memo : Memo K), pb.eval fuel visited g = some (r, visited') →
    memo.Tracks visited → (pb.scan fuel memo g).clean = true →
    (∀ k ∈ memo.opened, Trusted pb Ok Holds rank n k) → pb.isProven r = true →
    Holds g ∧ ∀ k ∈ (pb.scan fuel memo g).opened, k ∈ memo.opened ∨ Done pb Ok Holds k

theorem CallSound.mono {m n fuel : ℕ} {g : G} (h : CallSound pb Ok Holds rank m fuel g)
    (hmn : m ≤ n) : CallSound pb Ok Holds rank n fuel g :=
  fun visited r visited' memo heval hmemo hclean htrusted =>
    h visited r visited' memo heval hmemo hclean fun k hk => (htrusted k hk).mono hmn

theorem evalItems_sound {n fuel : ℕ} {items : List (Item G R)} {visited visited' : List K}
    {rs : List R} {memo : Memo K}
    (hcall : ∀ g, Item.goal g ∈ items → CallSound pb Ok Holds rank n fuel g)
    (h : evalItems (pb.eval fuel) visited items = some (rs, visited'))
    (hmemo : memo.Tracks visited) (hclean : (scanItems (pb.scan fuel) memo items).clean = true)
    (htrusted : ∀ k ∈ memo.opened, Trusted pb Ok Holds rank n k)
    (hproven : ∀ r ∈ rs, pb.isProven r = true) :
    (∀ r, Item.report r ∈ items → pb.isProven r = true) ∧
      (∀ g, Item.goal g ∈ items → Holds g) ∧
      ∀ k ∈ (scanItems (pb.scan fuel) memo items).opened, k ∈ memo.opened ∨
        Done pb Ok Holds k := by
  induction items generalizing visited rs memo with
  | nil => exact ⟨by simp, by simp, fun k hk => .inl hk⟩
  | cons item rest ih =>
    have hrest : ∀ g, Item.goal g ∈ rest → CallSound pb Ok Holds rank n fuel g := fun g hg =>
      hcall g (List.mem_cons_of_mem item hg)
    cases item with
    | report r =>
      obtain ⟨tail, htail, rfl⟩ := evalItems_report_eq_some h
      obtain ⟨hreports, hgoals, hopened⟩ := ih hrest htail hmemo hclean htrusted
        fun s hs => hproven s (List.mem_cons_of_mem r hs)
      refine ⟨fun s hs => ?_, fun g hg => hgoals g (by simpa using hg), hopened⟩
      rcases List.mem_cons.mp hs with heq | hs
      · obtain rfl := Item.report.inj heq
        exact hproven s List.mem_cons_self
      · exact hreports s hs
    | goal g =>
      obtain ⟨r, between, tail, hr, htail, rfl⟩ := evalItems_goal_eq_some h
      have hbetween := scan_tracks fuel visited g r between memo hr hmemo
      have hfirst := hcall g List.mem_cons_self visited r between memo hr hmemo
        (scanItems_clean (scan_clean fuel) hclean) htrusted (hproven r List.mem_cons_self)
      have htrusted' : ∀ k ∈ (pb.scan fuel memo g).opened, Trusted pb Ok Holds rank n k :=
        fun k hk => (hfirst.2 k hk).elim (htrusted k) Done.trusted
      obtain ⟨hreports, hgoals, hopened⟩ := ih hrest htail hbetween hclean htrusted'
        fun s hs => hproven s (List.mem_cons_of_mem r hs)
      refine ⟨fun s hs => hreports s (by simpa using hs), fun g' hg' => ?_, fun k hk => ?_⟩
      · rcases List.mem_cons.mp hg' with heq | hg'
        · obtain rfl := Item.goal.inj heq
          exact hfirst.1
        · exact hgoals g' hg'
      · exact (hopened k hk).elim (hfirst.2 k) .inr

/-- Whatever a closed alternative recorded is not trusted, so each alternative starts afresh. -/
theorem evalBranches_sound {n fuel : ℕ} {goals : List G} {visited visited' : List K}
    {rs : List R} {memo : Memo K}
    (hcall : ∀ g ∈ goals, CallSound pb Ok Holds rank n fuel g)
    (h : evalItems (pb.eval fuel) visited (goals.map .goal) = some (rs, visited'))
    (hmemo : memo.Tracks visited)
    (hclean : (scanBranches (pb.scan fuel) memo goals).clean = true)
    (htrusted : ∀ k ∈ memo.opened, Trusted pb Ok Holds rank n k)
    (hproven : ∃ r ∈ rs, pb.isProven r = true) : ∃ g ∈ goals, Holds g := by
  induction goals generalizing visited rs memo with
  | nil =>
    simp only [List.map_nil, evalItems, Option.some.injEq, Prod.mk.injEq] at h
    obtain ⟨r, hr, -⟩ := hproven
    simp [← h.1] at hr
  | cons g rest ih =>
    obtain ⟨r, between, tail, hr, htail, rfl⟩ := evalItems_goal_eq_some h
    have hbetween := scan_tracks fuel visited g r between memo hr hmemo
    have hafter : (memo.close (pb.scan fuel memo g)).Tracks between :=
      hmemo.close hbetween (eval_subset fuel visited g r between hr)
    have hfirst : (memo.close (pb.scan fuel memo g)).clean = true :=
      scanBranches_clean (scan_clean fuel) hclean
    obtain ⟨s, hs, hsproven⟩ := hproven
    rcases List.mem_cons.mp hs with rfl | hs
    · exact ⟨g, List.mem_cons_self, (hcall g List.mem_cons_self visited s between memo hr hmemo
        hfirst htrusted hsproven).1⟩
    · obtain ⟨g', hg', hholds⟩ := ih (fun g' hg' => hcall g' (List.mem_cons_of_mem g hg')) htail
        hafter hclean htrusted ⟨s, hs, hsproven⟩
      exact ⟨g', List.mem_cons_of_mem g hg', hholds⟩

/-- A proven verdict is sound when no key of a finished alternative was met again. -/
theorem eval_sound (hsound : pb.Sound Ok Holds rank) (fuel : ℕ) (g : G) (hok : Ok g) :
    CallSound pb Ok Holds rank (rank g + 1) fuel g := by
  induction fuel generalizing g with
  | zero => intro visited r visited' memo h; simp [Problem.eval] at h
  | succ fuel ih =>
    intro visited r visited' memo h hmemo hclean htrusted hproven
    cases hsettle : pb.settle g with
    | some s =>
      obtain ⟨rfl, -⟩ := eval_settled hsettle h
      rw [scan_settled hsettle]
      exact ⟨hsound.settle g r hok hsettle hproven, fun k hk => .inl hk⟩
    | none =>
      by_cases hopened : pb.key g ∈ memo.opened
      · rw [scan_opened hsettle hopened]
        obtain ⟨g', hok', hsettle', hkey', hholds⟩ := htrusted _ hopened
        obtain ⟨hrank, hsame⟩ := hsound.key g' g hok' hok hsettle' hsettle hkey'
        exact ⟨hsame (hholds (by omega)), fun k hk => .inl hk⟩
      by_cases hclosed : pb.key g ∈ memo.closed
      · simp [scan_closed hsettle hopened hclosed] at hclean
      have hkey : pb.key g ∉ visited := fun hk => ((hmemo _).mp hk).elim hopened hclosed
      have henter := hmemo.enter (pb.key g)
      rw [scan_fresh hsettle hopened hclosed] at hclean ⊢
      -- The goal itself is entered but its rank puts it out of reach of its parts.
      have hentered : ∀ k ∈ (memo.enter (pb.key g)).opened,
          Trusted pb Ok Holds rank (rank g) k := by
        intro k hk
        rcases List.mem_cons.mp hk with rfl | hk
        · exact ⟨g, hok, hsettle, rfl, fun hlt => absurd hlt (Nat.lt_irrefl _)⟩
        · exact (htrusted k hk).mono (Nat.le_succ _)
      have hleave : Holds g → ∀ k ∈ (memo.enter (pb.key g)).opened,
          k ∈ memo.opened ∨ Done pb Ok Holds k := by
        intro hholds k hk
        rcases List.mem_cons.mp hk with rfl | hk
        · exact .inr ⟨g, hok, hsettle, rfl, hholds⟩
        · exact .inl hk
      rcases eval_fresh hsettle hkey h with ⟨hexpand, rfl⟩ | ⟨next, hexpand, hnext⟩ |
        ⟨items, rs, hexpand, hitems, rfl⟩ | ⟨goals, failure, rs, hexpand, hitems, rfl⟩
      · rw [hexpand]
        have hg := hsound.done g r hok hsettle hexpand hproven
        exact ⟨hg, hleave hg⟩
      · rw [hexpand] at hclean ⊢
        obtain ⟨hoknext, hrank⟩ := hsound.part g next hok hsettle (by simp [hexpand, Expansion.goals])
        obtain ⟨hnextholds, hnextopened⟩ := (ih next hoknext).mono hrank _ r visited' _ hnext
          henter hclean hentered hproven
        have hg := hsound.defer g next hok hsettle hexpand hnextholds
        exact ⟨hg, fun k hk => (hnextopened k hk).elim (hleave hg k) .inr⟩
      · rw [hexpand] at hclean ⊢
        have hparts : ∀ h, Item.goal h ∈ items → CallSound pb Ok Holds rank (rank g) fuel h := by
          intro h hmem
          have hpart : h ∈ (pb.expand g).goals := by rwa [hexpand, Expansion.goals, mem_itemGoals]
          obtain ⟨hokh, hrank⟩ := hsound.part g h hok hsettle hpart
          exact (ih h hokh).mono hrank
        obtain ⟨hreports, hgoals, hitemsopened⟩ := evalItems_sound hparts hitems henter hclean
          hentered (hsound.combine rs hproven)
        have hg := hsound.all g items hok hsettle hexpand hreports hgoals
        exact ⟨hg, fun k hk => (hitemsopened k hk).elim (hleave hg k) .inr⟩
      · rw [hexpand] at hclean ⊢
        have hparts : ∀ h ∈ goals, CallSound pb Ok Holds rank (rank g) fuel h := by
          intro h hmem
          have hpart : h ∈ (pb.expand g).goals := by rwa [hexpand, Expansion.goals]
          obtain ⟨hokh, hrank⟩ := hsound.part g h hok hsettle hpart
          exact (ih h hokh).mono hrank
        obtain ⟨hfailure, hany⟩ := hsound.any g goals failure hok hsettle hexpand
        have hsome : ∃ r ∈ rs, pb.isProven r = true := by
          by_contra hnone
          rw [if_neg (by simpa using hnone), hfailure] at hproven
          exact Bool.false_ne_true hproven
        obtain ⟨h, hmem, hholds⟩ := evalBranches_sound hparts hitems henter hclean hentered hsome
        have hg := hany h hmem hholds
        refine ⟨hg, fun k hk => hleave hg k ?_⟩
        rwa [scanBranches_opened] at hk

/-- The memo an evaluation starts with. -/
def Memo.empty : Memo K := ⟨[], [], true⟩

theorem holds_of_proven (hsound : pb.Sound Ok Holds rank) {fuel : ℕ} {g : G} (hok : Ok g) {r : R}
    {visited : List K} (h : pb.eval fuel [] g = some (r, visited))
    (hclean : (pb.scan fuel Memo.empty g).clean = true) (hproven : pb.isProven r = true) :
    Holds g := by
  have hempty : (Memo.empty : Memo K).Tracks [] := fun k => by simp [Memo.empty]
  exact (eval_sound hsound fuel g hok [] r visited Memo.empty h hempty hclean
    (by simp [Memo.empty]) hproven).1

end Soundness

section Trees
variable {G K R : Type} [DecidableEq K] {pb : Problem G K R} {Ok : G → Prop}
  {under : K → K → Prop}

/-- Two goals no part of which can share a key. -/
def Apart (pb : Problem G K R) (under : K → K → Prop) (g h : G) : Prop :=
  ∀ k, under k (pb.key g) → ¬ under k (pb.key h)

/-- A search whose keys nest like the nodes of a tree, so that no goal is met twice. -/
structure Problem.Tree (pb : Problem G K R) (Ok : G → Prop) (under : K → K → Prop) : Prop where
  refl : ∀ k, under k k
  trans : ∀ j k l, under j k → under k l → under j l
  part : ∀ g h, Ok g → pb.settle g = none → h ∈ (pb.expand g).goals →
    Ok h ∧ under (pb.key h) (pb.key g) ∧ ¬ under (pb.key g) (pb.key h)
  apart : ∀ g, Ok g → pb.settle g = none → (pb.expand g).goals.Pairwise (Apart pb under)

def Memo.Mem (memo : Memo K) (k : K) : Prop := k ∈ memo.opened ∨ k ∈ memo.closed

/-- A scan of a goal away from everything recorded stays clean and records only keys under it. -/
def ScanLocal (pb : Problem G K R) (under : K → K → Prop) (fuel : ℕ) (g : G) : Prop :=
  ∀ memo : Memo K, memo.clean = true → (∀ k, memo.Mem k → ¬ under k (pb.key g)) →
    (pb.scan fuel memo g).clean = true ∧
      ∀ k, (pb.scan fuel memo g).Mem k → memo.Mem k ∨ under k (pb.key g)

theorem scanItems_local {fuel : ℕ} {items : List (Item G R)} {memo : Memo K}
    (hlocal : ∀ g ∈ itemGoals items, ScanLocal pb under fuel g)
    (hapart : (itemGoals items).Pairwise (Apart pb under)) (hclean : memo.clean = true)
    (haway : ∀ g ∈ itemGoals items, ∀ k, memo.Mem k → ¬ under k (pb.key g)) :
    (scanItems (pb.scan fuel) memo items).clean = true ∧
      ∀ k, (scanItems (pb.scan fuel) memo items).Mem k →
        memo.Mem k ∨ ∃ g ∈ itemGoals items, under k (pb.key g) := by
  induction items generalizing memo with
  | nil => exact ⟨hclean, fun k hk => .inl hk⟩
  | cons item rest ih =>
    cases item with
    | report r => exact ih hlocal hapart hclean haway
    | goal g =>
      simp only [itemGoals, List.mem_cons, List.pairwise_cons] at hlocal hapart haway ⊢
      obtain ⟨hfirst, hrecorded⟩ := hlocal g (.inl rfl) memo hclean (haway g (.inl rfl))
      have haway' : ∀ h ∈ itemGoals rest, ∀ k, (pb.scan fuel memo g).Mem k →
          ¬ under k (pb.key h) := fun h hh k hk =>
        (hrecorded k hk).elim (haway h (.inr hh) k) (hapart.1 h hh k)
      obtain ⟨hrest, hmem⟩ := ih (fun h hh => hlocal h (.inr hh)) hapart.2 hfirst haway'
      refine ⟨hrest, fun k hk => ?_⟩
      rcases hmem k hk with hk | ⟨h, hh, hk⟩
      · exact (hrecorded k hk).imp id fun hunder => ⟨g, .inl rfl, hunder⟩
      · exact .inr ⟨h, .inr hh, hk⟩

theorem scanBranches_local {fuel : ℕ} {goals : List G} {memo : Memo K}
    (hlocal : ∀ g ∈ goals, ScanLocal pb under fuel g)
    (hapart : goals.Pairwise (Apart pb under)) (hclean : memo.clean = true)
    (haway : ∀ g ∈ goals, ∀ k, memo.Mem k → ¬ under k (pb.key g)) :
    (scanBranches (pb.scan fuel) memo goals).clean = true ∧
      ∀ k, (scanBranches (pb.scan fuel) memo goals).Mem k →
        memo.Mem k ∨ ∃ g ∈ goals, under k (pb.key g) := by
  induction goals generalizing memo with
  | nil => exact ⟨hclean, fun k hk => .inl hk⟩
  | cons g rest ih =>
    simp only [List.mem_cons, List.pairwise_cons] at hlocal hapart haway ⊢
    obtain ⟨hfirst, hrecorded⟩ := hlocal g (.inl rfl) memo hclean (haway g (.inl rfl))
    have hclose : ∀ k, (memo.close (pb.scan fuel memo g)).Mem k →
        memo.Mem k ∨ under k (pb.key g) := by
      intro k hk
      rcases hk with hk | hk
      · exact .inl (.inl hk)
      · exact hrecorded k (List.mem_append.mp hk)
    have haway' : ∀ h ∈ rest, ∀ k, (memo.close (pb.scan fuel memo g)).Mem k →
        ¬ under k (pb.key h) := fun h hh k hk =>
      (hclose k hk).elim (haway h (.inr hh) k) (hapart.1 h hh k)
    have hclean' : (memo.close (pb.scan fuel memo g)).clean = true := hfirst
    obtain ⟨hrest, hmem⟩ := ih (fun h hh => hlocal h (.inr hh)) hapart.2 hclean' haway'
    refine ⟨hrest, fun k hk => ?_⟩
    rcases hmem k hk with hk | ⟨h, hh, hk⟩
    · exact (hclose k hk).imp id fun hunder => ⟨g, .inl rfl, hunder⟩
    · exact .inr ⟨h, .inr hh, hk⟩

theorem scan_local (htree : pb.Tree Ok under) (fuel : ℕ) (g : G) (hok : Ok g) :
    ScanLocal pb under fuel g := by
  induction fuel generalizing g with
  | zero => exact fun memo hclean _ => ⟨hclean, fun k hk => .inl hk⟩
  | succ fuel ih =>
    intro memo hclean haway
    cases hsettle : pb.settle g with
    | some s =>
      rw [scan_settled hsettle]
      exact ⟨hclean, fun k hk => .inl hk⟩
    | none =>
      have hnew : ¬ memo.Mem (pb.key g) := fun hk => haway _ hk (htree.refl _)
      rw [Memo.Mem, not_or] at hnew
      rw [scan_fresh hsettle hnew.1 hnew.2]
      have hpart := fun h => htree.part g h hok hsettle
      have hapart := htree.apart g hok hsettle
      have henter : ∀ k, (memo.enter (pb.key g)).Mem k → k = pb.key g ∨ memo.Mem k := by
        intro k hk
        simpa [Memo.Mem, Memo.enter, or_assoc] using hk
      have hawaypart : ∀ h ∈ (pb.expand g).goals, ∀ k, (memo.enter (pb.key g)).Mem k →
          ¬ under k (pb.key h) := by
        intro h hh k hk hunder
        obtain ⟨-, hbelow, hnot⟩ := hpart h hh
        rcases henter k hk with rfl | hk
        · exact hnot hunder
        · exact haway k hk (htree.trans _ _ _ hunder hbelow)
      have hlocal : ∀ h ∈ (pb.expand g).goals, ScanLocal pb under fuel h := fun h hh =>
        ih h (hpart h hh).1
      have hrecord : ∀ k, (memo.enter (pb.key g)).Mem k ∨
          (∃ h ∈ (pb.expand g).goals, under k (pb.key h)) → memo.Mem k ∨ under k (pb.key g) := by
        rintro k (hk | ⟨h, hh, hunder⟩)
        · rcases henter k hk with rfl | hk
          · exact .inr (htree.refl _)
          · exact .inl hk
        · exact .inr (htree.trans _ _ _ hunder (hpart h hh).2.1)
      have hentered : (memo.enter (pb.key g)).clean = true := hclean
      cases hexpand : pb.expand g with
      | done r => exact ⟨hclean, fun k hk => hrecord k (.inl hk)⟩
      | defer next =>
        simp only [hexpand, Expansion.goals, List.mem_singleton, forall_eq] at hlocal hawaypart hrecord
        obtain ⟨hnext, hmem⟩ := hlocal (memo.enter (pb.key g)) hclean hawaypart
        exact ⟨hnext, fun k hk => hrecord k ((hmem k hk).imp id fun hu => ⟨next, rfl, hu⟩)⟩
      | all items =>
        simp only [hexpand, Expansion.goals] at hlocal hawaypart hrecord hapart
        obtain ⟨hitems, hmem⟩ := scanItems_local hlocal hapart hentered hawaypart
        exact ⟨hitems, fun k hk => hrecord k (hmem k hk)⟩
      | any goals failure =>
        simp only [hexpand, Expansion.goals] at hlocal hawaypart hrecord hapart
        obtain ⟨hgoals, hmem⟩ := scanBranches_local hlocal hapart hentered hawaypart
        exact ⟨hgoals, fun k hk => hrecord k (hmem k hk)⟩

theorem scan_clean_of_tree (htree : pb.Tree Ok under) (fuel : ℕ) {g : G} (hok : Ok g) :
    (pb.scan fuel Memo.empty g).clean = true :=
  (scan_local htree fuel g hok Memo.empty rfl (by simp [Memo.empty, Memo.Mem])).1

end Trees

section Termination
variable {G K R : Type} [DecidableEq K] {pb : Problem G K R} {Ok : G → Prop}

omit [DecidableEq K] in
theorem evalItems_isSome {eval : List K → G → Option (R × List K)} (visited : List K)
    (items : List (Item G R))
    (hsub : ∀ visited g r visited', eval visited g = some (r, visited') → visited ⊆ visited')
    (heval : ∀ g, Item.goal g ∈ items → ∀ visited', visited ⊆ visited' →
      (eval visited' g).isSome = true) :
    (evalItems eval visited items).isSome = true := by
  induction items generalizing visited with
  | nil => rfl
  | cons item rest ih =>
    cases item with
    | report r =>
      obtain ⟨⟨tail, visited'⟩, htail⟩ := Option.isSome_iff_exists.mp
        (ih _ fun g hg => heval g (List.mem_cons_of_mem _ hg))
      simp [evalItems, htail]
    | goal g =>
      obtain ⟨⟨r, between⟩, hr⟩ := Option.isSome_iff_exists.mp
        (heval g List.mem_cons_self visited (List.Subset.refl visited))
      have hbetween := hsub visited g r between hr
      obtain ⟨⟨tail, visited'⟩, htail⟩ := Option.isSome_iff_exists.mp
        (ih _ fun g hg visited' hv =>
          heval g (List.mem_cons_of_mem _ hg) visited' (List.Subset.trans hbetween hv))
      simp [evalItems, hr, htail]

/-- Among finitely many keys an evaluation ends: every level of it visits a new one. -/
theorem eval_isSome {keys : List K} (hkey : ∀ g, Ok g → pb.settle g = none → pb.key g ∈ keys)
    (hpart : ∀ g h, Ok g → pb.settle g = none → h ∈ (pb.expand g).goals → Ok h)
    (fuel : ℕ) (visited : List K) (g : G) (hok : Ok g)
    (hfuel : (keys.filter (· ∉ visited)).length < fuel) :
    (pb.eval fuel visited g).isSome = true := by
  induction fuel generalizing visited g with
  | zero => exact absurd hfuel (Nat.not_lt_zero _)
  | succ fuel ih =>
    cases hsettle : pb.settle g with
    | some s => simp [Problem.eval, hsettle]
    | none =>
      by_cases hmem : pb.key g ∈ visited
      · simp [Problem.eval, hsettle, hmem]
      have hparts : ∀ h ∈ (pb.expand g).goals, ∀ visited', pb.key g :: visited ⊆ visited' →
          (pb.eval fuel visited' h).isSome = true := by
        intro h hh visited' hsub
        refine ih visited' h (hpart g h hok hsettle hh) ?_
        have hnested : keys.filter (· ∉ visited') =
            (keys.filter (· ∉ visited)).filter (· ∉ visited') := by
          rw [List.filter_filter]
          refine List.filter_congr fun k _ => ?_
          have hold : k ∉ visited' → k ∉ visited := fun hk hv =>
            hk (hsub (List.mem_cons_of_mem _ hv))
          grind
        have hless : (keys.filter (· ∉ visited')).length < (keys.filter (· ∉ visited)).length := by
          rw [hnested, List.length_filter_lt_length_iff_exists]
          refine ⟨pb.key g, ?_, ?_⟩
          · simpa using ⟨hkey g hok hsettle, hmem⟩
          · simpa using hsub List.mem_cons_self
        omega
      simp only [Problem.eval, hsettle, hmem, if_false]
      cases hexpand : pb.expand g with
      | done r => rfl
      | defer next =>
        exact hparts next (by simp [hexpand, Expansion.goals]) _ (List.Subset.refl _)
      | all items =>
        have hitems := evalItems_isSome (pb.key g :: visited) items (eval_subset fuel) fun h hh =>
          hparts h (by rwa [hexpand, Expansion.goals, mem_itemGoals])
        obtain ⟨rs, hrs⟩ := Option.isSome_iff_exists.mp hitems
        simp [hrs]
      | any goals failure =>
        have hgoals := evalItems_isSome (pb.key g :: visited) (goals.map .goal) (eval_subset fuel)
          fun h hh => hparts h (by simpa [hexpand, Expansion.goals] using hh)
        obtain ⟨rs, hrs⟩ := Option.isSome_iff_exists.mp hgoals
        simp [hrs]

omit [DecidableEq K] in
theorem evalItems_mono {eval eval' : List K → G → Option (R × List K)}
    (h : ∀ visited g result, eval visited g = some result → eval' visited g = some result)
    {visited : List K} {items : List (Item G R)} {result : List R × List K}
    (hitems : evalItems eval visited items = some result) :
    evalItems eval' visited items = some result := by
  induction items generalizing visited result with
  | nil => exact hitems
  | cons item rest ih =>
    obtain ⟨rs, visited'⟩ := result
    cases item with
    | report r =>
      obtain ⟨tail, htail, rfl⟩ := evalItems_report_eq_some hitems
      simp [evalItems, ih htail]
    | goal g =>
      obtain ⟨r, between, tail, hr, htail, rfl⟩ := evalItems_goal_eq_some hitems
      simp [evalItems, h visited g _ hr, ih htail]

/-- An answer found with some fuel is the answer with any more of it. -/
theorem eval_mono {fuel more : ℕ} (hmore : fuel ≤ more) {visited : List K} {g : G}
    {result : R × List K} (h : pb.eval fuel visited g = some result) :
    pb.eval more visited g = some result := by
  induction fuel generalizing more visited g result with
  | zero => simp [Problem.eval] at h
  | succ fuel ih =>
    obtain ⟨more, rfl⟩ : ∃ m, more = m + 1 := ⟨more - 1, by omega⟩
    have hpart : ∀ visited g result, pb.eval fuel visited g = some result →
        pb.eval more visited g = some result := fun _ _ _ h => ih (by omega) h
    unfold Problem.eval at h ⊢
    cases hsettle : pb.settle g with
    | some s => simpa [hsettle] using h
    | none =>
      simp only [hsettle] at h ⊢
      by_cases hmem : pb.key g ∈ visited
      · simpa [hmem] using h
      rw [if_neg hmem] at h ⊢
      cases hexpand : pb.expand g with
      | done r => simpa [hexpand] using h
      | defer next =>
        simp only [hexpand] at h ⊢
        exact hpart _ _ _ h
      | all items =>
        simp only [hexpand] at h ⊢
        obtain ⟨parts, hparts, hresult⟩ := Option.bind_eq_some_iff.mp h
        exact Option.bind_eq_some_iff.mpr ⟨parts, evalItems_mono hpart hparts, hresult⟩
      | any goals failure =>
        simp only [hexpand] at h ⊢
        obtain ⟨parts, hparts, hresult⟩ := Option.bind_eq_some_iff.mp h
        exact Option.bind_eq_some_iff.mpr ⟨parts, evalItems_mono hpart hparts, hresult⟩

/-- From any goal and any memo there is one answer, and more fuel does not change it. -/
theorem eval_terminates {keys : List K} (hkey : ∀ g, Ok g → pb.settle g = none → pb.key g ∈ keys)
    (hpart : ∀ g h, Ok g → pb.settle g = none → h ∈ (pb.expand g).goals → Ok h)
    (visited : List K) (g : G) (hok : Ok g) :
    ∃ result, ∀ fuel, keys.length < fuel → pb.eval fuel visited g = some result := by
  have hbound : (keys.filter (· ∉ visited)).length < keys.length + 1 := by
    have hfilter := List.length_filter_le (· ∉ visited) keys
    omega
  obtain ⟨result, hresult⟩ := Option.isSome_iff_exists.mp
    (eval_isSome hkey hpart (keys.length + 1) visited g hok hbound)
  exact ⟨result, fun fuel hfuel => eval_mono hfuel hresult⟩

end Termination

end CapabilityCompiler.Foundation.Search
