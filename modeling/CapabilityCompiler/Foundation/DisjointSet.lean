import CapabilityCompiler.Foundation.Table
import Mathlib.Data.List.Nodup
import Mathlib.Data.List.Perm.Subperm
import Mathlib.Logic.Relation
import Mathlib.Tactic.Common

/-! Disjoint sets of numbers as a forest of parents, with path compression and without ranks. Uniting
pairs one after the other gives the equivalence they generate, whatever their order. -/
namespace CapabilityCompiler.Foundation.DisjointSet

/-- The parent of each number; a root is its own parent. -/
abbrev Parents := List ℕ

def singletons (size : ℕ) : Parents := List.range size

/-- The root of a number. Everything on the way is made to point to it. -/
def find : ℕ → Parents → ℕ → Option (ℕ × Parents)
  | 0, _, _ => none
  | fuel + 1, parents, index =>
    match parents[index]? with
    | none => none
    | some parent =>
      if parent = index then some (index, parents)
      else match find fuel parents parent with
        | none => none
        | some (root, parents) => some (root, parents.set index root)

/-- The root of the second number is put below the root of the first. -/
def union (fuel : ℕ) (parents : Parents) (left right : ℕ) : Option Parents :=
  match find fuel parents left with
  | none => none
  | some (leftRoot, parents) =>
    match find fuel parents right with
    | none => none
    | some (rightRoot, parents) =>
      if leftRoot ≠ rightRoot then some (parents.set rightRoot leftRoot) else some parents

def unionAll (fuel : ℕ) : List (ℕ × ℕ) → Parents → Option Parents
  | [], parents => some parents
  | (left, right) :: rest, parents => (union fuel parents left right).bind (unionAll fuel rest)

/-! Roots. -/

/-- A number leads to a root, in a number of steps. -/
inductive Leads (parents : Parents) : ℕ → ℕ → ℕ → Prop where
  | root {index : ℕ} : parents[index]? = some index → Leads parents 0 index index
  | step {steps index parent root : ℕ} : parents[index]? = some parent → parent ≠ index →
      Leads parents steps parent root → Leads parents (steps + 1) index root

/-- Every number leads to a root. -/
def WellFormed (parents : Parents) : Prop :=
  ∀ index < parents.length, ∃ steps root, Leads parents steps index root

section Roots
variable {parents parents' : Parents} {steps index root : ℕ}

theorem Leads.lt_length (h : Leads parents steps index root) : index < parents.length := by
  cases h with
  | root hget => exact (List.getElem?_eq_some_iff.mp hget).1
  | step hget _ _ => exact (List.getElem?_eq_some_iff.mp hget).1

theorem Leads.unique (h : Leads parents steps index root) {steps' root' : ℕ}
    (h' : Leads parents steps' index root') : steps = steps' ∧ root = root' := by
  induction h generalizing steps' root' with
  | root hget =>
    cases h' with
    | root _ => exact ⟨rfl, rfl⟩
    | step hget' hne _ => exact absurd (Option.some.inj (hget'.symm.trans hget)) hne
  | step hget hne _ ih =>
    cases h' with
    | root hget' => exact absurd (Option.some.inj (hget.symm.trans hget')) hne
    | step hget' _ hrest =>
      obtain rfl := Option.some.inj (hget.symm.trans hget')
      obtain ⟨rfl, rfl⟩ := ih hrest
      exact ⟨rfl, rfl⟩

theorem Leads.root_eq (h : Leads parents steps index root) : parents[root]? = some root := by
  induction h with
  | root hget => exact hget
  | step _ _ _ ih => exact ih

/-- The numbers on the way to the root are distinct. -/
theorem Leads.exists_way (h : Leads parents steps index root) :
    ∃ way : List ℕ, way.Nodup ∧ way.length = steps + 1 ∧
      ∀ other ∈ way, ∃ n ≤ steps, Leads parents n other root := by
  induction h with
  | @root index hget =>
    refine ⟨[index], List.nodup_singleton index, rfl, fun other hother => ?_⟩
    obtain rfl := List.mem_singleton.mp hother
    exact ⟨0, Nat.le_refl 0, .root hget⟩
  | @step steps index parent root hget hne hrest ih =>
    obtain ⟨way, hnodup, hlength, hway⟩ := ih
    have hfresh : index ∉ way := by
      intro hin
      obtain ⟨n, hn, hleads⟩ := hway index hin
      have := (hleads.unique (.step hget hne hrest)).1
      omega
    refine ⟨index :: way, List.nodup_cons.mpr ⟨hfresh, hnodup⟩, by rw [List.length_cons, hlength],
      List.forall_mem_cons.mpr ⟨⟨_, Nat.le_refl _, .step hget hne hrest⟩, fun other hother => ?_⟩⟩
    obtain ⟨n, hn, hleads⟩ := hway other hother
    exact ⟨n, by omega, hleads⟩

theorem Leads.lt_size (h : Leads parents steps index root) : steps < parents.length := by
  obtain ⟨way, hnodup, hlength, hway⟩ := h.exists_way
  have hrange : way ⊆ List.range parents.length := by
    intro other hother
    obtain ⟨_, _, hleads⟩ := hway other hother
    exact List.mem_range.mpr hleads.lt_length
  have := (hnodup.subperm hrange).length_le
  rw [List.length_range] at this
  omega

/-- Where a number points to its root directly, no other root changes. -/
theorem Leads.compress (hindex : Leads parents (steps + 1) index root) {n other root' : ℕ}
    (h : Leads parents n other root') : ∃ m, Leads (parents.set index root) m other root' := by
  have hne : index ≠ root := by
    rintro rfl
    exact absurd (hindex.unique (.root hindex.root_eq)).1 (by omega)
  have hroot : (parents.set index root)[root]? = some root := by
    rw [List.getElem?_set_ne hne, hindex.root_eq]
  induction h with
  | @root other hget =>
    by_cases heq : index = other
    · subst heq
      exact absurd (hindex.unique (.root hget)).1 (by omega)
    · exact ⟨0, .root (by rw [List.getElem?_set_ne heq, hget])⟩
  | @step n other parent root' hget hparent hrest ih =>
    by_cases heq : index = other
    · subst heq
      obtain ⟨-, rfl⟩ := hindex.unique (.step hget hparent hrest)
      have hpoints : (parents.set index root)[index]? = some root := by
        rw [List.getElem?_set_self hindex.lt_length]
      exact ⟨1, .step hpoints hne.symm (.root hroot)⟩
    · obtain ⟨m, hm⟩ := ih
      exact ⟨m + 1, .step (by rw [List.getElem?_set_ne heq, hget]) hparent hm⟩

/-- `find` gives the root and changes no root. -/
theorem find_of_leads {fuel : ℕ} (h : Leads parents steps index root) (hfuel : steps < fuel) :
    ∃ after, find fuel parents index = some (root, after) ∧ after.length = parents.length ∧
      ∀ n other root', Leads parents n other root' → ∃ m, Leads after m other root' := by
  induction h generalizing fuel with
  | @root index hget =>
    obtain ⟨n, rfl⟩ : ∃ n, fuel = n + 1 := ⟨fuel - 1, by omega⟩
    refine ⟨parents, ?_, rfl, fun n _ _ hleads => ⟨n, hleads⟩⟩
    simp only [find, hget, if_true]
  | @step steps index parent root hget hne hrest ih =>
    obtain ⟨n, rfl⟩ : ∃ n, fuel = n + 1 := ⟨fuel - 1, by omega⟩
    obtain ⟨after, hfind, hlength, hkeeps⟩ := @ih n (by omega)
    refine ⟨after.set index root, ?_, by rw [List.length_set, hlength], fun k other root' hleads => ?_⟩
    · simp only [find, hget, if_neg hne, hfind]
    · obtain ⟨m, hm⟩ := hkeeps k other root' hleads
      obtain ⟨m', hindex⟩ := hkeeps _ index root (.step hget hne hrest)
      cases m' with
      | succ m' => exact hindex.compress hm
      | zero =>
        -- The number would be its own root already.
        cases hindex
        exact absurd (Option.some.inj (hget.symm.trans hrest.root_eq)) hne

/-- The root of a number, whatever the way to it. -/
def Root (parents : Parents) (index root : ℕ) : Prop := ∃ steps, Leads parents steps index root

theorem Root.unique {root' : ℕ} (h : Root parents index root) (h' : Root parents index root') :
    root = root' := by
  obtain ⟨_, h⟩ := h
  obtain ⟨_, h'⟩ := h'
  exact (h.unique h').2

theorem Root.self (h : Root parents index root) : Root parents root root := by
  obtain ⟨_, h⟩ := h
  exact ⟨0, .root h.root_eq⟩

theorem Root.lt_length (h : Root parents index root) : index < parents.length := by
  obtain ⟨_, h⟩ := h
  exact h.lt_length

theorem exists_root (h : WellFormed parents) (hindex : index < parents.length) :
    ∃ root, Root parents index root := by
  obtain ⟨steps, root, hleads⟩ := h index hindex
  exact ⟨root, steps, hleads⟩

/-- `find` gives the root and keeps all roots. -/
theorem find_of_root {fuel : ℕ} (h : Root parents index root) (hfuel : parents.length ≤ fuel) :
    ∃ after, find fuel parents index = some (root, after) ∧ after.length = parents.length ∧
      ∀ other root', Root parents other root' → Root after other root' := by
  obtain ⟨steps, hleads⟩ := h
  have hlt := hleads.lt_size
  obtain ⟨after, hfind, hlength, hkeeps⟩ := find_of_leads hleads (show steps < fuel by omega)
  exact ⟨after, hfind, hlength, fun other root' ⟨n, hn⟩ => hkeeps n other root' hn⟩

theorem WellFormed.of_kept (h : WellFormed parents) (hlength : parents'.length = parents.length)
    (hkeeps : ∀ other root', Root parents other root' → Root parents' other root') :
    WellFormed parents' := by
  intro index hindex
  obtain ⟨root, hroot⟩ := exists_root h (hlength ▸ hindex)
  obtain ⟨steps, hleads⟩ := hkeeps index root hroot
  exact ⟨steps, root, hleads⟩

end Roots

/-! Uniting. -/

section Union
variable {parents : Parents} {fuel left right : ℕ}

/-- Where one root is put below another, the numbers below it change their root. -/
theorem Leads.lowered {steps index root upper lower : ℕ} (h : Leads parents steps index root)
    (hupper : parents[upper]? = some upper) (hlower : parents[lower]? = some lower)
    (hne : upper ≠ lower) :
    Root (parents.set lower upper) index (if root = lower then upper else root) := by
  have hkept : (parents.set lower upper)[upper]? = some upper := by
    rw [List.getElem?_set_ne hne.symm, hupper]
  induction h with
  | @root index hget =>
    by_cases heq : index = lower
    · subst heq
      have hlength : index < parents.length := (List.getElem?_eq_some_iff.mp hlower).1
      rw [if_pos rfl]
      exact ⟨1, .step (by rw [List.getElem?_set_self hlength]) hne (.root hkept)⟩
    · rw [if_neg heq]
      exact ⟨0, .root (by rw [List.getElem?_set_ne (Ne.symm heq), hget])⟩
  | @step n index parent root hget hparent hrest ih =>
    have hindex : lower ≠ index := by
      rintro rfl
      exact hparent (Option.some.inj (hget.symm.trans hlower))
    obtain ⟨m, hm⟩ := ih
    exact ⟨m + 1, .step (by rw [List.getElem?_set_ne hindex, hget]) hparent hm⟩

/-- Uniting gives the numbers below the right root the left root. -/
theorem union_of_roots {leftRoot rightRoot : ℕ} (hleft : Root parents left leftRoot)
    (hright : Root parents right rightRoot) (hfuel : parents.length ≤ fuel) :
    ∃ after, union fuel parents left right = some after ∧ after.length = parents.length ∧
      ∀ index root, Root parents index root →
        Root after index (if root = rightRoot then leftRoot else root) := by
  obtain ⟨first, hfirst, hlength, hkept⟩ := find_of_root hleft hfuel
  obtain ⟨second, hsecond, hlength', hkept'⟩ :=
    @find_of_root first right rightRoot fuel (hkept _ _ hright) (by omega)
  unfold union
  simp only [hfirst, hsecond]
  by_cases heq : leftRoot = rightRoot
  · refine ⟨second, by rw [if_neg (by simp [heq])], by omega, fun index root hroot => ?_⟩
    have hsame : (if root = rightRoot then leftRoot else root) = root := by
      split_ifs with h
      · rw [h, heq]
      · rfl
    rw [hsame]
    exact hkept' _ _ (hkept _ _ hroot)
  · refine ⟨second.set rightRoot leftRoot, by rw [if_pos heq], by rw [List.length_set]; omega,
      fun index root hroot => ?_⟩
    obtain ⟨_, hupper⟩ := hkept' _ _ (hkept _ _ hleft)
    obtain ⟨_, hlower⟩ := hkept' _ _ (hkept _ _ hright)
    obtain ⟨_, hleads⟩ := hkept' _ _ (hkept _ _ hroot)
    exact hleads.lowered hupper.root_eq hlower.root_eq heq

/-- Both numbers have one root. -/
def Joined (parents : Parents) (a b : ℕ) : Prop := ∃ root, Root parents a root ∧ Root parents b root

theorem joined_union (hwf : WellFormed parents) (hleft : left < parents.length)
    (hright : right < parents.length) (hfuel : parents.length ≤ fuel) :
    ∃ after, union fuel parents left right = some after ∧ after.length = parents.length ∧
      WellFormed after ∧ Joined after left right ∧
      (∀ a b, Joined parents a b → Joined after a b) ∧
      ∀ a b, a < parents.length → b < parents.length → Joined after a b →
        Relation.EqvGen (fun x y => Joined parents x y ∨ (x = left ∧ y = right)) a b := by
  obtain ⟨leftRoot, hleftRoot⟩ := exists_root hwf hleft
  obtain ⟨rightRoot, hrightRoot⟩ := exists_root hwf hright
  obtain ⟨after, hunion, hlength, hroots⟩ := union_of_roots hleftRoot hrightRoot hfuel
  refine ⟨after, hunion, hlength, ?_, ?_, ?_, ?_⟩
  · intro index hindex
    obtain ⟨root, hroot⟩ := exists_root hwf (hlength ▸ hindex)
    obtain ⟨steps, hleads⟩ := hroots index root hroot
    exact ⟨steps, _, hleads⟩
  · refine ⟨leftRoot, ?_, ?_⟩
    · have := hroots left leftRoot hleftRoot
      split_ifs at this <;> exact this
    · simpa using hroots right rightRoot hrightRoot
  · rintro a b ⟨root, ha, hb⟩
    exact ⟨_, hroots a root ha, hroots b root hb⟩
  · rintro a b ha hb ⟨root, hroota, hrootb⟩
    obtain ⟨rootA, hrootA⟩ := exists_root hwf ha
    obtain ⟨rootB, hrootB⟩ := exists_root hwf hb
    have hsame : (if rootA = rightRoot then leftRoot else rootA) =
        if rootB = rightRoot then leftRoot else rootB :=
      ((hroots a rootA hrootA).unique hroota).trans (hrootb.unique (hroots b rootB hrootB))
    have hjoin : Relation.EqvGen (fun x y => Joined parents x y ∨ (x = left ∧ y = right))
        left right := .rel _ _ (.inr ⟨rfl, rfl⟩)
    have hnear : ∀ x y root, Root parents x root → Root parents y root →
        Relation.EqvGen (fun x y => Joined parents x y ∨ (x = left ∧ y = right)) x y :=
      fun x y root hx hy => .rel _ _ (.inl ⟨root, hx, hy⟩)
    split_ifs at hsame with hA hB hB
    · exact hnear a b rightRoot (hA ▸ hrootA) (hB ▸ hrootB)
    · -- The first number is with the right one, the second with the left one.
      have hfirst := hnear a right rightRoot (hA ▸ hrootA) hrightRoot
      have hlast := hnear left b leftRoot hleftRoot (hsame ▸ hrootB)
      exact (hfirst.trans _ _ _ hjoin.symm).trans _ _ _ hlast
    · have hfirst := hnear a left leftRoot (hsame ▸ hrootA) hleftRoot
      have hlast := hnear right b rightRoot hrightRoot (hB ▸ hrootB)
      exact (hfirst.trans _ _ _ hjoin).trans _ _ _ hlast
    · exact hnear a b rootA hrootA (hsame ▸ hrootB)

theorem eqvGen_of_forall {r s : ℕ → ℕ → Prop} (h : ∀ a b, r a b → Relation.EqvGen s a b)
    {a b : ℕ} (hab : Relation.EqvGen r a b) : Relation.EqvGen s a b := by
  induction hab with
  | rel a b hr => exact h a b hr
  | refl a => exact .refl a
  | symm a b _ ih => exact .symm _ _ ih
  | trans a b c _ _ hfirst hlast => exact .trans _ _ _ hfirst hlast

theorem lt_of_eqvGen {r : ℕ → ℕ → Prop} {size : ℕ} (h : ∀ a b, r a b → a < size ∧ b < size)
    {a b : ℕ} (hab : Relation.EqvGen r a b) : a < size ↔ b < size := by
  induction hab with
  | rel a b hr => exact iff_of_true (h a b hr).1 (h a b hr).2
  | refl a => exact Iff.rfl
  | symm a b _ ih => exact ih.symm
  | trans a b c _ _ hfirst hlast => exact hfirst.trans hlast

/-- Uniting pairs one after the other joins what they connect. -/
theorem joined_unionAll {pairs : List (ℕ × ℕ)} (hwf : WellFormed parents)
    (hpairs : ∀ pair ∈ pairs, pair.1 < parents.length ∧ pair.2 < parents.length)
    (hfuel : parents.length ≤ fuel) :
    ∃ after, unionAll fuel pairs parents = some after ∧ after.length = parents.length ∧
      WellFormed after ∧ (∀ a b, Joined parents a b → Joined after a b) ∧
      (∀ pair ∈ pairs, Joined after pair.1 pair.2) ∧
      ∀ a b, a < parents.length → b < parents.length → Joined after a b →
        Relation.EqvGen (fun x y => Joined parents x y ∨ (x, y) ∈ pairs) a b := by
  induction pairs generalizing parents with
  | nil =>
    exact ⟨parents, rfl, rfl, hwf, fun _ _ h => h, by simp, fun a b _ _ h => .rel _ _ (.inl h)⟩
  | cons pair rest ih =>
    obtain ⟨left, right⟩ := pair
    obtain ⟨⟨hleft, hright⟩, hrest⟩ := List.forall_mem_cons.mp hpairs
    obtain ⟨middle, hunion, hlength, hmiddle, hjoin, hkept, honly⟩ :=
      joined_union hwf hleft hright hfuel
    obtain ⟨after, hall, hlength', hafter, hkept', hothers, honly'⟩ :=
      @ih middle hmiddle (fun pair hpair => hlength ▸ hrest pair hpair) (hlength ▸ hfuel)
    refine ⟨after, by rw [unionAll, hunion]; exact hall, by omega, hafter,
      fun a b h => hkept' a b (hkept a b h),
      List.forall_mem_cons.mpr ⟨hkept' _ _ hjoin, hothers⟩, fun a b ha hb h => ?_⟩
    refine eqvGen_of_forall (fun x y hxy => ?_) (honly' a b (by omega) (by omega) h)
    rcases hxy with hjoined | hin
    · obtain ⟨root, hx, hy⟩ := hjoined
      have hxlt := hx.lt_length
      have hylt := hy.lt_length
      refine eqvGen_of_forall (fun x y hxy => .rel _ _ ?_)
        (honly x y (by omega) (by omega) ⟨root, hx, hy⟩)
      rcases hxy with hxy | ⟨rfl, rfl⟩
      · exact .inl hxy
      · exact .inr List.mem_cons_self
    · exact .rel _ _ (.inr (List.mem_cons_of_mem _ hin))

theorem root_singletons {size index root : ℕ} :
    Root (singletons size) index root ↔ index < size ∧ root = index := by
  constructor
  · rintro ⟨steps, hleads⟩
    have hlt : index < size := by simpa [singletons] using hleads.lt_length
    have hself : Leads (singletons size) 0 index index := .root (by simp [singletons, hlt])
    exact ⟨hlt, (hleads.unique hself).2⟩
  · rintro ⟨hlt, rfl⟩
    exact ⟨0, .root (by simp [singletons, hlt])⟩

/-- From singletons, exactly the connected numbers are joined. -/
theorem joined_of_singletons {size : ℕ} {pairs : List (ℕ × ℕ)}
    (hpairs : ∀ pair ∈ pairs, pair.1 < size ∧ pair.2 < size) :
    ∃ after, unionAll size pairs (singletons size) = some after ∧ after.length = size ∧
      WellFormed after ∧ ∀ a b, a < size → b < size →
        (Joined after a b ↔ Relation.EqvGen (fun x y => (x, y) ∈ pairs) a b) := by
  have hsize : (singletons size).length = size := List.length_range
  have hwf : WellFormed (singletons size) := by
    intro index hindex
    obtain ⟨steps, hleads⟩ := root_singletons.mpr ⟨hsize ▸ hindex, rfl⟩
    exact ⟨steps, index, hleads⟩
  obtain ⟨after, hall, hlength, hafter, hkept, hjoined, honly⟩ := @joined_unionAll (singletons size)
    size pairs hwf (by simpa only [hsize] using hpairs) (Nat.le_of_eq hsize)
  refine ⟨after, hall, by omega, hafter, fun a b ha hb => ⟨fun h => ?_, fun h => ?_⟩⟩
  · refine eqvGen_of_forall (fun x y hxy => ?_) (honly a b (by omega) (by omega) h)
    rcases hxy with ⟨root, hx, hy⟩ | hin
    · obtain rfl := (root_singletons.mp hx).2
      obtain rfl := (root_singletons.mp hy).2
      exact .refl _
    · exact .rel _ _ hin
  · have hself : ∀ c < size, Joined after c c := by
      intro c hc
      obtain ⟨root, hroot⟩ := exists_root hafter (show c < after.length by omega)
      exact ⟨root, hroot, hroot⟩
    induction h with
    | rel a b hin => exact hjoined (a, b) hin
    | refl a => exact hself a ha
    | symm a b _ ih =>
      obtain ⟨root, hx, hy⟩ := ih hb ha
      exact ⟨root, hy, hx⟩
    | trans a b c hab _ hfirst hlast =>
      have hmiddle : b < size :=
        (lt_of_eqvGen (fun x y hin => hpairs (x, y) hin) hab).mp ha
      obtain ⟨root, hx, hy⟩ := hfirst ha hmiddle
      obtain ⟨root', hy', hz⟩ := hlast hmiddle hb
      exact ⟨root, hx, hy.unique hy' ▸ hz⟩

end Union

/-! The sets. -/

/-- Collect numbers under their roots, in the order of the first of each set. -/
def collect (fuel : ℕ) : List ℕ → Parents → Table ℕ (List ℕ) → Option (Table ℕ (List ℕ))
  | [], _, sets => some sets
  | index :: rest, parents, sets =>
    match find fuel parents index with
    | none => none
    | some (root, parents) =>
      collect fuel rest parents (sets.put root ((sets.get? root).getD [] ++ [index]))

/-- The set of each root that was met has the numbers with the root. -/
structure Collects (parents : Parents) (done : List ℕ) (sets : Table ℕ (List ℕ)) : Prop where
  unique : Table.Unique sets
  members : ∀ root members, sets.get? root = some members →
    ∀ index, index ∈ members ↔ index ∈ done ∧ Root parents index root
  met : ∀ index ∈ done, ∀ root, Root parents index root → (sets.get? root).isSome = true

section Collect
variable {parents : Parents} {fuel : ℕ} {done : List ℕ} {sets : Table ℕ (List ℕ)}

theorem Collects.of_iff {after : Parents} (h : Collects parents done sets)
    (hroots : ∀ index root, Root parents index root ↔ Root after index root) :
    Collects after done sets where
  unique := h.unique
  members root members hget index :=
    (h.members root members hget index).trans (and_congr_right fun _ => hroots index root)
  met index hin root hroot := h.met index hin root ((hroots index root).mpr hroot)

theorem Collects.add {index root : ℕ} (h : Collects parents done sets)
    (hroot : Root parents index root) :
    Collects parents (done ++ [index]) (sets.put root ((sets.get? root).getD [] ++ [index])) := by
  refine ⟨h.unique.put _ _, fun other members hget number => ?_, fun number hin other hother => ?_⟩
  · rw [Table.get?_put] at hget
    split_ifs at hget with heq
    · obtain rfl := heq
      obtain rfl := Option.some.inj hget
      have hbefore : number ∈ (sets.get? other).getD [] ↔ number ∈ done ∧ Root parents number other := by
        cases hfound : sets.get? other with
        | some members => exact h.members other members hfound number
        | none =>
          refine iff_of_false (by simp) fun hmem => ?_
          obtain ⟨hin, hnumber⟩ := hmem
          have hmet := h.met number hin other hnumber
          simp [hfound] at hmet
      rw [List.mem_append, hbefore, List.mem_singleton, List.mem_append, List.mem_singleton]
      constructor
      · rintro (⟨hin, hnumber⟩ | rfl)
        · exact ⟨.inl hin, hnumber⟩
        · exact ⟨.inr rfl, hroot⟩
      · rintro ⟨hin | rfl, hnumber⟩
        · exact .inl ⟨hin, hnumber⟩
        · exact .inr rfl
    · rw [h.members other members hget number, List.mem_append, List.mem_singleton]
      constructor
      · rintro ⟨hin, hnumber⟩
        exact ⟨.inl hin, hnumber⟩
      · rintro ⟨hin | rfl, hnumber⟩
        · exact ⟨hin, hnumber⟩
        · exact absurd (hnumber.unique hroot) heq
  · rw [Table.get?_put]
    split_ifs with heq
    · rfl
    · rcases List.mem_append.mp hin with hin | hin
      · exact h.met number hin other hother
      · obtain rfl := List.mem_singleton.mp hin
        exact absurd (hother.unique hroot) heq

theorem collects_collect {indexes : List ℕ} (h : Collects parents done sets)
    (hwf : WellFormed parents) (hindexes : ∀ index ∈ indexes, index < parents.length)
    (hfuel : parents.length ≤ fuel) :
    ∃ result, collect fuel indexes parents sets = some result ∧
      Collects parents (done ++ indexes) result := by
  induction indexes generalizing parents done sets with
  | nil => exact ⟨sets, rfl, by rwa [List.append_nil]⟩
  | cons index rest ih =>
    obtain ⟨hindex, hrest⟩ := List.forall_mem_cons.mp hindexes
    obtain ⟨root, hroot⟩ := exists_root hwf hindex
    obtain ⟨after, hfind, hlength, hkept⟩ := find_of_root hroot hfuel
    have hroots : ∀ other root, Root parents other root ↔ Root after other root := by
      refine fun other root => ⟨hkept other root, fun hother => ?_⟩
      obtain ⟨found, hfound⟩ := exists_root hwf (hlength ▸ hother.lt_length)
      exact (hkept other found hfound).unique hother ▸ hfound
    have hadded := (h.add hroot).of_iff hroots
    obtain ⟨result, hresult, hcollects⟩ := ih hadded (hwf.of_kept hlength hkept)
      (fun other hother => hlength ▸ hrest other hother) (hlength ▸ hfuel)
    refine ⟨result, by rw [collect, hfind]; exact hresult, ?_⟩
    rw [← List.append_cons] at hcollects
    exact hcollects.of_iff fun other root => (hroots other root).symm

/-- The sets of all numbers: two numbers are in one set if they have one root. -/
theorem together_collect {indexes : List ℕ} (hwf : WellFormed parents)
    (hindexes : ∀ index ∈ indexes, index < parents.length) (hfuel : parents.length ≤ fuel) :
    ∃ result, collect fuel indexes parents [] = some result ∧ ∀ a ∈ indexes, ∀ b ∈ indexes,
      ((∃ members ∈ result.map Prod.snd, a ∈ members ∧ b ∈ members) ↔ Joined parents a b) := by
  have hempty : Collects parents [] [] := ⟨List.nodup_nil, by simp, by simp⟩
  obtain ⟨result, hresult, hcollects⟩ := collects_collect hempty hwf hindexes hfuel
  rw [List.nil_append] at hcollects
  refine ⟨result, hresult, fun a ha b hb => ⟨?_, ?_⟩⟩
  · rintro ⟨members, hin, hina, hinb⟩
    obtain ⟨⟨root, _⟩, hentry, rfl⟩ := List.mem_map.mp hin
    have hget := Table.get?_of_mem hcollects.unique hentry
    exact ⟨root, ((hcollects.members root _ hget a).mp hina).2,
      ((hcollects.members root _ hget b).mp hinb).2⟩
  · rintro ⟨root, hroota, hrootb⟩
    obtain ⟨members, hget⟩ := Option.isSome_iff_exists.mp (hcollects.met a ha root hroota)
    exact ⟨members, List.mem_map.mpr ⟨_, Table.mem_of_get? hget, rfl⟩,
      (hcollects.members root members hget a).mpr ⟨ha, hroota⟩,
      (hcollects.members root members hget b).mpr ⟨hb, hrootb⟩⟩

end Collect
end CapabilityCompiler.Foundation.DisjointSet
