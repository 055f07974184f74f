import Mathlib.Data.Rat.Defs
import Mathlib.Data.Rat.Cast.Order
import Mathlib.Data.List.Sort

/-! JSON documents with exact numbers, their two notions of equality, and induction.
An integer and a finite double keep their own constructor, so both equalities can be stated. -/
namespace CapabilityCompiler.Foundation

/-- A JSON document. A finite double is the rational it denotes; object fields keep their order,
and the first binding of a key is the one a reader sees. -/
inductive Json where
  | null
  | bool (b : Bool)
  | int (n : ℤ)
  | float (q : ℚ)
  | str (s : String)
  | arr (items : List Json)
  | obj (fields : List (String × Json))

abbrev Fields := List (String × Json)

namespace Json

/-- Induction with one hypothesis for each element of an array and each field of an object. -/
@[induction_eliminator]
theorem induction {motive : Json → Prop} (null : motive .null)
    (bool : ∀ b, motive (.bool b)) (int : ∀ n, motive (.int n)) (float : ∀ q, motive (.float q))
    (str : ∀ s, motive (.str s))
    (arr : ∀ items, (∀ j ∈ items, motive j) → motive (.arr items))
    (obj : ∀ fields : Fields, (∀ p ∈ fields, motive p.2) → motive (.obj fields)) (j : Json) :
    motive j := by
  refine @Json.rec motive (fun items => ∀ j ∈ items, motive j)
    (fun fields => ∀ p ∈ fields, motive p.2) (fun p => motive p.2)
    null bool int float str arr obj ?_ ?_ ?_ ?_ ?_ j
  · simp
  · intro x xs hx hxs j hj
    rcases List.mem_cons.mp hj with rfl | hj
    · exact hx
    · exact hxs j hj
  · simp
  · intro p ps hp hps q hq
    rcases List.mem_cons.mp hq with rfl | hq
    · exact hp
    · exact hps q hq
  · intro _ _ hx
    exact hx

mutual

/-- Identity of two documents, field order included. -/
def same : Json → Json → Bool
  | .null, .null => true
  | .bool a, .bool b => a == b
  | .int a, .int b => a == b
  | .float a, .float b => a == b
  | .str a, .str b => a == b
  | .arr xs, .arr ys => sameItems xs ys
  | .obj fs, .obj gs => sameFields fs gs
  | _, _ => false

def sameItems : List Json → List Json → Bool
  | [], [] => true
  | x :: xs, y :: ys => same x y && sameItems xs ys
  | _, _ => false

def sameFields : Fields → Fields → Bool
  | [], [] => true
  | (k, x) :: fs, (l, y) :: gs => k == l && same x y && sameFields fs gs
  | _, _ => false

end

private theorem sameItems_iff {xs : List Json} (h : ∀ x ∈ xs, ∀ b, same x b = true ↔ x = b) :
    ∀ ys, sameItems xs ys = true ↔ xs = ys := by
  induction xs with
  | nil => intro ys; cases ys <;> simp [sameItems]
  | cons x xs ih =>
    intro ys
    cases ys with
    | nil => simp [sameItems]
    | cons y ys =>
      have hx := h x List.mem_cons_self y
      have hxs := ih (fun z hz => h z (List.mem_cons_of_mem x hz)) ys
      simp [sameItems, hx, hxs]

private theorem sameFields_iff {fs : Fields} (h : ∀ p ∈ fs, ∀ b, same p.2 b = true ↔ p.2 = b) :
    ∀ gs, sameFields fs gs = true ↔ fs = gs := by
  induction fs with
  | nil => intro gs; cases gs <;> simp [sameFields]
  | cons p fs ih =>
    intro gs
    obtain ⟨k, x⟩ := p
    cases gs with
    | nil => simp [sameFields]
    | cons q gs =>
      have hx := h (k, x) List.mem_cons_self q.2
      have hfs := ih (fun z hz => h z (List.mem_cons_of_mem _ hz)) gs
      simp only at hx
      simp [sameFields, hx, hfs, Prod.ext_iff]

theorem same_iff (a b : Json) : same a b = true ↔ a = b := by
  induction a generalizing b with
  | arr xs ih => cases b <;> simp [same, sameItems_iff ih]
  | obj fs ih => cases b <;> simp [same, sameFields_iff ih]
  | _ => cases b <;> simp [same]

instance : DecidableEq Json := fun a b => decidable_of_iff _ (same_iff a b)

/-- The value a key is bound to. -/
def field? (key : String) : Fields → Option Json
  | [] => none
  | (k, v) :: rest => if k = key then some v else field? key rest

@[simp] theorem field?_nil (key : String) : field? key [] = none := rfl

@[simp] theorem field?_cons (key k : String) (v : Json) (rest : Fields) :
    field? key ((k, v) :: rest) = if k = key then some v else field? key rest := rfl

theorem mem_of_field? {key : String} {fs : Fields} {v : Json} (h : field? key fs = some v) :
    (key, v) ∈ fs := by
  induction fs with
  | nil => simp at h
  | cons p fs ih =>
    obtain ⟨k, x⟩ := p
    by_cases hk : k = key
    · simp only [field?_cons, hk, if_true, Option.some.injEq] at h
      simp [hk, h]
    · simp only [field?_cons, hk, if_false] at h
      exact List.mem_cons_of_mem _ (ih h)

theorem field?_isSome_iff {key : String} {fs : Fields} :
    (field? key fs).isSome = true ↔ key ∈ fs.map Prod.fst := by
  induction fs with
  | nil => simp
  | cons p fs ih =>
    obtain ⟨k, x⟩ := p
    by_cases hk : k = key
    · simp [hk]
    · have hk' : ¬ key = k := fun h => hk h.symm
      simp [hk, hk', ih]

theorem field?_eq_none_iff {key : String} {fs : Fields} :
    field? key fs = none ↔ key ∉ fs.map Prod.fst := by
  rw [← field?_isSome_iff]
  cases field? key fs <;> simp

/-- Fields in another order bind the same values. -/
theorem field?_of_perm {fields others : Fields} (hperm : fields.Perm others)
    (hunique : (others.map Prod.fst).Nodup) (key : String) :
    field? key fields = field? key others := by
  have hmem : ∀ {gs : Fields}, (gs.map Prod.fst).Nodup → ∀ {v}, (key, v) ∈ gs →
      field? key gs = some v := by
    intro gs hgs v hv
    induction gs with
    | nil => exact absurd hv List.not_mem_nil
    | cons g gs ih =>
      obtain ⟨k, x⟩ := g
      obtain ⟨hfresh, hrest⟩ := List.nodup_cons.mp hgs
      rcases List.mem_cons.mp hv with heq | hv
      · obtain ⟨rfl, rfl⟩ := Prod.mk.inj heq
        simp
      · have hne : k ≠ key := by
          rintro rfl
          exact hfresh (List.mem_map.mpr ⟨_, hv, rfl⟩)
        rw [field?_cons, if_neg hne]
        exact ih hrest hv
  have hfields : (fields.map Prod.fst).Nodup := (hperm.map Prod.fst).nodup_iff.mpr hunique
  cases hfound : field? key others with
  | some v => exact hmem hfields (hperm.mem_iff.mpr (Json.mem_of_field? hfound))
  | none =>
    rw [field?_eq_none_iff] at hfound ⊢
    rwa [(hperm.map Prod.fst).mem_iff]

/-- The number a document denotes, if it is one. -/
def num? : Json → Option ℚ
  | .int n => some n
  | .float q => some q
  | _ => none

/-- JSON equality of scalars: a boolean is never equal to a number. -/
def jsonLeaf : Json → Json → Bool
  | .null, .null => true
  | .bool a, .bool b => a == b
  | .str a, .str b => a == b
  | a, b => match num? a, num? b with
    | some p, some q => p == q
    | _, _ => false

/-- Equality of scalars in the host language, where booleans are the integers 0 and 1. -/
def pyLeaf : Json → Json → Bool
  | .null, .null => true
  | .str a, .str b => a == b
  | a, b => match pyNum? a, pyNum? b with
    | some p, some q => p == q
    | _, _ => false
where
  pyNum? : Json → Option ℚ
    | .bool b => some (if b then 1 else 0)
    | a => num? a

mutual

/-- Structural equality of documents over an equality of scalars; objects are compared as maps. -/
def eqWith (leaf : Json → Json → Bool) : Json → Json → Bool
  | .arr xs, .arr ys => eqItems leaf xs ys
  | .obj fs, .obj gs =>
    (gs.all fun g => (field? g.1 fs).isSome) && eqFields leaf [] fs gs
  | .arr _, _ => false
  | .obj _, _ => false
  | _, .arr _ => false
  | _, .obj _ => false
  | a, b => leaf a b

def eqItems (leaf : Json → Json → Bool) : List Json → List Json → Bool
  | [], [] => true
  | x :: xs, y :: ys => eqWith leaf x y && eqItems leaf xs ys
  | _, _ => false

/-- A field behind an earlier binding of its key is not seen. -/
def eqFields (leaf : Json → Json → Bool) (seen : List String) : Fields → Fields → Bool
  | [], _ => true
  | (k, x) :: fs, gs =>
    (k ∈ seen || match field? k gs with
      | some y => eqWith leaf x y
      | none => false) && eqFields leaf (k :: seen) fs gs

end

/-- Equality of JSON values. -/
def jsonEqual : Json → Json → Bool := eqWith jsonLeaf

/-- Equality of the host language's values, `==` on dictionaries, lists and scalars. -/
def pyEqual : Json → Json → Bool := eqWith pyLeaf

end Json
end CapabilityCompiler.Foundation
