import CapabilityCompiler.Foundation.Json
import Mathlib.Data.Option.Basic
import Mathlib.Data.List.Forall2

/-! JSON equality compares arrays item by item and objects key by key. -/
namespace CapabilityCompiler.Foundation.Json

theorem eqWith_arr {leaf : Json → Json → Bool} {xs ys : List Json} :
    eqWith leaf (.arr xs) (.arr ys) = eqItems leaf xs ys := rfl

theorem eqWith_obj {leaf : Json → Json → Bool} {fs gs : Fields} :
    eqWith leaf (.obj fs) (.obj gs) =
      ((gs.all fun g => (field? g.1 fs).isSome) && eqFields leaf [] fs gs) := rfl

theorem eqItems_iff {leaf : Json → Json → Bool} {xs ys : List Json} :
    eqItems leaf xs ys = true ↔ List.Forall₂ (fun x y => eqWith leaf x y = true) xs ys := by
  induction xs generalizing ys with
  | nil => cases ys <;> simp [eqItems]
  | cons x xs ih => cases ys <;> simp [eqItems, ih]

theorem eqFields_iff {leaf : Json → Json → Bool} {seen : List String} {fs gs : Fields} :
    eqFields leaf seen fs gs = true ↔
      ∀ k x, k ∉ seen → field? k fs = some x →
        ∃ y, field? k gs = some y ∧ eqWith leaf x y = true := by
  induction fs generalizing seen with
  | nil => simp [eqFields]
  | cons p fs ih =>
    obtain ⟨l, v⟩ := p
    simp only [eqFields, Bool.and_eq_true, Bool.or_eq_true, decide_eq_true_eq, ih, field?_cons]
    constructor
    · rintro ⟨hhead, htail⟩ k x hseen hx
      by_cases hk : l = k
      · subst hk
        simp only [if_true, Option.some.injEq] at hx
        subst hx
        cases hgs : field? l gs with
        | none => simp [hgs, hseen] at hhead
        | some y => exact ⟨y, rfl, by simpa [hgs, hseen] using hhead⟩
      · exact htail k x (by simp [hseen, Ne.symm hk]) (by simpa [hk] using hx)
    · intro h
      refine ⟨?_, fun k x hseen hx => ?_⟩
      · by_cases hl : l ∈ seen
        · exact .inl hl
        · obtain ⟨y, hy, hxy⟩ := h l v hl (by simp)
          exact .inr (by simpa [hy] using hxy)
      · rw [List.mem_cons, not_or] at hseen
        exact h k x hseen.2 (by simpa [Ne.symm hseen.1] using hx)

/-- Two objects are equal when they bind the same keys to equal values. -/
theorem eqWith_obj_iff {leaf : Json → Json → Bool} {fs gs : Fields} :
    eqWith leaf (.obj fs) (.obj gs) = true ↔
      ∀ k, Option.Rel (fun x y => eqWith leaf x y = true) (field? k fs) (field? k gs) := by
  rw [eqWith_obj, Bool.and_eq_true, eqFields_iff, List.all_eq_true]
  constructor
  · rintro ⟨hkeys, hfields⟩ k
    cases hf : field? k fs with
    | some x =>
      obtain ⟨y, hy, hxy⟩ := hfields k x List.not_mem_nil hf
      rw [hy]
      exact .some hxy
    | none =>
      cases hg : field? k gs with
      | none => exact .none
      | some y => simpa [hf] using hkeys (k, y) (mem_of_field? hg)
  · intro h
    refine ⟨fun g hg => ?_, fun k x _ hx => ?_⟩
    · obtain ⟨y, hy⟩ := Option.isSome_iff_exists.mp
        (field?_isSome_iff.mpr (List.mem_map_of_mem hg) : (field? g.1 gs).isSome = true)
      have hrel := h g.1
      rw [hy] at hrel
      generalize field? g.1 fs = x at hrel
      cases hrel with
      | some _ => rfl
    · have hrel := h k
      rw [hx] at hrel
      generalize field? k gs = y at hrel
      cases hrel with
      | some hxy => exact ⟨_, rfl, hxy⟩

/-- A field looked up in a document that may not be an object. -/
def get? (name : String) : Json → Option Json
  | .obj fields => field? name fields
  | _ => none

/-- The items of an array, the values of an object. -/
def parts : Json → List Json
  | .arr items => items
  | .obj fields => fields.map Prod.snd
  | _ => []

/-- Induction with hypotheses for the parts of a document and for the parts of these. -/
theorem parts_induction {motive : Json → Prop}
    (h : ∀ s, (∀ c ∈ s.parts, motive c ∧ ∀ d ∈ c.parts, motive d) → motive s) (s : Json) :
    motive s := by
  suffices hboth : motive s ∧ ∀ c ∈ s.parts, motive c from hboth.1
  have hstep : ∀ s : Json, (∀ c ∈ s.parts, motive c ∧ ∀ d ∈ c.parts, motive d) →
      motive s ∧ ∀ c ∈ s.parts, motive c := fun s hs => ⟨h s hs, fun c hc => (hs c hc).1⟩
  induction s with
  | arr items ih => exact hstep _ ih
  | obj fields ih => exact hstep _ (by simpa [parts] using fun c k hk => ih (k, c) hk)
  | _ => exact hstep _ (by simp [parts])

theorem mem_parts_of_field? {key : String} {fields : Fields} {v : Json}
    (h : field? key fields = some v) : v ∈ (Json.obj fields).parts :=
  List.mem_map.mpr ⟨(key, v), mem_of_field? h, rfl⟩

def isScalar : Json → Bool
  | .arr _ => false
  | .obj _ => false
  | _ => true

theorem eqWith_scalar {leaf : Json → Json → Bool} {a b : Json} (ha : a.isScalar = true)
    (hb : b.isScalar = true) : eqWith leaf a b = leaf a b := by
  cases a <;> cases b <;> first | rfl | simp [isScalar] at ha hb

theorem jsonLeaf_refl {a : Json} (h : a.isScalar = true) : jsonLeaf a a = true := by
  cases a <;> simp [jsonLeaf, num?, isScalar] at h ⊢

theorem jsonLeaf_symm {a b : Json} (h : jsonLeaf a b = true) : jsonLeaf b a = true := by
  cases a <;> cases b <;> simp_all [jsonLeaf, num?]

theorem jsonLeaf_trans {a b c : Json} (hab : jsonLeaf a b = true) (hbc : jsonLeaf b c = true) :
    jsonLeaf a c = true := by
  cases a <;> cases b <;> simp [jsonLeaf, num?] at hab <;>
    cases c <;> simp_all [jsonLeaf, num?]

theorem jsonEqual_arr_iff {xs ys : List Json} :
    jsonEqual (.arr xs) (.arr ys) = true ↔
      List.Forall₂ (fun x y => jsonEqual x y = true) xs ys := by
  rw [jsonEqual, eqWith_arr, eqItems_iff]

theorem jsonEqual_obj_iff {fs gs : Fields} :
    jsonEqual (.obj fs) (.obj gs) = true ↔
      ∀ k, Option.Rel (fun x y => jsonEqual x y = true) (field? k fs) (field? k gs) :=
  eqWith_obj_iff

theorem jsonEqual_scalar {a b : Json} (ha : a.isScalar = true) (hb : b.isScalar = true) :
    jsonEqual a b = jsonLeaf a b :=
  eqWith_scalar ha hb

variable {leaf : Json → Json → Bool}

/-- Equal documents have the same shape. -/
theorem eqWith_shape {a b : Json} (h : eqWith leaf a b = true) :
    (a.isScalar = true ∧ b.isScalar = true ∧ leaf a b = true) ∨
      (∃ xs ys, a = .arr xs ∧ b = .arr ys) ∨ ∃ fs gs, a = .obj fs ∧ b = .obj gs := by
  cases a <;> cases b
  all_goals first
    | exact absurd h Bool.false_ne_true
    | exact .inl ⟨rfl, rfl, h⟩
    | exact .inr (.inl ⟨_, _, rfl, rfl⟩)
    | exact .inr (.inr ⟨_, _, rfl, rfl⟩)

theorem eqWith_refl (hleaf : ∀ a, a.isScalar = true → leaf a a = true) (a : Json) :
    eqWith leaf a a = true := by
  induction a with
  | arr xs ih =>
    rw [eqWith_arr, eqItems_iff]
    exact List.forall₂_same.mpr ih
  | obj fs ih =>
    refine eqWith_obj_iff.mpr fun k => ?_
    cases hk : field? k fs with
    | none => exact .none
    | some x => exact .some (ih (k, x) (mem_of_field? hk))
  | _ =>
    rw [eqWith_scalar rfl rfl]
    exact hleaf _ rfl

theorem eqWith_symm (hleaf : ∀ a b, leaf a b = true → leaf b a = true) {a b : Json}
    (h : eqWith leaf a b = true) : eqWith leaf b a = true := by
  induction a generalizing b with
  | arr xs ih =>
    rcases eqWith_shape h with ⟨ha, -, -⟩ | ⟨xs', ys, hxs, rfl⟩ | ⟨fs, gs, hfs, -⟩
    · simp [isScalar] at ha
    · rw [eqWith_arr, eqItems_iff, List.forall₂_iff_get] at h ⊢
      exact ⟨h.1.symm, fun n hy hx => ih _ (List.get_mem xs _) (h.2 n hx hy)⟩
    · simp at hfs
  | obj fs ih =>
    rcases eqWith_shape h with ⟨ha, -, -⟩ | ⟨xs, ys, hxs, -⟩ | ⟨fs', gs, hfs, rfl⟩
    · simp [isScalar] at ha
    · simp at hxs
    · rw [eqWith_obj_iff] at h ⊢
      intro k
      have hk := h k
      generalize hx : field? k fs = x at hk
      generalize field? k gs = y at hk
      cases hk with
      | none => exact .none
      | some hxy => exact .some (ih (k, _) (mem_of_field? hx) hxy)
  | _ =>
    rcases eqWith_shape h with ⟨ha, hb, hequal⟩ | ⟨xs, ys, hxs, -⟩ | ⟨fs, gs, hfs, -⟩
    · rw [eqWith_scalar hb ha]
      exact hleaf _ _ hequal
    · simp at hxs
    · simp at hfs

theorem eqWith_trans
    (hleaf : ∀ a b c, leaf a b = true → leaf b c = true → leaf a c = true) {a b c : Json}
    (hab : eqWith leaf a b = true) (hbc : eqWith leaf b c = true) : eqWith leaf a c = true := by
  induction a generalizing b c with
  | arr xs ih =>
    rcases eqWith_shape hab with ⟨ha, -, -⟩ | ⟨xs', ys, hxs, rfl⟩ | ⟨fs, gs, hfs, -⟩
    · simp [isScalar] at ha
    · rcases eqWith_shape hbc with ⟨ha, -, -⟩ | ⟨ys', zs, hys, rfl⟩ | ⟨fs, gs, hfs, -⟩
      · simp [isScalar] at ha
      · rw [eqWith_arr, eqItems_iff, List.forall₂_iff_get] at hab hbc ⊢
        refine ⟨hab.1.trans hbc.1, fun n hx hz => ?_⟩
        have hy : n < ys.length := hab.1 ▸ hx
        exact ih _ (List.get_mem xs _) (hab.2 n hx hy) (hbc.2 n hy hz)
      · simp at hfs
    · simp at hfs
  | obj fs ih =>
    rcases eqWith_shape hab with ⟨ha, -, -⟩ | ⟨xs, ys, hxs, -⟩ | ⟨fs', gs, hfs, rfl⟩
    · simp [isScalar] at ha
    · simp at hxs
    · rcases eqWith_shape hbc with ⟨ha, -, -⟩ | ⟨ys, zs, hys, -⟩ | ⟨gs', hs, hgs, rfl⟩
      · simp [isScalar] at ha
      · simp at hys
      · rw [eqWith_obj_iff] at hab hbc ⊢
        intro k
        have hxy := hab k
        have hyz := hbc k
        generalize hx : field? k fs = x at hxy
        generalize field? k gs = y at hxy hyz
        generalize field? k hs = z at hyz
        cases hxy with
        | none => cases hyz with | none => exact .none
        | some hxy => cases hyz with | some hyz => exact .some (ih (k, _) (mem_of_field? hx) hxy hyz)
  | _ =>
    rcases eqWith_shape hab with ⟨ha, hb, hequal⟩ | ⟨xs, ys, hxs, -⟩ | ⟨fs, gs, hfs, -⟩
    · rcases eqWith_shape hbc with ⟨-, hc, hother⟩ | ⟨ys, zs, rfl, -⟩ | ⟨gs, hs, rfl, -⟩
      · rw [eqWith_scalar ha hc]
        exact hleaf _ _ _ hequal hother
      · simp [isScalar] at hb
      · simp [isScalar] at hb
    · simp at hxs
    · simp at hfs

theorem jsonEqual_shape {a b : Json} (h : jsonEqual a b = true) :
    (a.isScalar = true ∧ b.isScalar = true ∧ jsonLeaf a b = true) ∨
      (∃ xs ys, a = .arr xs ∧ b = .arr ys) ∨ ∃ fs gs, a = .obj fs ∧ b = .obj gs :=
  eqWith_shape h

theorem jsonEqual_refl (a : Json) : jsonEqual a a = true := eqWith_refl (fun _ => jsonLeaf_refl) a

theorem jsonEqual_symm {a b : Json} (h : jsonEqual a b = true) : jsonEqual b a = true :=
  eqWith_symm (fun _ _ => jsonLeaf_symm) h

theorem jsonEqual_trans {a b c : Json} (hab : jsonEqual a b = true) (hbc : jsonEqual b c = true) :
    jsonEqual a c = true :=
  @eqWith_trans jsonLeaf (fun _ _ _ => jsonLeaf_trans) _ _ _ hab hbc

theorem jsonEqual_get? {a b : Json} (h : jsonEqual a b = true) (name : String) :
    Option.Rel (fun x y => jsonEqual x y = true) (a.get? name) (b.get? name) := by
  rcases jsonEqual_shape h with ⟨ha, hb, -⟩ | ⟨xs, ys, rfl, rfl⟩ | ⟨fs, gs, rfl, rfl⟩
  · cases a <;> cases b <;> simp_all [get?, isScalar]
  · exact .none
  · exact jsonEqual_obj_iff.mp h name

theorem jsonEqual_num? {a b : Json} (h : jsonEqual a b = true) : a.num? = b.num? := by
  rcases jsonEqual_shape h with ⟨ha, hb, hleaf⟩ | ⟨xs, ys, rfl, rfl⟩ | ⟨fs, gs, rfl, rfl⟩
  · cases a <;> cases b <;> simp_all [jsonLeaf, num?, isScalar]
  · rfl
  · rfl

theorem jsonEqual_str {s : String} {b : Json} (h : jsonEqual (.str s) b = true) : b = .str s := by
  cases b with
  | str t =>
    have hleaf : jsonLeaf (.str s) (.str t) = true := h
    simp_all [jsonLeaf]
  | _ => exact absurd h Bool.false_ne_true

/-- A finer equality of scalars gives a finer equality of documents. -/
theorem eqWith_mono {leaf coarser : Json → Json → Bool}
    (hleaf : ∀ a b, a.isScalar = true → b.isScalar = true → leaf a b = true → coarser a b = true)
    {a b : Json} (h : eqWith leaf a b = true) : eqWith coarser a b = true := by
  induction a generalizing b with
  | arr xs ih =>
    cases b with
    | arr ys =>
      rw [eqWith_arr, eqItems_iff, List.forall₂_iff_get] at h ⊢
      exact ⟨h.1, fun n hx hy => ih _ (List.get_mem xs _) (h.2 n hx hy)⟩
    | _ => exact absurd h Bool.false_ne_true
  | obj fs ih =>
    cases b with
    | obj gs =>
      rw [eqWith_obj_iff] at h ⊢
      intro k
      have hk := h k
      generalize hx : field? k fs = x at hk
      generalize field? k gs = y at hk
      cases hk with
      | none => exact .none
      | some hxy => exact .some (ih (k, _) (mem_of_field? hx) hxy)
    | _ => exact absurd h Bool.false_ne_true
  | _ =>
    cases b with
    | arr ys => exact absurd h Bool.false_ne_true
    | obj gs => exact absurd h Bool.false_ne_true
    | _ =>
      rw [eqWith_scalar rfl rfl] at h ⊢
      exact hleaf _ _ rfl rfl h

theorem pyEqual_of_jsonEqual {a b : Json} (h : jsonEqual a b = true) : pyEqual a b = true := by
  refine eqWith_mono (fun x y hx hy hxy => ?_) h
  cases x <;> cases y <;> simp_all [pyLeaf, pyLeaf.pyNum?, jsonLeaf, num?, isScalar]

theorem pyEqual_refl (a : Json) : pyEqual a a = true := pyEqual_of_jsonEqual (jsonEqual_refl a)

/-- Equality of scalars that keeps booleans, integers and floats apart. -/
def typedLeaf : Json → Json → Bool
  | .null, .null => true
  | .bool a, .bool b => a == b
  | .int a, .int b => a == b
  | .float a, .float b => a == b
  | .str a, .str b => a == b
  | _, _ => false

/-- Equality of documents that keeps booleans, integers and floats apart at every depth. -/
def typedEqual : Json → Json → Bool := eqWith typedLeaf

theorem typedLeaf_iff {a b : Json} (ha : a.isScalar = true) : typedLeaf a b = true ↔ a = b := by
  cases a <;> cases b <;> simp [typedLeaf, isScalar] at ha ⊢

theorem typedEqual_refl (a : Json) : typedEqual a a = true :=
  eqWith_refl (fun _ ha => (typedLeaf_iff ha).mpr rfl) a

theorem typedEqual_symm {a b : Json} (h : typedEqual a b = true) : typedEqual b a = true :=
  eqWith_symm (fun a b hab => by cases a <;> cases b <;> simp_all [typedLeaf]) h

theorem typedEqual_trans {a b c : Json} (hab : typedEqual a b = true)
    (hbc : typedEqual b c = true) : typedEqual a c = true :=
  eqWith_trans (fun a b c hab hbc => by cases a <;> cases b <;> simp_all [typedLeaf]) hab hbc

/-- The same fields in the same order, with equal values. -/
def Alike (fs gs : Fields) : Prop :=
  List.Forall₂ (fun p q => p.1 = q.1 ∧ jsonEqual p.2 q.2 = true) fs gs

theorem Alike.jsonEqual {fs gs : Fields} (h : Alike fs gs) :
    jsonEqual (.obj fs) (.obj gs) = true := by
  rw [jsonEqual_obj_iff]
  intro k
  induction h with
  | nil => exact .none
  | @cons p q fs gs hpq _ ih =>
    obtain ⟨k', x⟩ := p
    obtain ⟨l', y⟩ := q
    obtain ⟨rfl, hxy⟩ := hpq
    by_cases hk : k' = k
    · simpa [hk] using Option.Rel.some hxy
    · simpa [hk] using ih

/-- The values at a key are equal, or there are none. -/
theorem jsonEqual_field? {fs gs : Fields} (h : jsonEqual (.obj fs) (.obj gs) = true) (key : String) :
    (field? key fs = none ∧ field? key gs = none) ∨
      ∃ x y, field? key fs = some x ∧ field? key gs = some y ∧ jsonEqual x y = true := by
  have hkey := jsonEqual_obj_iff.mp h key
  generalize field? key fs = x at hkey
  generalize field? key gs = y at hkey
  cases hkey with
  | none => exact .inl ⟨rfl, rfl⟩
  | some hxy => exact .inr ⟨_, _, rfl, rfl, hxy⟩

end CapabilityCompiler.Foundation.Json
