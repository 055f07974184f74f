import CapabilityCompiler.Foundation.JsonText
import CapabilityCompiler.Foundation.Table

/-! A canonical text does not depend on the order in which a document lists its fields. -/
namespace CapabilityCompiler.Foundation

namespace Printer
variable (printer : Printer)

theorem dumpsItems_eq (items : List Json) : dumpsItems printer items = items.map printer.dumps := by
  induction items with
  | nil => rfl
  | cons x xs ih => rw [dumpsItems, ih, List.map_cons]

theorem dumpsFields_eq (fields : Fields) :
    dumpsFields printer fields = fields.map fun p => (p.1, printer.dumps p.2) := by
  induction fields with
  | nil => rfl
  | cons p fs ih => rw [dumpsFields, ih, List.map_cons]

/-- Sorting by the keys does not look at the values. -/
theorem sortKeys_map {α β : Type} (f : α → β) (fields : List (String × α)) :
    sortKeys (fields.map fun p => (p.1, f p.2)) = (sortKeys fields).map fun p => (p.1, f p.2) := by
  rw [sortKeys, sortKeys, List.map_insertionSort (fun a b : String × α => a.1 ≤ b.1)
    (fun a b : String × β => a.1 ≤ b.1) (fun p => (p.1, f p.2))]
  exact fun _ _ _ _ => Iff.rfl

/-- Tables that bind the same keys to the same values are listed alike. -/
theorem sortKeys_eq_of_get? {α : Type} {first second : Table String α} (hfirst : first.Unique)
    (hsecond : second.Unique) (hsame : ∀ key, first.get? key = second.get? key) :
    sortKeys first = sortKeys second := by
  have hperm : first.Perm second := by
    refine (List.perm_ext_iff_of_nodup (List.Nodup.of_map _ hfirst)
      (List.Nodup.of_map _ hsecond)).mpr fun entry => ?_
    rw [Table.mem_iff_get? hfirst, Table.mem_iff_get? hsecond, hsame]
  refine List.Perm.eq_of_pairwise ?_
    (List.pairwise_insertionSort (fun a b : String × α => a.1 ≤ b.1) first)
    (List.pairwise_insertionSort (fun a b : String × α => a.1 ≤ b.1) second)
    ((List.perm_insertionSort _ _).trans (hperm.trans (List.perm_insertionSort _ _).symm))
  intro a b ha hb hab hba
  have hkey : a.1 = b.1 := String.le_antisymm hab hba
  have hmemA := (List.perm_insertionSort _ _).mem_iff.mp ha
  have hmemB := hperm.mem_iff.mpr ((List.perm_insertionSort _ _).mem_iff.mp hb)
  exact List.inj_on_of_nodup_map hfirst hmemA hmemB hkey

theorem sortKeys_sortKeys {α : Type} (fields : List (String × α)) :
    sortKeys (sortKeys fields) = sortKeys fields := by
  have hsorted := List.pairwise_insertionSort (fun a b : String × α => a.1 ≤ b.1) fields
  exact hsorted.insertionSort_eq

/-- Fields that are left out may be left out before sorting. -/
theorem filter_orderedInsert {α : Type} (keep : String → Bool) (field : String × α)
    {fields : List (String × α)} (hsorted : fields.Pairwise fun a b => a.1 ≤ b.1) :
    (fields.orderedInsert (fun a b => a.1 ≤ b.1) field).filter (fun f => keep f.1) =
      if keep field.1 then
        (fields.filter fun f => keep f.1).orderedInsert (fun a b => a.1 ≤ b.1) field
      else fields.filter fun f => keep f.1 := by
  induction fields with
  | nil => cases hkeep : keep field.1 <;> simp [hkeep]
  | cons first rest ih =>
    obtain ⟨hfirst, hrest⟩ := List.pairwise_cons.mp hsorted
    rw [List.orderedInsert_cons]
    by_cases hle : field.1 ≤ first.1
    · have hbelow : ∀ other ∈ (first :: rest).filter fun f => keep f.1, field.1 ≤ other.1 := by
        intro other hother
        rcases List.mem_cons.mp (List.mem_of_mem_filter hother) with rfl | hother
        · exact hle
        · exact String.le_trans hle (hfirst other hother)
      rw [if_pos hle, List.filter_cons]
      split
      · cases hkept : (first :: rest).filter fun f => keep f.1 with
        | nil => rfl
        | cons other others =>
          have hother := hbelow other (hkept ▸ List.mem_cons_self)
          exact (List.orderedInsert_cons_of_le (r := fun a b : String × α => a.1 ≤ b.1) others
            hother).symm
      · rfl
    · rw [if_neg hle, List.filter_cons, List.filter_cons, ih hrest]
      cases hfield : keep field.1 <;> cases hkeep : keep first.1 <;>
        simp [List.orderedInsert_cons, hle]

theorem sortKeys_filter {α : Type} (keep : String → Bool) (fields : List (String × α)) :
    (sortKeys fields).filter (fun f => keep f.1) = sortKeys (fields.filter fun f => keep f.1) := by
  induction fields with
  | nil => rfl
  | cons field rest ih =>
    have hsorted := List.pairwise_insertionSort (fun a b : String × α => a.1 ≤ b.1) rest
    rw [sortKeys, List.insertionSort_cons, filter_orderedInsert keep field hsorted, List.filter_cons]
    change (if keep field.1 = true then List.orderedInsert _ field
      ((sortKeys rest).filter fun f => keep f.1) else (sortKeys rest).filter fun f => keep f.1) = _
    rw [ih]
    split <;> rfl

mutual

/-- A document and its sorted form have the same canonical text. -/
theorem dumps_keySorted (value : Json) : printer.dumps value.keySorted = printer.dumps value := by
  cases value with
  | arr items =>
    rw [Json.keySorted, dumps, dumps, dumpsItems_keySorted items]
  | obj fields =>
    have hfields : sortKeys (dumpsFields printer (sortKeys (Json.keySortedFields fields))) =
        sortKeys (dumpsFields printer fields) := by
      rw [dumpsFields_eq, sortKeys_map, sortKeys_sortKeys, ← sortKeys_map, ← dumpsFields_eq,
        dumpsFields_keySorted fields]
    rw [Json.keySorted, dumps, dumps, hfields]
  | _ => rfl

theorem dumpsItems_keySorted (items : List Json) :
    dumpsItems printer (Json.keySortedItems items) = dumpsItems printer items := by
  cases items with
  | nil => rfl
  | cons x xs => rw [Json.keySortedItems, dumpsItems, dumpsItems, dumps_keySorted x,
      dumpsItems_keySorted xs]

theorem dumpsFields_keySorted (fields : Fields) :
    dumpsFields printer (Json.keySortedFields fields) = dumpsFields printer fields := by
  cases fields with
  | nil => rfl
  | cons p fs =>
    obtain ⟨k, x⟩ := p
    rw [Json.keySortedFields, dumpsFields, dumpsFields, dumps_keySorted x, dumpsFields_keySorted fs]

end

end Printer
end CapabilityCompiler.Foundation
