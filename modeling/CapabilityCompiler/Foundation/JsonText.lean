import CapabilityCompiler.Foundation.Json
import Mathlib.Data.List.Sort

/-! Canonical JSON text: sorted keys, no spaces, non-ASCII characters left as they are. -/
namespace CapabilityCompiler.Foundation

/-- How the host prints a finite double. -/
structure Printer where
  floatRepr : ℚ → String

namespace Printer

private def hexDigit (n : ℕ) : Char :=
  if n < 10 then Char.ofNat (48 + n) else Char.ofNat (87 + n)

def escapeChar (c : Char) : List Char :=
  if c = '"' then ['\\', '"']
  else if c = '\\' then ['\\', '\\']
  else if c = '\n' then ['\\', 'n']
  else if c = '\r' then ['\\', 'r']
  else if c = '\t' then ['\\', 't']
  else if c.toNat = 8 then ['\\', 'b']
  else if c.toNat = 12 then ['\\', 'f']
  else if c.toNat < 32 then
    ['\\', 'u', '0', '0', hexDigit (c.toNat / 16), hexDigit (c.toNat % 16)]
  else [c]

def quote (s : String) : String :=
  "\"" ++ String.ofList (s.toList.flatMap escapeChar) ++ "\""

def joinComma : List String → String
  | [] => ""
  | [s] => s
  | s :: rest => s ++ "," ++ joinComma rest

/-- The bindings in the order of their keys. -/
def sortKeys {α : Type} (fields : List (String × α)) : List (String × α) :=
  fields.insertionSort fun a b => a.1 ≤ b.1

mutual

/-- `json.dumps(value, ensure_ascii=False, allow_nan=False, sort_keys=True, separators=(",", ":"))`. -/
def dumps (printer : Printer) : Json → String
  | .null => "null"
  | .bool b => if b then "true" else "false"
  | .int n => toString n
  | .float q => printer.floatRepr q
  | .str s => quote s
  | .arr items => "[" ++ joinComma (dumpsItems printer items) ++ "]"
  | .obj fields =>
    "\x7b" ++ joinComma ((sortKeys (dumpsFields printer fields)).map fun p =>
      quote p.1 ++ ":" ++ p.2) ++ "\x7d"

def dumpsItems (printer : Printer) : List Json → List String
  | [] => []
  | x :: xs => dumps printer x :: dumpsItems printer xs

def dumpsFields (printer : Printer) : Fields → List (String × String)
  | [] => []
  | (k, x) :: fs => (k, dumps printer x) :: dumpsFields printer fs

end
end Printer

/-! What a canonical text is read back as. -/

namespace Json

mutual

/-- The document with the fields of every object in the order of their keys. -/
def keySorted : Json → Json
  | .arr items => .arr (keySortedItems items)
  | .obj fields => .obj (Printer.sortKeys (keySortedFields fields))
  | value => value

def keySortedItems : List Json → List Json
  | [] => []
  | x :: xs => keySorted x :: keySortedItems xs

def keySortedFields : Fields → Fields
  | [] => []
  | (k, x) :: fs => (k, keySorted x) :: keySortedFields fs

end

theorem keySortedItems_eq (items : List Json) : keySortedItems items = items.map keySorted := by
  induction items with
  | nil => rfl
  | cons x xs ih => rw [keySortedItems, ih, List.map_cons]

theorem keySortedFields_eq (fields : Fields) :
    keySortedFields fields = fields.map fun p => (p.1, keySorted p.2) := by
  induction fields with
  | nil => rfl
  | cons p fs ih => rw [keySortedFields, ih, List.map_cons]

theorem sortKeys_perm {α : Type} (fields : List (String × α)) :
    (Printer.sortKeys fields).Perm fields :=
  List.perm_insertionSort _ _

theorem keys_keySortedFields (fields : Fields) :
    (keySortedFields fields).map Prod.fst = fields.map Prod.fst := by
  rw [keySortedFields_eq, List.map_map]
  rfl

theorem field?_sortKeys (key : String) (fields : Fields) :
    field? key (Printer.sortKeys fields) = field? key fields := by
  have hinsert : ∀ (p : String × Json) (sorted : Fields),
      field? key (sorted.orderedInsert (fun a b => a.1 ≤ b.1) p) =
        field? key (p :: sorted) := by
    intro p sorted
    induction sorted with
    | nil => rfl
    | cons b rest ih =>
      rw [List.orderedInsert_cons]
      split
      · rfl
      · rename_i hlater
        obtain ⟨k, v⟩ := p
        obtain ⟨l, w⟩ := b
        have hne : l ≠ k := fun heq => hlater (heq ▸ String.le_refl l)
        rw [field?_cons, ih, field?_cons, field?_cons, field?_cons]
        by_cases hk : k = key
        · rw [if_pos hk, if_pos hk, if_neg (hk ▸ hne)]
        · rw [if_neg hk, if_neg hk]
  induction fields with
  | nil => rfl
  | cons p rest ih =>
    rw [Printer.sortKeys, List.insertionSort_cons, hinsert]
    obtain ⟨k, v⟩ := p
    rw [field?_cons, field?_cons, ← ih, Printer.sortKeys]

theorem field?_keySortedFields (key : String) (fields : Fields) :
    field? key (keySortedFields fields) = (field? key fields).map keySorted := by
  induction fields with
  | nil => rfl
  | cons p fs ih =>
    obtain ⟨k, x⟩ := p
    rw [keySortedFields, field?_cons, field?_cons]
    split
    · rfl
    · exact ih

/-- A field of a sorted object is the sorted value of the field. -/
theorem field?_keySorted {fields : Fields} (h : (fields.map Prod.fst).Nodup) (key : String) :
    field? key (Printer.sortKeys (keySortedFields fields)) = (field? key fields).map keySorted := by
  have hunique : ((keySortedFields fields).map Prod.fst).Nodup := by
    rw [keys_keySortedFields]
    exact h
  rw [field?_of_perm (sortKeys_perm _) hunique, field?_keySortedFields]

end Json
end CapabilityCompiler.Foundation
