import Mathlib.Data.Finset.Sort
import Mathlib.Data.List.Dedup
import Mathlib.Data.List.Sort
import Mathlib.Data.String.Basic

/-! Splitting and replacing on character lists, in the shapes the kernel can run. -/
namespace CapabilityCompiler.Foundation.Text

/-- `text.split(sep)` for a one-character separator: empty parts are kept. -/
def splitChars (sep : Char) : List Char → List (List Char)
  | [] => [[]]
  | c :: cs =>
    if c = sep then [] :: splitChars sep cs
    else match splitChars sep cs with
      | [] => [[c]]
      | part :: parts => (c :: part) :: parts

def split (sep : Char) (text : String) : List String :=
  (splitChars sep text.toList).map String.ofList

/-- `text.replace(ab, r)` for a two-character pattern. -/
def replaceChars (a b r : Char) : List Char → List Char
  | x :: y :: rest =>
    if x = a ∧ y = b then r :: replaceChars a b r rest
    else x :: replaceChars a b r (y :: rest)
  | chars => chars

/-- The JSON Pointer token a reference token stands for. -/
def unescapeToken (token : String) : String :=
  String.ofList (replaceChars '~' '0' '~' (replaceChars '~' '1' '/' token.toList))

def escapeChars : List Char → List Char
  | [] => []
  | '~' :: cs => '~' :: '0' :: escapeChars cs
  | '/' :: cs => '~' :: '1' :: escapeChars cs
  | c :: cs => c :: escapeChars cs

/-- The reference token of a JSON Pointer token. -/
def escapeToken (token : String) : String :=
  String.ofList (escapeChars token.toList)

/-- The sorted distinct members of a list. -/
def sortedSet (values : List String) : List String :=
  values.dedup.insertionSort (· ≤ ·)

/-- The members of a set in order. -/
def sorted (values : Finset String) : List String := values.sort (· ≤ ·)

theorem mem_sorted {values : Finset String} {s : String} : s ∈ sorted values ↔ s ∈ values :=
  Finset.mem_sort _

@[simp] theorem toFinset_sorted (values : Finset String) : (sorted values).toFinset = values :=
  Finset.sort_toFinset _ _

theorem mem_sortedSet {values : List String} {s : String} : s ∈ sortedSet values ↔ s ∈ values := by
  rw [sortedSet, (List.perm_insertionSort _ _).mem_iff, List.mem_dedup]

theorem nodup_sortedSet (values : List String) : (sortedSet values).Nodup :=
  (List.perm_insertionSort _ _).nodup_iff.mpr (List.nodup_dedup values)

/-- The rest of a text after a prefix. -/
def dropPrefix? (pre : List Char) (chars : List Char) : Option (List Char) :=
  if pre.isPrefixOf chars then some (chars.drop pre.length) else none

def hasPrefix (pre text : String) : Bool := pre.toList.isPrefixOf text.toList

/-- The whitespace of `str.isspace`. -/
def isSpace (c : Char) : Bool :=
  let n := c.toNat
  (0x09 ≤ n && n ≤ 0x0d) || (0x1c ≤ n && n ≤ 0x20) || n = 0x85 || n = 0xa0 || n = 0x1680 ||
    (0x2000 ≤ n && n ≤ 0x200a) || n = 0x2028 || n = 0x2029 || n = 0x202f || n = 0x205f || n = 0x3000

/-- The control characters (category Cc). -/
def isControl (c : Char) : Bool :=
  let n := c.toNat
  n ≤ 0x1f || (0x7f ≤ n && n ≤ 0x9f)

/-- The zeros of the runs of decimal digits (Unicode 15.0, category Nd). -/
def decimalZeros : List ℕ :=
  [0x30, 0x660, 0x6f0, 0x7c0, 0x966, 0x9e6, 0xa66, 0xae6, 0xb66, 0xbe6, 0xc66, 0xce6, 0xd66, 0xde6,
    0xe50, 0xed0, 0xf20, 0x1040, 0x1090, 0x17e0, 0x1810, 0x1946, 0x19d0, 0x1a80, 0x1a90, 0x1b50,
    0x1bb0, 0x1c40, 0x1c50, 0xa620, 0xa8d0, 0xa900, 0xa9d0, 0xa9f0, 0xaa50, 0xabf0, 0xff10,
    0x104a0, 0x10d30, 0x11066, 0x110f0, 0x11136, 0x111d0, 0x112f0, 0x11450, 0x114d0, 0x11650,
    0x116c0, 0x11730, 0x118e0, 0x11950, 0x11c50, 0x11d50, 0x11da0, 0x11f50, 0x16a60, 0x16ac0,
    0x16b50, 0x1d7ce, 0x1d7d8, 0x1d7e2, 0x1d7ec, 0x1d7f6, 0x1e140, 0x1e2f0, 0x1e4f0, 0x1e950,
    0x1fbf0]

def decimalDigit? (c : Char) : Option ℕ :=
  (decimalZeros.find? fun first => first ≤ c.toNat && c.toNat < first + 10).map (c.toNat - ·)

/-- `int(text)` for a text with `text.isdecimal()`. -/
def decimal? (text : String) : Option ℕ :=
  if text = "" then none
  else text.toList.foldl
    (fun acc c => acc.bind fun n => (decimalDigit? c).map (10 * n + ·)) (some 0)

/-- One character stands directly before another. -/
def hasPair (a b : Char) : List Char → Bool
  | x :: y :: rest => (x = a && y = b) || hasPair a b (y :: rest)
  | _ => false

/-- `sep.join(parts)` for a one-character separator. -/
def joinChars (sep : Char) : List (List Char) → List Char
  | [] => []
  | [part] => part
  | part :: parts => part ++ sep :: joinChars sep parts

theorem splitChars_ne_nil (sep : Char) (chars : List Char) : splitChars sep chars ≠ [] := by
  cases chars with
  | nil => simp [splitChars]
  | cons c cs =>
    unfold splitChars
    split
    · simp
    · split <;> simp

theorem joinChars_splitChars (sep : Char) (chars : List Char) :
    joinChars sep (splitChars sep chars) = chars := by
  induction chars with
  | nil => rfl
  | cons c cs ih =>
    obtain ⟨part, parts, hsplit⟩ := List.exists_cons_of_ne_nil (splitChars_ne_nil sep cs)
    rw [hsplit] at ih
    by_cases hc : c = sep
    · simp [splitChars, hc, hsplit, joinChars, ih]
    · cases parts <;> simp_all [splitChars, joinChars]

theorem splitChars_append (sep : Char) (xs ys : List Char) :
    splitChars sep (xs ++ sep :: ys) = splitChars sep xs ++ splitChars sep ys := by
  induction xs with
  | nil => simp [splitChars]
  | cons c cs ih =>
    by_cases hc : c = sep
    · simp [splitChars, hc, ih]
    · obtain ⟨part, parts, hsplit⟩ := List.exists_cons_of_ne_nil (splitChars_ne_nil sep cs)
      simp [splitChars, hc, ih, hsplit]

theorem splitChars_of_not_mem {sep : Char} {chars : List Char} (h : sep ∉ chars) :
    splitChars sep chars = [chars] := by
  induction chars with
  | nil => rfl
  | cons c cs ih =>
    rw [List.mem_cons, not_or] at h
    rw [splitChars, if_neg (Ne.symm h.1), ih h.2]

theorem joinChars_cons_cons (sep : Char) (part next : List Char) (parts : List (List Char)) :
    joinChars sep (part :: next :: parts) = part ++ sep :: joinChars sep (next :: parts) := rfl

theorem toList_of_split {sep : Char} {text : String} {parts : List String}
    (h : split sep text = parts) : text.toList = joinChars sep (parts.map String.toList) := by
  have hparts : parts.map String.toList = splitChars sep text.toList := by
    rw [← h, split, List.map_map]
    simp
  rw [hparts, joinChars_splitChars]

theorem hasPrefix_of_split {sep : Char} {text part : String} {parts : List String}
    (h : split sep text = part :: parts) : hasPrefix part text = true := by
  have htext := toList_of_split h
  simp only [hasPrefix, List.isPrefixOf_iff_prefix]
  cases parts with
  | nil => exact htext ▸ List.prefix_refl _
  | cons next rest =>
    rw [List.map_cons, List.map_cons, joinChars_cons_cons] at htext
    exact ⟨_, htext.symm⟩

/-- The first part is what stands before the separator. -/
theorem head?_splitChars (sep : Char) (chars : List Char) :
    (splitChars sep chars).head? = some (chars.takeWhile (· ≠ sep)) := by
  induction chars with
  | nil => rfl
  | cons c cs ih =>
    by_cases hc : c = sep
    · simp [splitChars, hc]
    · obtain ⟨part, parts, hsplit⟩ := List.exists_cons_of_ne_nil (splitChars_ne_nil sep cs)
      rw [hsplit, List.head?_cons, Option.some.injEq] at ih
      simp [splitChars, hc, hsplit, ih]

theorem dropPrefix?_eq_some {pre chars rest : List Char}
    (h : dropPrefix? pre chars = some rest) : chars = pre ++ rest := by
  unfold dropPrefix? at h
  split_ifs at h with hpre
  obtain rfl := Option.some.inj h
  obtain ⟨t, rfl⟩ := List.isPrefixOf_iff_prefix.mp hpre
  simp

theorem length_replaceChars_le (a b r : Char) (chars : List Char) :
    (replaceChars a b r chars).length ≤ chars.length := by
  induction chars using replaceChars.induct a b with
  | case1 x y rest h ih => rw [replaceChars, if_pos h]; simp only [List.length_cons]; omega
  | case2 x y rest h ih => rw [replaceChars, if_neg h]; simp only [List.length_cons] at ih ⊢; omega
  | case3 chars h => rw [replaceChars]; exact h

theorem mem_replaceChars {a b r c : Char} {chars : List Char} (ha : c ≠ a) (hb : c ≠ b)
    (h : c ∈ chars) : c ∈ replaceChars a b r chars := by
  induction chars using replaceChars.induct a b with
  | case1 x y rest hxy ih =>
    rw [replaceChars, if_pos hxy]
    obtain ⟨rfl, rfl⟩ := hxy
    have hrest : c ∈ rest := by simpa [ha, hb] using h
    exact List.mem_cons_of_mem _ (ih hrest)
  | case2 x y rest hxy ih =>
    rw [replaceChars, if_neg hxy]
    rcases List.mem_cons.mp h with rfl | hrest
    · exact List.mem_cons_self
    · exact List.mem_cons_of_mem _ (ih hrest)
  | case3 chars hshort => rwa [replaceChars]; exact hshort

theorem length_unescapeToken_le (token : String) :
    (unescapeToken token).toList.length ≤ token.toList.length := by
  rw [unescapeToken, String.toList_ofList]
  exact (length_replaceChars_le _ _ _ _).trans (length_replaceChars_le _ _ _ _)

theorem mem_unescapeToken {c : Char} {token : String} (hc : c ∉ ['~', '0', '1'])
    (h : c ∈ token.toList) : c ∈ (unescapeToken token).toList := by
  simp only [List.mem_cons, List.not_mem_nil, or_false, not_or] at hc
  rw [unescapeToken, String.toList_ofList]
  exact mem_replaceChars hc.1 hc.2.1 (mem_replaceChars hc.1 hc.2.2 h)

end CapabilityCompiler.Foundation.Text
