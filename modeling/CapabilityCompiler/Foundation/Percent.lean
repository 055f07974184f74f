import Mathlib.Data.List.Basic
import Mathlib.Data.Nat.Notation

/-! Percent-encoding: a text is quoted byte by byte, and unquoting gives its bytes back. -/
namespace CapabilityCompiler.Foundation.Percent

def utf8 (chars : List Char) : List UInt8 := chars.flatMap String.utf8EncodeChar

/-- The characters quoting leaves alone: letters, digits and `_.-~`. -/
def unreserved (c : Char) : Bool :=
  let n := c.toNat
  (65 ≤ n && n ≤ 90) || (97 ≤ n && n ≤ 122) || (48 ≤ n && n ≤ 57) || c ∈ ['_', '.', '-', '~']

private def upperDigit (n : ℕ) : Char :=
  if n < 10 then Char.ofNat (48 + n) else Char.ofNat (55 + n)

def quoteByte (b : UInt8) : List Char :=
  let c := Char.ofNat b.toNat
  if unreserved c then [c] else ['%', upperDigit (b.toNat / 16), upperDigit (b.toNat % 16)]

/-- `quote(text, safe="")`. -/
def quote (chars : List Char) : List Char := (utf8 chars).flatMap quoteByte

/-- The value of a hexadecimal digit. -/
def hexValue? (c : Char) : Option ℕ :=
  if 48 ≤ c.toNat ∧ c.toNat ≤ 57 then some (c.toNat - 48)
  else if 65 ≤ c.toNat ∧ c.toNat ≤ 70 then some (c.toNat - 55)
  else if 97 ≤ c.toNat ∧ c.toNat ≤ 102 then some (c.toNat - 87)
  else none

/-- The byte that two hexadecimal digits name. -/
def hexPair? (a b : Char) : Option UInt8 :=
  match hexValue? a, hexValue? b with
  | some high, some low => some (UInt8.ofNat (16 * high + low))
  | _, _ => none

/-- The byte whose digits stand first in a text. -/
def escape? : List Char → Option UInt8
  | a :: b :: _ => hexPair? a b
  | _ => none

/-- `unquote_to_bytes`: a percent sign without two digits behind it stands for itself. -/
def unquote : List Char → List UInt8
  | c :: a :: b :: rest =>
    match if c = '%' then hexPair? a b else none with
    | some byte => byte :: unquote rest
    | none => String.utf8EncodeChar c ++ unquote (a :: b :: rest)
  | c :: rest => String.utf8EncodeChar c ++ unquote rest
  | [] => []

@[simp] theorem utf8_nil : utf8 [] = [] := rfl

@[simp] theorem utf8_cons (c : Char) (cs : List Char) :
    utf8 (c :: cs) = String.utf8EncodeChar c ++ utf8 cs := rfl

@[simp] theorem unquote_nil : unquote [] = [] := rfl

theorem unquote_cons_of_ne {c : Char} (h : c ≠ '%') (cs : List Char) :
    unquote (c :: cs) = String.utf8EncodeChar c ++ unquote cs := by
  match cs with
  | [] => rfl
  | [_] => rfl
  | _ :: _ :: _ => rw [unquote, if_neg h]

theorem unquote_escape {a b : Char} {byte : UInt8} (h : hexPair? a b = some byte)
    (cs : List Char) : unquote ('%' :: a :: b :: cs) = byte :: unquote cs := by
  rw [unquote, if_pos rfl, h]

theorem unquote_percent {cs : List Char} (h : escape? cs = none) :
    unquote ('%' :: cs) = 0x25 :: unquote cs := by
  match cs with
  | [] => rfl
  | [_] => rfl
  | a :: b :: rest =>
    rw [escape?] at h
    rw [unquote, if_pos rfl, h]
    rfl

/-- The pair that starts a text with an escape. -/
theorem escape?_eq_some {cs : List Char} {byte : UInt8} (h : escape? cs = some byte) :
    ∃ a b rest, cs = a :: b :: rest ∧ hexPair? a b = some byte := by
  match cs with
  | [] => cases h
  | [_] => cases h
  | a :: b :: rest => exact ⟨a, b, rest, rfl, h⟩

theorem hexPair?_eq_some {a b : Char} {byte : UInt8} (h : hexPair? a b = some byte) :
    hexValue? a ≠ none ∧ hexValue? b ≠ none := by
  unfold hexPair? at h
  cases ha : hexValue? a with
  | none => simp [ha] at h
  | some high =>
    cases hb : hexValue? b with
    | none => simp [ha, hb] at h
    | some low => simp

/-- A digit is one byte, and not the percent sign. -/
theorem digit_plain {c : Char} (h : hexValue? c ≠ none) :
    c ≠ '%' ∧ c.toNat < 128 := by
  have hbound : (48 ≤ c.toNat ∧ c.toNat ≤ 57) ∨ (65 ≤ c.toNat ∧ c.toNat ≤ 70) ∨
      (97 ≤ c.toNat ∧ c.toNat ≤ 102) := by
    unfold hexValue? at h
    split_ifs at h with h₁ h₂ h₃
    · exact .inl h₁
    · exact .inr (.inl h₂)
    · exact .inr (.inr h₃)
    · exact absurd rfl h
  refine ⟨?_, by omega⟩
  rintro rfl
  have : ('%' : Char).toNat = 37 := rfl
  omega

theorem utf8EncodeChar_ascii {c : Char} (h : c.toNat < 128) :
    String.utf8EncodeChar c = [UInt8.ofNat c.toNat] := by
  have hval : c.val.toNat ≤ 127 := Nat.lt_succ_iff.mp h
  unfold String.utf8EncodeChar
  simp only [if_pos hval]
  rfl

private theorem hexValue?_upperDigit {n : ℕ} (h : n < 16) :
    hexValue? (upperDigit n) = some n := by
  have hall : ∀ m < 16, hexValue? (upperDigit m) = some m := by decide
  exact hall n h

private theorem hexPair?_upperDigit (b : UInt8) :
    hexPair? (upperDigit (b.toNat / 16)) (upperDigit (b.toNat % 16)) = some b := by
  have hb : b.toNat < 256 := b.toNat_lt
  rw [hexPair?, hexValue?_upperDigit (by omega), hexValue?_upperDigit (by omega)]
  simp only
  rw [Nat.div_add_mod, UInt8.ofNat_toNat]

private theorem toNat_ofNat_byte (b : UInt8) : (Char.ofNat b.toNat).toNat = b.toNat := by
  have hb : b.toNat < 256 := b.toNat_lt
  rw [Char.ofNat, dif_pos (by simp only [Nat.isValidChar]; omega)]
  rfl

theorem unreserved_ascii {c : Char} (h : unreserved c = true) : c.toNat < 128 ∧ c ≠ '%' := by
  refine ⟨?_, by rintro rfl; revert h; decide⟩
  simp only [unreserved, Bool.or_eq_true, Bool.and_eq_true, decide_eq_true_eq, List.mem_cons,
    List.not_mem_nil, or_false] at h
  rcases h with ((h | h) | h) | rfl | rfl | rfl | rfl
  · omega
  · omega
  · omega
  all_goals decide

theorem unquote_quoteByte (b : UInt8) (cs : List Char) :
    unquote (quoteByte b ++ cs) = b :: unquote cs := by
  unfold quoteByte
  simp only
  split_ifs with hplain
  · obtain ⟨hascii, hpercent⟩ := unreserved_ascii hplain
    rw [List.singleton_append, unquote_cons_of_ne hpercent, utf8EncodeChar_ascii hascii,
      toNat_ofNat_byte, UInt8.ofNat_toNat, List.singleton_append]
  · exact unquote_escape (hexPair?_upperDigit b) cs

/-- What follows a quoted text is read on its own. -/
theorem unquote_quote_append (chars cs : List Char) :
    unquote (quote chars ++ cs) = utf8 chars ++ unquote cs := by
  unfold quote
  induction utf8 chars with
  | nil => rfl
  | cons b bytes ih =>
    rw [List.flatMap_cons, List.append_assoc, unquote_quoteByte, ih, List.cons_append]

theorem unquote_quote (chars : List Char) : unquote (quote chars) = utf8 chars := by
  have h := unquote_quote_append chars []
  rwa [List.append_nil, unquote_nil, List.append_nil] at h

theorem upperDigit_unreserved {n : ℕ} (h : n < 16) : unreserved (upperDigit n) = true := by
  have hall : ∀ m < 16, unreserved (upperDigit m) = true := by decide
  exact hall n h

/-- The alphabet of quoted texts. -/
theorem plain_of_mem_quote {c : Char} {chars : List Char} (h : c ∈ quote chars) :
    c = '%' ∨ unreserved c = true := by
  obtain ⟨b, -, hb⟩ := List.mem_flatMap.mp h
  have hlt : b.toNat < 256 := b.toNat_lt
  unfold quoteByte at hb
  simp only at hb
  split_ifs at hb with hplain
  · exact .inr (List.mem_singleton.mp hb ▸ hplain)
  · simp only [List.mem_cons, List.not_mem_nil, or_false] at hb
    rcases hb with rfl | rfl | rfl
    · exact .inl rfl
    · exact .inr (upperDigit_unreserved (by omega))
    · exact .inr (upperDigit_unreserved (by omega))

theorem not_mem_quote {c : Char} (hpercent : c ≠ '%') (h : unreserved c = false)
    (chars : List Char) : c ∉ quote chars := by
  intro hmem
  rcases plain_of_mem_quote hmem with rfl | hplain
  · exact hpercent rfl
  · rw [h] at hplain
    cases hplain

@[simp] theorem utf8_eq_nil {chars : List Char} : utf8 chars = [] ↔ chars = [] := by
  cases chars with
  | nil => simp
  | cons c cs => simp [String.utf8EncodeChar_ne_nil]

theorem utf8_injective {xs ys : List Char} (h : utf8 xs = utf8 ys) : xs = ys := by
  have hbytes : (String.ofList xs).toByteArray = (String.ofList ys).toByteArray :=
    congrArg List.toByteArray h
  have hstring : String.ofList xs = String.ofList ys := String.toByteArray_inj.mp hbytes
  simpa using congrArg String.toList hstring

end CapabilityCompiler.Foundation.Percent
