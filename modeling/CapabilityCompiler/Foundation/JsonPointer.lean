import CapabilityCompiler.Foundation.Json
import CapabilityCompiler.Foundation.Text

/-! JSON Pointers as RFC 6901 defines them: their syntax, their tokens and their array indices. -/
namespace CapabilityCompiler.Foundation.JsonPointer

/-- Every tilde stands before a zero or a one. -/
def escapesValid : List Char → Bool
  | '~' :: '0' :: rest => escapesValid rest
  | '~' :: '1' :: rest => escapesValid rest
  | '~' :: _ => false
  | _ :: rest => escapesValid rest
  | [] => true

/-- Decode a reference token in one pass. -/
def decode : List Char → Option (List Char)
  | '~' :: '0' :: rest => (decode rest).map ('~' :: ·)
  | '~' :: '1' :: rest => (decode rest).map ('/' :: ·)
  | '~' :: _ => none
  | c :: rest => (decode rest).map (c :: ·)
  | [] => some []

theorem isSome_decode (chars : List Char) : (decode chars).isSome = escapesValid chars := by
  induction chars using escapesValid.induct with
  | case1 rest ih => simp [decode, escapesValid, ih]
  | case2 rest ih => simp [decode, escapesValid, ih]
  | case3 rest h0 h1 => rw [decode, escapesValid] <;> simp_all
  | case4 c rest h0 h1 htilde ih => rw [decode, escapesValid] <;> simp_all
  | case5 => rfl

theorem replaceChars_cons_of_ne {a b r c : Char} (h : c ≠ a) (chars : List Char) :
    Text.replaceChars a b r (c :: chars) = c :: Text.replaceChars a b r chars := by
  cases chars with
  | nil => simp [Text.replaceChars]
  | cons d rest => rw [Text.replaceChars, if_neg (fun hc => h hc.1)]

/-- Decoding in one pass is replacing the one escape and then the other. -/
theorem unescape_of_decode {chars decoded : List Char} (h : decode chars = some decoded) :
    Text.replaceChars '~' '0' '~' (Text.replaceChars '~' '1' '/' chars) = decoded := by
  induction chars using decode.induct generalizing decoded with
  | case1 rest ih =>
    rw [decode] at h
    obtain ⟨others, hothers, rfl⟩ := Option.map_eq_some_iff.mp h
    have hinner : Text.replaceChars '~' '1' '/' ('~' :: '0' :: rest) =
        '~' :: '0' :: Text.replaceChars '~' '1' '/' rest := by
      rw [Text.replaceChars, if_neg (by decide), replaceChars_cons_of_ne (by decide)]
    rw [hinner, Text.replaceChars, if_pos (by decide), ih hothers]
  | case2 rest ih =>
    rw [decode] at h
    obtain ⟨others, hothers, rfl⟩ := Option.map_eq_some_iff.mp h
    rw [Text.replaceChars, if_pos (by decide), replaceChars_cons_of_ne (by decide), ih hothers]
  | case3 rest h0 h1 =>
    rw [decode] at h
    · exact absurd h (by simp)
    · exact h0
    · exact h1
  | case4 c rest h0 h1 htilde ih =>
    rw [decode] at h
    · obtain ⟨others, hothers, rfl⟩ := Option.map_eq_some_iff.mp h
      rw [replaceChars_cons_of_ne htilde, replaceChars_cons_of_ne htilde, ih hothers]
    · exact h0
    · exact h1
    · exact htilde
  | case5 =>
    obtain rfl := Option.some.inj h
    rfl

theorem decode_eq_some {chars : List Char} (h : escapesValid chars = true) :
    decode chars = some (Text.unescapeToken (String.ofList chars)).toList := by
  rw [← isSome_decode] at h
  obtain ⟨decoded, hdecoded⟩ := Option.isSome_iff_exists.mp h
  rw [hdecoded, Text.unescapeToken, String.toList_ofList, String.toList_ofList,
    unescape_of_decode hdecoded]

/-- The reference tokens of a syntactically valid pointer. -/
def tokens? (pointer : String) : Option (List String) :=
  match pointer.toList with
  | [] => some []
  | '/' :: rest =>
    let raw := Text.splitChars '/' rest
    if raw.all escapesValid then
      some (raw.map fun token => Text.unescapeToken (String.ofList token))
    else none
  | _ => none

theorem tokens?_eq_some {pointer : String} {tokens : List String}
    (h : tokens? pointer = some tokens) : pointer = "" ∧ tokens = [] ∨
      ∃ rest, pointer.toList = '/' :: rest ∧
        (Text.splitChars '/' rest).all escapesValid = true ∧
        tokens = (Text.splitChars '/' rest).map fun token =>
          Text.unescapeToken (String.ofList token) := by
  unfold tokens? at h
  split at h
  · rename_i hempty
    exact .inl ⟨String.toList_eq_nil_iff.mp hempty, (Option.some.inj h).symm⟩
  · rename_i rest hrest
    simp only at h
    split_ifs at h with hvalid
    exact .inr ⟨rest, hrest, hvalid, (Option.some.inj h).symm⟩
  · exact absurd h (by simp)

def isDigit (c : Char) : Bool := 48 ≤ c.toNat && c.toNat ≤ 57

def digits (chars : List Char) : ℕ := chars.foldl (fun n c => 10 * n + (c.toNat - 48)) 0

/-- The array index that a reference token denotes: a zero, or digits that do not start with one. -/
def index? (token : String) : Option ℕ :=
  if token = "0" ∨ token ≠ "" ∧ token.toList.all isDigit ∧ token.toList.head? ≠ some '0' then
    some (digits token.toList)
  else none

theorem decimalDigit?_of_isDigit {c : Char} (h : isDigit c = true) :
    Text.decimalDigit? c = some (c.toNat - 48) := by
  rw [isDigit, Bool.and_eq_true, decide_eq_true_eq, decide_eq_true_eq] at h
  have hfirst : (decide (48 ≤ c.toNat) && decide (c.toNat < 48 + 10)) = true := by
    rw [Bool.and_eq_true, decide_eq_true_eq, decide_eq_true_eq]
    omega
  have hzero : Text.decimalZeros.find? (fun first => first ≤ c.toNat && c.toNat < first + 10) =
      some 48 := by
    rw [Text.decimalZeros]
    exact List.find?_cons_of_pos hfirst
  rw [Text.decimalDigit?, hzero]
  rfl

theorem foldl_decimalDigit? {chars : List Char} (h : chars.all isDigit = true) (n : ℕ) :
    chars.foldl (fun acc c => acc.bind fun n => (Text.decimalDigit? c).map (10 * n + ·)) (some n) =
      some (chars.foldl (fun n c => 10 * n + (c.toNat - 48)) n) := by
  induction chars generalizing n with
  | nil => rfl
  | cons c rest ih =>
    rw [List.all_cons, Bool.and_eq_true] at h
    rw [List.foldl_cons, List.foldl_cons, Option.bind_some, decimalDigit?_of_isDigit h.1,
      Option.map_some]
    exact ih h.2 _

/-- An array index is a decimal numeral. -/
theorem decimal?_of_index? {token : String} {index : ℕ} (h : index? token = some index) :
    Text.decimal? token = some index := by
  unfold index? at h
  split_ifs at h with hindex
  obtain rfl := Option.some.inj h
  have hdigits : token ≠ "" ∧ token.toList.all isDigit = true := by
    rcases hindex with rfl | ⟨hne, hall, -⟩
    · decide
    · exact ⟨hne, hall⟩
  rw [Text.decimal?, if_neg hdigits.1]
  exact foldl_decimalDigit? hdigits.2 0

end CapabilityCompiler.Foundation.JsonPointer
