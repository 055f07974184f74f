import CapabilityCompiler.Foundation.JsonEquality
import CapabilityCompiler.Foundation.JsonPointer
import CapabilityCompiler.Foundation.Table

/-! Edits at the pointers of a document, one after the other. -/
namespace CapabilityCompiler.Foundation

namespace JsonPointer

theorem isDigit_iff {c : Char} : isDigit c = true ↔ c.isDigit = true := by
  have hzero : (48 : UInt32) ≤ c.val ↔ 48 ≤ c.toNat := UInt32.le_iff_toNat_le
  have hnine : c.val ≤ (57 : UInt32) ↔ c.toNat ≤ 57 := UInt32.le_iff_toNat_le
  rw [isDigit, Char.isDigit, Bool.and_eq_true, Bool.and_eq_true]
  simp only [decide_eq_true_eq]
  exact and_congr hzero.symm hnine.symm

theorem digits_append (chars : List Char) (c : Char) :
    digits (chars ++ [c]) = 10 * digits chars + (c.toNat - 48) := by
  rw [digits, digits, List.foldl_append]
  rfl

theorem digits_toDigits (n : ℕ) : digits (Nat.toDigits 10 n) = n :=
  Nat.ofDigitChars_ten_toDigits

/-- A numeral does not start with a zero, unless it is zero. -/
theorem head?_toDigits {n : ℕ} (hn : n ≠ 0) : (Nat.toDigits 10 n).head? ≠ some '0' := by
  induction n using Nat.strong_induction_on with
  | _ n ih =>
    by_cases hsmall : n < 10
    · rw [Nat.toDigits_of_lt_base hsmall]
      intro hhead
      have hdigit : n.digitChar = '0' := by simpa using hhead
      have hvalue := Nat.toNat_digitChar_sub_48_of_lt_ten hsmall
      rw [hdigit] at hvalue
      exact hn (by simpa using hvalue.symm)
    · have htens : n / 10 ≠ 0 := by omega
      have hhead := ih (n / 10) (by omega) htens
      rw [Nat.toDigits_of_base_le (by omega) (by omega), List.head?_append]
      cases hdigits : Nat.toDigits 10 (n / 10) with
      | nil => exact absurd hdigits Nat.toDigits_ne_nil
      | cons c rest =>
        rw [hdigits] at hhead
        exact hhead

theorem index?_repr (n : ℕ) : index? (toString n) = some n := by
  have hchars : (toString n).toList = Nat.toDigits 10 n := by
    rw [Nat.toString_eq_repr, Nat.toList_repr]
  have hvalue : digits (toString n).toList = n := by rw [hchars, digits_toDigits]
  have hindex : toString n = "0" ∨ toString n ≠ "" ∧ (toString n).toList.all isDigit ∧
      (toString n).toList.head? ≠ some '0' := by
    by_cases hn : n = 0
    · exact .inl (by rw [hn]; rfl)
    · refine .inr ⟨by rw [Nat.toString_eq_repr]; exact Nat.repr_ne_empty, ?_, ?_⟩
      · rw [hchars, List.all_eq_true]
        intro c hc
        exact isDigit_iff.mpr (Nat.isDigit_of_mem_toDigits (by omega) (by omega) hc)
      · rw [hchars]
        exact head?_toDigits hn
  rw [index?, if_pos hindex, hvalue]

theorem eq_of_toString {first second : ℕ} (h : toString first = toString second) :
    first = second := by
  have hindex := index?_repr first
  rw [h, index?_repr] at hindex
  exact (Option.some.inj hindex).symm

/-- Digits are the numeral of the number they denote, if the first one is not a zero. -/
theorem toDigits_digits {chars : List Char} (hne : chars ≠ []) (hdigits : ∀ c ∈ chars, isDigit c = true)
    (hhead : chars.head? ≠ some '0') : Nat.toDigits 10 (digits chars) = chars ∧ digits chars ≠ 0 := by
  induction chars using List.reverseRecOn with
  | nil => exact absurd rfl hne
  | append_singleton chars c ih =>
    have hc : isDigit c = true := hdigits c (by simp)
    rw [isDigit, Bool.and_eq_true, decide_eq_true_eq, decide_eq_true_eq] at hc
    have hlast : c.toNat - 48 < 10 := by omega
    have hchar : (c.toNat - 48).digitChar = c := by
      have hvalue := Nat.toNat_digitChar_of_lt_ten hlast
      have hsame : (c.toNat - 48).digitChar.toNat = c.toNat := by omega
      exact Char.toNat_inj.mp hsame
    rw [digits_append]
    by_cases hchars : chars = []
    · subst hchars
      have hzero : c.toNat - 48 ≠ 0 := by
        intro hzero
        rw [hzero] at hchar
        apply hhead
        rw [← hchar]
        rfl
      refine ⟨?_, by simpa [digits] using hzero⟩
      rw [show digits [] = 0 from rfl, Nat.mul_zero, Nat.zero_add, Nat.toDigits_of_lt_base hlast, hchar]
      rfl
    · have hfirst : chars.head? ≠ some '0' := by
        cases chars with
        | nil => exact absurd rfl hchars
        | cons d rest => exact hhead
      obtain ⟨hrest, hpos⟩ := ih hchars (fun d hd => hdigits d (by simp [hd])) hfirst
      refine ⟨?_, by omega⟩
      rw [← Nat.toDigits_append_toDigits (by omega) (by omega) hlast, hrest,
        Nat.toDigits_of_lt_base hlast, hchar]

/-- A token that denotes an index is the numeral of that index. -/
theorem eq_of_index? {token : String} {n : ℕ} (h : index? token = some n) : token = toString n := by
  unfold index? at h
  split_ifs at h with hindex
  obtain rfl := Option.some.inj h
  rcases hindex with rfl | ⟨hne, hall, hhead⟩
  · rfl
  · have hchars : token.toList ≠ [] := fun hnil => hne (String.toList_eq_nil_iff.mp hnil)
    have hdigits := (toDigits_digits hchars (List.all_eq_true.mp hall) hhead).1
    rw [← String.toList_inj, Nat.toString_eq_repr, Nat.toList_repr, hdigits]

theorem index?_inj {first second : String} {n : ℕ} (hfirst : index? first = some n)
    (hsecond : index? second = some n) : first = second :=
  (eq_of_index? hfirst).trans (eq_of_index? hsecond).symm

end JsonPointer

namespace Json

theorem field?_eq (key : String) (fields : Fields) : field? key fields = Table.get? key fields := by
  induction fields with
  | nil => rfl
  | cons p rest ih =>
    obtain ⟨k, v⟩ := p
    rw [field?_cons, Table.get?_cons, ih]

theorem field?_put (key other : String) (value : Json) (fields : Fields) :
    field? other (Table.put key value fields) = if other = key then some value else field? other fields := by
  rw [field?_eq, field?_eq, Table.get?_put]

theorem field?_erase (key other : String) (fields : Fields) :
    field? other (Table.erase key fields) = if other = key then none else field? other fields := by
  rw [field?_eq, field?_eq]
  split
  · rename_i hsame
    rw [hsame, Table.get?_erase_self]
  · rename_i hne
    exact Table.get?_erase_of_ne hne fields

end Json

namespace JsonPatch
open Json

/-- The member or the item that a token names. -/
def child? (token : String) : Json → Option Json
  | .obj fields => field? token fields
  | .arr items => (JsonPointer.index? token).bind fun index => items[index]?
  | _ => none

@[simp] theorem child?_obj (token : String) (fields : Fields) :
    child? token (.obj fields) = field? token fields := rfl

@[simp] theorem child?_toString (index : ℕ) (items : List Json) :
    child? (toString index) (.arr items) = items[index]? := by
  show (JsonPointer.index? _).bind _ = _
  rw [JsonPointer.index?_repr, Option.bind_some]

def setChild (token : String) (value : Json) : Json → Json
  | .obj fields => .obj (Table.put token value fields)
  | .arr items =>
    match JsonPointer.index? token with
    | some index => .arr (items.set index value)
    | none => .arr items
  | doc => doc

/-- The items behind a removed one move up. -/
def removeChild (token : String) : Json → Option Json
  | .obj fields =>
    if (field? token fields).isSome then some (.obj (Table.erase token fields)) else none
  | .arr items => (JsonPointer.index? token).bind fun index =>
    if index < items.length then some (.arr (items.eraseIdx index)) else none
  | _ => none

/-- An item is added before the one at its index, or at the end. -/
def addChild (token : String) (value : Json) : Json → Option Json
  | .obj fields => some (.obj (Table.put token value fields))
  | .arr items => (JsonPointer.index? token).bind fun index =>
    if index ≤ items.length then some (.arr (items.insertIdx index value)) else none
  | _ => none

inductive Edit where
  | remove
  | add (value : Json)
  | replace (value : Json)

/-- The document as a whole can only be replaced. -/
def Edit.applyAt : Edit → List String → Json → Option Json
  | .replace value, [], _ => some value
  | _, [], _ => none
  | .remove, [token], doc => removeChild token doc
  | .add value, [token], doc => addChild token value doc
  | edit, token :: rest, doc =>
    (child? token doc).bind fun child => (edit.applyAt rest child).map (setChild token · doc)

structure Operation where
  path : String
  edit : Edit

def Operation.apply (operation : Operation) (doc : Json) : Option Json :=
  (JsonPointer.tokens? operation.path).bind fun tokens => operation.edit.applyAt tokens doc

/-- Apply operations one after the other. -/
def patch : List Operation → Json → Option Json
  | [], doc => some doc
  | operation :: rest, doc => (operation.apply doc).bind (patch rest)

/-- A path of a child as a path of its container. -/
def childPath (token path : String) : String := "/" ++ Text.escapeToken token ++ path

def Operation.under (token : String) (operation : Operation) : Operation :=
  { operation with path := childPath token operation.path }

/-- Both are objects, or both are arrays of one length. -/
def SameShape : Json → Json → Prop
  | .obj _, .obj _ => True
  | .arr items, .arr others => items.length = others.length
  | _, _ => False

theorem SameShape.trans {a b c : Json} (hab : SameShape a b) (hbc : SameShape b c) :
    SameShape a c := by
  cases a <;> cases b <;> simp only [SameShape] at hab <;> cases c <;>
    simp only [SameShape] at hbc ⊢
  exact hab.trans hbc

theorem SameShape.symm {a b : Json} (h : SameShape a b) : SameShape b a := by
  cases a <;> cases b <;> first | exact h.elim | exact trivial | exact Eq.symm h

theorem SameShape.right {a b : Json} (h : SameShape a b) : SameShape b b := by
  cases b with
  | obj fields => exact trivial
  | arr items => exact rfl
  | _ => cases a <;> exact h.elim

theorem SameShape.refl_of_child? {token : String} {doc child : Json}
    (h : child? token doc = some child) : SameShape doc doc := by
  cases doc <;> simp [child?, SameShape] at h ⊢

/-- Induction with a hypothesis for each child. -/
theorem child_induction {motive : Json → Prop}
    (h : ∀ doc, (∀ token child, child? token doc = some child → motive child) → motive doc)
    (doc : Json) : motive doc := by
  induction doc with
  | arr items ih =>
    refine h _ fun token child hchild => ?_
    obtain ⟨index, -, hitem⟩ := Option.bind_eq_some_iff.mp hchild
    exact ih child (List.mem_of_getElem? hitem)
  | obj fields ih => exact h _ fun token child hchild => ih (token, child) (mem_of_field? hchild)
  | _ => exact h _ fun token child hchild => by simp [child?] at hchild

/-- Setting a child leaves the others. -/
theorem child?_setChild {token : String} {doc old : Json} (h : child? token doc = some old)
    (value : Json) : SameShape doc (setChild token value doc) ∧
      ∀ other, child? other (setChild token value doc) =
        if other = token then some value else child? other doc := by
  cases doc with
  | obj fields =>
    refine ⟨trivial, fun other => ?_⟩
    exact field?_put token other value fields
  | arr items =>
    simp only [child?] at h
    obtain ⟨index, hindex, hold⟩ := Option.bind_eq_some_iff.mp h
    have hlt : index < items.length := (List.getElem?_eq_some_iff.mp hold).1
    simp only [setChild, hindex]
    refine ⟨by simp [SameShape], fun other => ?_⟩
    show (JsonPointer.index? other).bind _ = if other = token then some value else
      (JsonPointer.index? other).bind _
    by_cases hother : other = token
    · rw [if_pos hother, hother, hindex, Option.bind_some, List.getElem?_set_self hlt]
    · rw [if_neg hother]
      cases hnumber : JsonPointer.index? other with
      | none => rfl
      | some number =>
        have hne : index ≠ number := by
          rintro rfl
          exact hother (JsonPointer.index?_inj hnumber hindex)
        rw [Option.bind_some, Option.bind_some, List.getElem?_set_ne hne]
  | _ => simp [child?] at h

/-- Below a token an edit acts on the child. -/
theorem applyAt_cons {edit : Edit} {token : String} {tokens : List String} {doc child edited : Json}
    (hchild : child? token doc = some child) (h : edit.applyAt tokens child = some edited) :
    edit.applyAt (token :: tokens) doc = some (setChild token edited doc) := by
  cases tokens with
  | nil =>
    cases edit with
    | replace value =>
      obtain rfl := Option.some.inj h
      simp [Edit.applyAt, hchild]
    | _ => simp [Edit.applyAt] at h
  | cons next rest =>
    have hstep : edit.applyAt (token :: next :: rest) doc = (child? token doc).bind fun child =>
        (edit.applyAt (next :: rest) child).map (setChild token · doc) := by
      cases edit <;> rfl
    rw [hstep, hchild, Option.bind_some, h, Option.map_some]

theorem decode_escapeChars (chars : List Char) :
    JsonPointer.decode (Text.escapeChars chars) = some chars := by
  induction chars using Text.escapeChars.induct with
  | case1 => rfl
  | case2 cs ih => simp [Text.escapeChars, JsonPointer.decode, ih]
  | case3 cs ih => simp [Text.escapeChars, JsonPointer.decode, ih]
  | case4 c cs htilde hslash ih =>
    have hescape : Text.escapeChars (c :: cs) = c :: Text.escapeChars cs := by
      rw [Text.escapeChars]
      · exact htilde
      · exact hslash
    have hdecode : JsonPointer.decode (c :: Text.escapeChars cs) =
        (JsonPointer.decode (Text.escapeChars cs)).map (c :: ·) := by
      rw [JsonPointer.decode] <;> simp_all
    rw [hescape, hdecode, ih]
    rfl

theorem not_mem_escapeChars (chars : List Char) : '/' ∉ Text.escapeChars chars := by
  induction chars using Text.escapeChars.induct with
  | case1 => simp [Text.escapeChars]
  | case2 cs ih => simpa [Text.escapeChars] using ih
  | case3 cs ih => simpa [Text.escapeChars] using ih
  | case4 c cs htilde hslash ih =>
    have hescape : Text.escapeChars (c :: cs) = c :: Text.escapeChars cs := by
      rw [Text.escapeChars]
      · exact htilde
      · exact hslash
    rw [hescape, List.mem_cons, not_or]
    exact ⟨fun hc => hslash hc.symm, ih⟩

theorem unescapeToken_escapeToken (token : String) :
    Text.unescapeToken (Text.escapeToken token) = token := by
  rw [Text.escapeToken, Text.unescapeToken, String.toList_ofList,
    JsonPointer.unescape_of_decode (decode_escapeChars token.toList), String.ofList_toList]

/-- The tokens below a child start with the child's. -/
theorem tokens?_childPath {path : String} {tokens : List String}
    (h : JsonPointer.tokens? path = some tokens) (token : String) :
    JsonPointer.tokens? (childPath token path) = some (token :: tokens) := by
  have hvalid : JsonPointer.escapesValid (Text.escapeChars token.toList) = true := by
    rw [← JsonPointer.isSome_decode, decode_escapeChars]
    rfl
  have hchars : (childPath token path).toList =
      '/' :: (Text.escapeChars token.toList ++ path.toList) := by
    simp [childPath, Text.escapeToken]
  have htoken : Text.unescapeToken (String.ofList (Text.escapeChars token.toList)) = token :=
    unescapeToken_escapeToken token
  have hparts : Text.splitChars '/' (Text.escapeChars token.toList) =
      [Text.escapeChars token.toList] := Text.splitChars_of_not_mem (not_mem_escapeChars _)
  unfold JsonPointer.tokens?
  rw [hchars]
  rcases JsonPointer.tokens?_eq_some h with ⟨rfl, rfl⟩ | ⟨rest, hrest, hall, rfl⟩
  · simp [hparts, hvalid, htoken]
  · rw [hrest]
    simp only [Text.splitChars_append, hparts, List.singleton_append, List.all_cons, hvalid, hall,
      Bool.and_self, if_true, List.map_cons, htoken]

theorem tokens?_child (token : String) :
    JsonPointer.tokens? (childPath token "") = some [token] :=
  tokens?_childPath rfl token

/-- An operation on a child is an operation on its container. -/
theorem apply_under {operation : Operation} {token : String} {doc child edited : Json}
    (hchild : child? token doc = some child) (h : operation.apply child = some edited) :
    (operation.under token).apply doc = some (setChild token edited doc) := by
  obtain ⟨tokens, htokens, hedit⟩ := Option.bind_eq_some_iff.mp h
  show (JsonPointer.tokens? (childPath token operation.path)).bind _ = _
  rw [tokens?_childPath htokens, Option.bind_some]
  exact applyAt_cons hchild hedit

theorem patch_append (operations others : List Operation) (doc : Json) :
    patch (operations ++ others) doc = (patch operations doc).bind (patch others) := by
  induction operations generalizing doc with
  | nil => rfl
  | cons operation rest ih =>
    rw [List.cons_append, patch, patch]
    cases operation.apply doc with
    | none => rfl
    | some edited => exact ih edited

/-- Operations on one child leave the others. -/
theorem patch_under {operations : List Operation} {token : String} {doc child edited : Json}
    (hchild : child? token doc = some child) (h : patch operations child = some edited) :
    ∃ result, patch (operations.map (Operation.under token)) doc = some result ∧
      SameShape doc result ∧
      ∀ other, child? other result = if other = token then some edited else child? other doc := by
  induction operations generalizing doc child with
  | nil =>
    obtain rfl := Option.some.inj h
    refine ⟨doc, rfl, SameShape.refl_of_child? hchild, fun other => ?_⟩
    split
    · rename_i hsame
      rw [hsame, hchild]
    · rfl
  | cons operation rest ih =>
    obtain ⟨next, hnext, hrest⟩ := Option.bind_eq_some_iff.mp h
    obtain ⟨hshape, hset⟩ := child?_setChild hchild next
    have hself : child? token (setChild token next doc) = some next := by rw [hset, if_pos rfl]
    obtain ⟨result, hresult, hkept, hothers⟩ := ih hself hrest
    refine ⟨result, ?_, hshape.trans hkept, fun other => ?_⟩
    · rw [List.map_cons, patch, apply_under hchild hnext]
      exact hresult
    · rw [hothers, hset]
      split <;> rfl

/-- Operations on several children: each is edited by its own, and the others are left. -/
theorem patch_children {operations : String → List Operation} {edited : String → Json}
    {tokens : List String} (hnodup : tokens.Nodup) {doc : Json} (hshape : SameShape doc doc)
    (h : ∀ token ∈ tokens, ∃ child, child? token doc = some child ∧
      patch (operations token) child = some (edited token)) :
    ∃ result, patch (tokens.flatMap fun token => (operations token).map (Operation.under token)) doc =
        some result ∧ SameShape doc result ∧
      ∀ other, child? other result = if other ∈ tokens then some (edited other) else child? other doc := by
  induction tokens generalizing doc with
  | nil => exact ⟨doc, rfl, hshape, fun other => by rw [if_neg List.not_mem_nil]⟩
  | cons token rest ih =>
    obtain ⟨hfresh, hrest⟩ := List.nodup_cons.mp hnodup
    obtain ⟨child, hchild, hpatch⟩ := h token List.mem_cons_self
    obtain ⟨next, hnext, hkept, hothers⟩ := patch_under hchild hpatch
    have hnextChildren : ∀ other ∈ rest, ∃ child, child? other next = some child ∧
        patch (operations other) child = some (edited other) := by
      intro other hother
      have hne : other ≠ token := fun hsame => hfresh (hsame ▸ hother)
      rw [hothers, if_neg hne]
      exact h other (List.mem_cons_of_mem _ hother)
    obtain ⟨result, hresult, hshared, hall⟩ := ih hrest hkept.right hnextChildren
    refine ⟨result, ?_, hkept.trans hshared, fun other => ?_⟩
    · rw [List.flatMap_cons, patch_append, hnext]
      exact hresult
    · rw [hall, hothers]
      by_cases hother : other = token
      · have hnot : other ∉ rest := hother ▸ hfresh
        rw [if_neg hnot, if_pos hother, if_pos (List.mem_cons.mpr (.inl hother)), hother]
      · simp [hother]

/-! Members and items that come and go. -/

theorem patch_removeMembers {tokens : List String} (hnodup : tokens.Nodup) {fields : Fields}
    (h : ∀ token ∈ tokens, (field? token fields).isSome = true) :
    ∃ others, patch (tokens.map fun token => ⟨childPath token "", .remove⟩) (.obj fields) =
        some (.obj others) ∧
      ∀ key, field? key others = if key ∈ tokens then none else field? key fields := by
  induction tokens generalizing fields with
  | nil => exact ⟨fields, rfl, fun key => by rw [if_neg List.not_mem_nil]⟩
  | cons token rest ih =>
    obtain ⟨hfresh, hrest⟩ := List.nodup_cons.mp hnodup
    have hpresent := h token List.mem_cons_self
    have hkept : ∀ other ∈ rest, (field? other (Table.erase token fields)).isSome = true := by
      intro other hother
      have hne : other ≠ token := fun hsame => hfresh (hsame ▸ hother)
      rw [field?_erase, if_neg hne]
      exact h other (List.mem_cons_of_mem _ hother)
    obtain ⟨others, hothers, hall⟩ := ih hrest hkept
    refine ⟨others, ?_, fun key => ?_⟩
    · have hstep : (Operation.mk (childPath token "") .remove).apply (.obj fields) =
          some (.obj (Table.erase token fields)) := by
        unfold Operation.apply
        rw [tokens?_child, Option.bind_some]
        exact if_pos hpresent
      rw [List.map_cons, patch, hstep]
      exact hothers
    · rw [hall, field?_erase]
      by_cases hkey : key = token <;> simp [hkey]

theorem patch_addMembers {entries : Fields} (hnodup : (entries.map Prod.fst).Nodup)
    (fields : Fields) :
    ∃ others, patch (entries.map fun entry => ⟨childPath entry.1 "", .add entry.2⟩) (.obj fields) =
        some (.obj others) ∧
      ∀ key, field? key others = (field? key entries).or (field? key fields) := by
  induction entries generalizing fields with
  | nil => exact ⟨fields, rfl, fun key => rfl⟩
  | cons entry rest ih =>
    obtain ⟨token, value⟩ := entry
    obtain ⟨hfresh, hrest⟩ := List.nodup_cons.mp hnodup
    obtain ⟨others, hothers, hall⟩ := ih hrest (Table.put token value fields)
    refine ⟨others, ?_, fun key => ?_⟩
    · have hstep : (Operation.mk (childPath token "") (.add value)).apply (.obj fields) =
          some (.obj (Table.put token value fields)) := by
        unfold Operation.apply
        rw [tokens?_child]
        rfl
      rw [List.map_cons, patch, hstep]
      exact hothers
    · rw [hall, field?_put, field?_cons]
      by_cases hkey : key = token
      · have hnone : field? key rest = none := by
          rw [hkey]
          exact field?_eq_none_iff.mpr hfresh
        rw [if_pos hkey, if_pos hkey.symm, hnone]
        rfl
      · rw [if_neg hkey, if_neg (Ne.symm hkey)]

/-- The last items are removed from the end. -/
theorem patch_removeItems {first : ℕ} (count : ℕ) {items : List Json}
    (h : items.length = first + count) :
    patch ((List.range' first count).reverse.map fun index =>
        ⟨childPath (toString index) "", .remove⟩) (.arr items) = some (.arr (items.take first)) := by
  induction count generalizing items with
  | zero => simp [patch, h]
  | succ count ih =>
    have hlast : items.eraseIdx (first + count) = items.take (first + count) := by
      rw [List.eraseIdx_eq_take_drop_succ, List.drop_eq_nil_of_le (by omega), List.append_nil]
    have hstep : (Operation.mk (childPath (toString (first + count)) "") .remove).apply (.arr items) =
        some (.arr (items.take (first + count))) := by
      unfold Operation.apply
      rw [tokens?_child, Option.bind_some]
      show (JsonPointer.index? _).bind _ = _
      rw [JsonPointer.index?_repr, Option.bind_some, if_pos (by omega), hlast]
    have hlength : (items.take (first + count)).length = first + count := by
      rw [List.length_take]
      omega
    have htake : (items.take (first + count)).take first = items.take first := by
      rw [List.take_take, Nat.min_eq_left (by omega)]
    rw [List.range'_1_concat, List.reverse_append, List.reverse_singleton, List.singleton_append,
      List.map_cons, patch, hstep, Option.bind_some, ih hlength, htake]

theorem patch_addItems {values items : List Json} {first : ℕ} (h : items.length = first) :
    patch ((values.zipIdx first).map fun entry =>
        ⟨childPath (toString entry.2) "", .add entry.1⟩) (.arr items) =
      some (.arr (items ++ values)) := by
  induction values generalizing items first with
  | nil => simp [patch]
  | cons value rest ih =>
    have hstep : (Operation.mk (childPath (toString first) "") (.add value)).apply (.arr items) =
        some (.arr (items ++ [value])) := by
      unfold Operation.apply
      rw [tokens?_child, Option.bind_some]
      show (JsonPointer.index? _).bind _ = _
      rw [JsonPointer.index?_repr, Option.bind_some, if_pos (by omega), ← h,
        List.insertIdx_length_self]
    have hlength : (items ++ [value]).length = first + 1 := by
      rw [List.length_append, h]
      rfl
    rw [List.zipIdx_cons, List.map_cons, patch, hstep, Option.bind_some, ih hlength,
      List.append_assoc]
    rfl

/-- Both are objects, or both are arrays. -/
def SameForm (first second : Json) : Prop :=
  (∃ fs gs, first = .obj fs ∧ second = .obj gs) ∨ ∃ xs ys, first = .arr xs ∧ second = .arr ys

theorem SameForm.symm {first second : Json} (h : SameForm first second) : SameForm second first := by
  rcases h with ⟨fs, gs, rfl, rfl⟩ | ⟨xs, ys, rfl, rfl⟩
  · exact .inl ⟨gs, fs, rfl, rfl⟩
  · exact .inr ⟨ys, xs, rfl, rfl⟩

theorem SameForm.trans {first second third : Json} (h : SameForm first second)
    (hnext : SameForm second third) : SameForm first third := by
  rcases h with ⟨fs, gs, rfl, rfl⟩ | ⟨xs, ys, rfl, rfl⟩
  · rcases hnext with ⟨others, hs, -, rfl⟩ | ⟨others, zs, hno, -⟩
    · exact .inl ⟨fs, hs, rfl, rfl⟩
    · simp at hno
  · rcases hnext with ⟨others, hs, hno, -⟩ | ⟨others, zs, -, rfl⟩
    · simp at hno
    · exact .inr ⟨xs, zs, rfl, rfl⟩

theorem SameShape.sameForm {first second : Json} (h : SameShape first second) :
    SameForm first second := by
  cases first with
  | obj fields =>
    cases second with
    | obj others => exact .inl ⟨fields, others, rfl, rfl⟩
    | _ => exact h.elim
  | arr items =>
    cases second with
    | arr others => exact .inr ⟨items, others, rfl, rfl⟩
    | _ => exact h.elim
  | _ => exact h.elim

/-- What equals a container is one of the same form. -/
theorem sameForm_of_eqWith {leaf : Json → Json → Bool} {first second third : Json}
    (h : eqWith leaf first second = true) (hform : SameForm second third) :
    SameForm first second := by
  rcases hform with ⟨fs, gs, rfl, rfl⟩ | ⟨xs, ys, rfl, rfl⟩
  · cases first with
    | obj fields => exact .inl ⟨fields, fs, rfl, rfl⟩
    | _ => simp [eqWith] at h
  · cases first with
    | arr items => exact .inr ⟨items, xs, rfl, rfl⟩
    | _ => simp [eqWith] at h

theorem sameShape_of_eqWith {leaf : Json → Json → Bool} {first second : Json}
    (h : eqWith leaf first second = true) (hform : SameForm first second) :
    SameShape first second := by
  rcases hform with ⟨fs, gs, rfl, rfl⟩ | ⟨xs, ys, rfl, rfl⟩
  · exact trivial
  · rw [eqWith, eqItems_iff] at h
    exact h.length_eq

/-- Containers of one form are equal when they have equal children. -/
theorem eqWith_iff_child? {leaf : Json → Json → Bool} {first second : Json}
    (h : SameForm first second) : eqWith leaf first second = true ↔ ∀ token,
      Option.Rel (fun x y => eqWith leaf x y = true) (child? token first) (child? token second) := by
  rcases h with ⟨fs, gs, rfl, rfl⟩ | ⟨xs, ys, rfl, rfl⟩
  · exact eqWith_obj_iff
  · rw [eqWith, eqItems_iff]
    constructor
    · intro hitems token
      rw [List.forall₂_iff_get] at hitems
      show Option.Rel _ ((JsonPointer.index? token).bind _) ((JsonPointer.index? token).bind _)
      cases JsonPointer.index? token with
      | none => exact .none
      | some index =>
        show Option.Rel _ xs[index]? ys[index]?
        by_cases hlt : index < xs.length
        · rw [List.getElem?_eq_getElem hlt, List.getElem?_eq_getElem (hitems.1 ▸ hlt)]
          exact .some (hitems.2 index hlt (hitems.1 ▸ hlt))
        · rw [List.getElem?_eq_none (by omega), List.getElem?_eq_none (by omega)]
          exact .none
    · intro hchildren
      have hitem : ∀ index : ℕ,
          Option.Rel (fun x y => eqWith leaf x y = true) xs[index]? ys[index]? := by
        intro index
        have hchild := hchildren (toString index)
        simp only [child?, JsonPointer.index?_repr, Option.bind_some] at hchild
        exact hchild
      have hlength : xs.length = ys.length := by
        have hforward := hitem xs.length
        have hbackward := hitem ys.length
        rw [List.getElem?_eq_none (Nat.le_refl xs.length)] at hforward
        rw [List.getElem?_eq_none (Nat.le_refl ys.length)] at hbackward
        have hys : ys[xs.length]? = none := by
          generalize ys[xs.length]? = y at hforward
          cases hforward
          rfl
        have hxs : xs[ys.length]? = none := by
          generalize xs[ys.length]? = x at hbackward
          cases hbackward
          rfl
        have hle := List.getElem?_eq_none_iff.mp hys
        have hge := List.getElem?_eq_none_iff.mp hxs
        omega
      rw [List.forall₂_iff_get]
      refine ⟨hlength, fun index hx hy => ?_⟩
      have hrel := hitem index
      rw [List.getElem?_eq_getElem hx, List.getElem?_eq_getElem hy] at hrel
      cases hrel with
      | some hequal => exact hequal

/-- Neither of two paths leads into what the other one leads to. -/
def Separate (first second : String) : Prop :=
  ∃ tokens others, JsonPointer.tokens? first = some tokens ∧
    JsonPointer.tokens? second = some others ∧ ¬ tokens <+: others ∧ ¬ others <+: tokens

theorem Separate.symm {first second : String} (h : Separate first second) :
    Separate second first := by
  obtain ⟨tokens, others, hfirst, hsecond, hnot, hnor⟩ := h
  exact ⟨others, tokens, hsecond, hfirst, hnor, hnot⟩

theorem Separate.child {first second : String} (h : Separate first second) (token : String) :
    Separate (childPath token first) (childPath token second) := by
  obtain ⟨tokens, others, hfirst, hsecond, hnot, hnor⟩ := h
  refine ⟨token :: tokens, token :: others, tokens?_childPath hfirst token,
    tokens?_childPath hsecond token, ?_, ?_⟩
  · rw [List.cons_prefix_cons]
    exact fun hpre => hnot hpre.2
  · rw [List.cons_prefix_cons]
    exact fun hpre => hnor hpre.2

/-- Paths into different children are separate. -/
theorem separate_of_ne {first second token other : String} (hne : token ≠ other)
    (hfirst : (JsonPointer.tokens? first).isSome = true)
    (hsecond : (JsonPointer.tokens? second).isSome = true) :
    Separate (childPath token first) (childPath other second) := by
  obtain ⟨tokens, htokens⟩ := Option.isSome_iff_exists.mp hfirst
  obtain ⟨others, hothers⟩ := Option.isSome_iff_exists.mp hsecond
  refine ⟨token :: tokens, other :: others, tokens?_childPath htokens token,
    tokens?_childPath hothers other, ?_, ?_⟩
  · rw [List.cons_prefix_cons]
    exact fun hpre => hne hpre.1
  · rw [List.cons_prefix_cons]
    exact fun hpre => hne hpre.1.symm

end JsonPatch
end CapabilityCompiler.Foundation
