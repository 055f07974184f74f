import CapabilityCompiler.Actions.GuaranteedPointers
import CapabilityCompiler.Foundation.JsonPointer

/-! The JSON Pointer resolvers of the HTTP provider, the executor of actions, the authentication
strategies and the fidelity check, against RFC 6901. -/

namespace CapabilityCompiler.Providers
open Foundation Compiler

/-- The decoded parts; `none` where an invalid escape raises. -/
def parseJsonPointer (pointer : String) : Option (List String) :=
  ((Text.splitChars '/' pointer.toList).tail.mapM JsonPointer.decode).map (·.map String.ofList)

def resolveJsonPointer (value : Json) (pointer : String) : Option (Option Json) :=
  (parseJsonPointer pointer).map (valueAt Text.decimal? value)

end CapabilityCompiler.Providers

namespace CapabilityCompiler.Auth
open Foundation Compiler

/-- A list index of more than one character does not start with a zero. -/
def listIndex? (token : String) : Option ℕ :=
  if (Text.decimal? token).isNone || (decide (token.length > 1) && Text.hasPrefix "0" token) then
    none
  else Text.decimal? token

def pointerValue (document : Json) (pointer : String) : Option Json :=
  valueAt listIndex? document ((Text.splitChars '/' pointer.toList).tail.map fun token =>
    Text.unescapeToken (String.ofList token))

end CapabilityCompiler.Auth

namespace CapabilityCompiler.Contracts
open Foundation Compiler

def fidelityTokens (pointer : String) : List String :=
  if pointer = "" then []
  else (Text.splitChars '/' (pointer.toList.drop 1)).map fun token =>
    Text.unescapeToken (String.ofList token)

def resolvePointer (document : Json) (pointer : String) : Option Json :=
  valueAt Text.decimal? document (fidelityTokens pointer)

end CapabilityCompiler.Contracts

namespace CapabilityCompiler.Actions
open Foundation Compiler

/-- The value that RFC 6901 finds at a syntactically valid pointer. -/
def evaluatePointer (document : Json) (pointer : String) : Option Json :=
  (JsonPointer.tokens? pointer).bind (valueAt JsonPointer.index? document)

/-- All resolvers find what RFC 6901 finds. -/
structure ResolversAgree (document : Json) (pointer : String) : Prop where
  http : Providers.resolveJsonPointer document pointer = some (evaluatePointer document pointer)
  action : resolveJsonPointer document pointer = evaluatePointer document pointer
  auth : Auth.pointerValue document pointer = evaluatePointer document pointer
  fidelity : Contracts.resolvePointer document pointer = evaluatePointer document pointer

/-- On the way that RFC 6901 goes, an array has an item at a decimal numeral that is no array index,
and something is found below that item. -/
inductive Misread : Json → List String → Prop where
  | entered {items : List Json} {token : String} {rest : List String} {index : ℕ} {item v : Json} :
      Text.decimal? token = some index → JsonPointer.index? token = none →
      items[index]? = some item → valueAt Text.decimal? item rest = some v →
      Misread (.arr items) (token :: rest)
  | item {items : List Json} {token : String} {rest : List String} {index : ℕ} {item : Json} :
      JsonPointer.index? token = some index → items[index]? = some item → Misread item rest →
      Misread (.arr items) (token :: rest)
  | member {fields : Fields} {token : String} {rest : List String} {child : Json} :
      Json.field? token fields = some child → Misread child rest →
      Misread (.obj fields) (token :: rest)

/-! The tokens. -/

section Tokens
variable {pointer : String} {tokens : List String}

theorem tail_of_tokens? (h : JsonPointer.tokens? pointer = some tokens) :
    ((Text.splitChars '/' pointer.toList).tail.all JsonPointer.escapesValid = true) ∧
      (Text.splitChars '/' pointer.toList).tail.map
        (fun token => Text.unescapeToken (String.ofList token)) = tokens := by
  rcases JsonPointer.tokens?_eq_some h with ⟨rfl, rfl⟩ | ⟨rest, hrest, hvalid, rfl⟩
  · exact ⟨rfl, rfl⟩
  · rw [hrest]
    exact ⟨hvalid, rfl⟩

theorem parseJsonPointer_of_tokens? (h : JsonPointer.tokens? pointer = some tokens) :
    Providers.parseJsonPointer pointer = some tokens := by
  obtain ⟨hvalid, rfl⟩ := tail_of_tokens? h
  unfold Providers.parseJsonPointer
  generalize (Text.splitChars '/' pointer.toList).tail = raw at hvalid ⊢
  have hdecoded : raw.mapM JsonPointer.decode =
      some (raw.map fun token => (Text.unescapeToken (String.ofList token)).toList) := by
    induction raw with
    | nil => rfl
    | cons token rest ih =>
      rw [List.all_cons, Bool.and_eq_true] at hvalid
      rw [List.mapM_cons, JsonPointer.decode_eq_some hvalid.1, ih hvalid.2]
      rfl
  rw [hdecoded, Option.map_some, List.map_map]
  simp

theorem fidelityTokens_of_tokens? (h : JsonPointer.tokens? pointer = some tokens) :
    Contracts.fidelityTokens pointer = tokens := by
  unfold Contracts.fidelityTokens
  rcases JsonPointer.tokens?_eq_some h with ⟨rfl, rfl⟩ | ⟨rest, hrest, -, rfl⟩
  · rfl
  · have hne : pointer ≠ "" := by
      rintro rfl
      exact absurd hrest (by simp)
    rw [if_neg hne, hrest]
    rfl

end Tokens

/-! The readings of an array index. -/

section Walks
variable {read other : String → Option ℕ} {document v : Json} {tokens : List String}

/-- Whoever reads more indices finds at least the same values. -/
theorem valueAt_mono (hread : ∀ token index, read token = some index → other token = some index)
    (h : valueAt read document tokens = some v) : valueAt other document tokens = some v := by
  induction tokens generalizing document with
  | nil => cases document <;> exact h
  | cons token rest ih =>
    cases document with
    | obj fields =>
      obtain ⟨child, hchild, hrest⟩ := Option.bind_eq_some_iff.mp h
      rw [valueAt, hchild]
      exact ih hrest
    | arr items =>
      obtain ⟨index, hindex, hitem⟩ := Option.bind_eq_some_iff.mp h
      obtain ⟨item, hfound, hrest⟩ := Option.bind_eq_some_iff.mp hitem
      rw [valueAt, hread token index hindex, Option.bind_some, hfound]
      exact ih hrest
    | _ => exact absurd h (by simp [valueAt])

theorem arrayIndex?_of_index? {token : String} {index : ℕ}
    (h : JsonPointer.index? token = some index) : arrayIndex? token = some index := by
  rw [arrayIndex?, JsonPointer.decimal?_of_index? h, if_neg]
  rintro ⟨hlong, hzero⟩
  unfold JsonPointer.index? at h
  split_ifs at h with hindex
  rcases hindex with rfl | ⟨-, -, hhead⟩
  · exact absurd hlong (by decide)
  · rw [Text.hasPrefix, List.isPrefixOf_iff_prefix] at hzero
    obtain ⟨rest, hrest⟩ := hzero
    exact hhead (by rw [← hrest]; rfl)

theorem decimal?_of_arrayIndex? {token : String} {index : ℕ} (h : arrayIndex? token = some index) :
    Text.decimal? token = some index := by
  unfold arrayIndex? at h
  split_ifs at h with hzero
  exact h

theorem listIndex?_eq : Auth.listIndex? = arrayIndex? := by
  funext token
  unfold Auth.listIndex? arrayIndex?
  cases hdecimal : Text.decimal? token with
  | none => simp
  | some index => simp

/-- Without a misread index, whatever a decimal numeral leads to is found by RFC 6901. -/
theorem valueAt_index?_of_not_misread (h : ¬ Misread document tokens)
    (hfound : valueAt Text.decimal? document tokens = some v) :
    valueAt JsonPointer.index? document tokens = some v := by
  induction tokens generalizing document with
  | nil => cases document <;> exact hfound
  | cons token rest ih =>
    cases document with
    | obj fields =>
      obtain ⟨child, hchild, hrest⟩ := Option.bind_eq_some_iff.mp hfound
      rw [valueAt, hchild]
      exact ih (fun hmisread => h (.member hchild hmisread)) hrest
    | arr items =>
      obtain ⟨index, hindex, hitem⟩ := Option.bind_eq_some_iff.mp hfound
      obtain ⟨item, hentered, hrest⟩ := Option.bind_eq_some_iff.mp hitem
      cases hread : JsonPointer.index? token with
      | none => exact absurd (.entered hindex hread hentered hrest) h
      | some read =>
        obtain rfl : read = index :=
          Option.some.inj ((JsonPointer.decimal?_of_index? hread).symm.trans hindex)
        rw [valueAt, hread, Option.bind_some, hentered]
        exact ih (fun hmisread => h (.item hread hentered hmisread)) hrest
    | _ => exact absurd hfound (by simp [valueAt])

/-- Where an index is misread, something is found that RFC 6901 does not find. -/
theorem Misread.found (h : Misread document tokens) :
    (∃ v, valueAt Text.decimal? document tokens = some v) ∧
      valueAt JsonPointer.index? document tokens = none := by
  induction h with
  | entered hindex hread hentered hrest =>
    refine ⟨⟨_, by rw [valueAt, hindex, Option.bind_some, hentered, Option.bind_some, hrest]⟩, ?_⟩
    rw [valueAt, hread, Option.bind_none]
  | item hread hentered _ ih =>
    obtain ⟨⟨v, hv⟩, hnone⟩ := ih
    constructor
    · exact ⟨v, by rw [valueAt, JsonPointer.decimal?_of_index? hread, Option.bind_some, hentered,
        Option.bind_some, hv]⟩
    · rw [valueAt, hread, Option.bind_some, hentered, Option.bind_some, hnone]
  | member hchild _ ih =>
    obtain ⟨⟨v, hv⟩, hnone⟩ := ih
    constructor
    · exact ⟨v, by rw [valueAt, hchild, Option.bind_some, hv]⟩
    · rw [valueAt, hchild, Option.bind_some, hnone]

/-- A document in which a numeral that is no array index is misread. -/
def misreading : List String → String → ℕ → List String → Json
  | [], _, index, rest => .arr (List.replicate (index + 1) (nested rest))
  | part :: before, token, index, rest => .obj [(part, misreading before token index rest)]
where
  /-- Objects down to a null at the path. -/
  nested : List String → Json
    | [] => .null
    | token :: rest => .obj [(token, nested rest)]

theorem valueAt_nested (tokens : List String) :
    valueAt read (misreading.nested tokens) tokens = some .null := by
  induction tokens with
  | nil => rfl
  | cons token rest ih => simpa [misreading.nested, valueAt] using ih

theorem misread_misreading {before rest : List String} {token : String} {index : ℕ}
    (hindex : Text.decimal? token = some index) (hread : JsonPointer.index? token = none) :
    Misread (misreading before token index rest) (before ++ token :: rest) := by
  induction before with
  | nil =>
    refine .entered hindex hread ?_ (valueAt_nested rest)
    rw [List.getElem?_replicate, if_pos (Nat.lt_succ_self index)]
  | cons part before ih => exact .member (by simp) ih

/-- Only a pointer with a numeral that is no array index is misread. -/
theorem Misread.numeral (h : Misread document tokens) :
    ∃ token ∈ tokens, (Text.decimal? token).isSome = true ∧ JsonPointer.index? token = none := by
  induction h with
  | entered hindex hread => exact ⟨_, List.mem_cons_self, by rw [hindex]; rfl, hread⟩
  | item _ _ _ ih =>
    obtain ⟨token, htoken, hnumeral⟩ := ih
    exact ⟨token, List.mem_cons_of_mem _ htoken, hnumeral⟩
  | member _ _ ih =>
    obtain ⟨token, htoken, hnumeral⟩ := ih
    exact ⟨token, List.mem_cons_of_mem _ htoken, hnumeral⟩

end Walks

/-! Agreement. -/

/-- On a valid pointer each resolver walks along its tokens. -/
theorem resolversAgree_iff {pointer : String} {tokens : List String}
    (h : JsonPointer.tokens? pointer = some tokens) (document : Json) :
    ResolversAgree document pointer ↔
      valueAt Text.decimal? document tokens = valueAt JsonPointer.index? document tokens ∧
        valueAt arrayIndex? document tokens = valueAt JsonPointer.index? document tokens := by
  have htail := (tail_of_tokens? h).2
  have hexpected : evaluatePointer document pointer =
      valueAt JsonPointer.index? document tokens := by
    rw [evaluatePointer, h, Option.bind_some]
  have hhttp : Providers.resolveJsonPointer document pointer =
      some (valueAt Text.decimal? document tokens) := by
    rw [Providers.resolveJsonPointer, parseJsonPointer_of_tokens? h, Option.map_some]
  have haction : resolveJsonPointer document pointer = valueAt arrayIndex? document tokens := by
    rw [resolveJsonPointer, runtimeTokens, htail, resolveTokens_eq_valueAt]
  have hauth : Auth.pointerValue document pointer = valueAt arrayIndex? document tokens := by
    rw [Auth.pointerValue, htail, listIndex?_eq]
  have hfidelity : Contracts.resolvePointer document pointer =
      valueAt Text.decimal? document tokens := by
    rw [Contracts.resolvePointer, fidelityTokens_of_tokens? h]
  constructor
  · rintro ⟨hhttp', haction', -, -⟩
    rw [hhttp, hexpected] at hhttp'
    rw [haction, hexpected] at haction'
    exact ⟨Option.some.inj hhttp', haction'⟩
  · rintro ⟨hdecimal, harray⟩
    exact ⟨by rw [hhttp, hexpected, hdecimal], by rw [haction, hexpected, harray],
      by rw [hauth, hexpected, harray], by rw [hfidelity, hexpected, hdecimal]⟩

/-- The walks of the resolvers agree exactly where no index is misread. -/
theorem walks_agree_iff (document : Json) (tokens : List String) :
    (valueAt Text.decimal? document tokens = valueAt JsonPointer.index? document tokens ∧
        valueAt arrayIndex? document tokens = valueAt JsonPointer.index? document tokens) ↔
      ¬ Misread document tokens := by
  constructor
  · rintro ⟨hdecimal, -⟩ hmisread
    obtain ⟨⟨v, hv⟩, hnone⟩ := hmisread.found
    exact absurd (hv.symm.trans (hdecimal.trans hnone)) (by simp)
  · intro hread
    cases hfound : valueAt Text.decimal? document tokens with
    | some v =>
      have hindex := valueAt_index?_of_not_misread hread hfound
      refine ⟨hindex.symm, ?_⟩
      rw [hindex]
      exact valueAt_mono (fun token index => arrayIndex?_of_index?) hindex
    | none =>
      -- What the stricter readings find would be found by the numerals as well.
      have hnone : ∀ read : String → Option ℕ,
          (∀ token index, read token = some index → Text.decimal? token = some index) →
          valueAt read document tokens = none := by
        intro read hsub
        by_contra hsome
        obtain ⟨v, hv⟩ := Option.ne_none_iff_exists'.mp hsome
        exact absurd (hfound.symm.trans (valueAt_mono hsub hv)) (by simp)
      rw [hnone _ fun token index => JsonPointer.decimal?_of_index?,
        hnone _ fun token index => decimal?_of_arrayIndex?]
      exact ⟨rfl, rfl⟩

end CapabilityCompiler.Actions
