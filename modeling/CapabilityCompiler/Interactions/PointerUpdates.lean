import CapabilityCompiler.Foundation.Fallible
import CapabilityCompiler.Foundation.JsonPatch
import CapabilityCompiler.Interactions.ConditionEvaluation

/-! Writing and deleting at the pointers of the evaluator, and what they leave as it is. -/
namespace CapabilityCompiler.Interactions
open Foundation Json

/-! Updates. -/

/-- The child to go on with; where there is none, or only null, a new container is made for the next
token. -/
def childOf (next : String) : Option Json → Except ConditionError Json
  | some (.obj fields) => .ok (.obj fields)
  | some (.arr items) => .ok (.arr items)
  | none | some .null => .ok (if (Text.decimal? next).isSome then .arr [] else .obj [])
  | some _ => rejected "interaction field crosses a scalar value"

/-- The items, with enough of them that there is one at the index. -/
def paddedTo (index : ℕ) (items : List Json) : List Json :=
  items ++ List.replicate (index + 1 - items.length) .null

def writeTokens (value : Json) : Json → List String → Except ConditionError Json
  | target, [] => .ok target
  | .obj fields, [token] => .ok (.obj (Table.put token value fields))
  | .arr items, [token] =>
    match Text.decimal? token with
    | some numeral => do
      let index ← intOf token numeral
      .ok (.arr ((paddedTo index items).set index value))
    | none => rejected "interaction field target is not writable"
  | _, [_] => rejected "interaction field target is not writable"
  | .obj fields, token :: next :: rest => do
    let child ← childOf next (field? token fields)
    let written ← writeTokens value child (next :: rest)
    .ok (.obj (Table.put token written fields))
  | .arr items, token :: next :: rest =>
    match Text.decimal? token with
    | some numeral => do
      let index ← intOf token numeral
      let child ← childOf next items[index]?
      let written ← writeTokens value child (next :: rest)
      .ok (.arr ((paddedTo index items).set index written))
    | none => rejected "interaction field crosses a non-container value"
  | _, _ :: _ :: _ => rejected "interaction field crosses a non-container value"

def writePointer (target : Json) (pointer : String) (value : Json) : Except ConditionError Json := do
  writeTokens value target (← evaluatorTokens pointer)

/-- Items of a list become null. -/
def deleteTokens : Json → List String → Except ConditionError Json
  | target, [] => .ok target
  | .obj fields, [token] => .ok (.obj (Table.erase token fields))
  | .arr items, [token] =>
    match Text.decimal? token with
    | some numeral => do
      let index ← intOf token numeral
      .ok (.arr (items.set index .null))
    | none => .ok (.arr items)
  | .obj fields, token :: rest =>
    match field? token fields with
    | some child => do
      let remaining ← deleteTokens child rest
      .ok (.obj (Table.put token remaining fields))
    | none => .ok (.obj fields)
  | .arr items, token :: rest =>
    match Text.decimal? token with
    | some numeral => do
      let index ← intOf token numeral
      match items[index]? with
      | some child => do
        let remaining ← deleteTokens child rest
        .ok (.arr (items.set index remaining))
      | none => .ok (.arr items)
    | none => .ok (.arr items)
  | target, _ :: _ => .ok target

def deletePointer (target : Json) (pointer : String) : Except ConditionError Json := do
  deleteTokens target (← evaluatorTokens pointer)

/-! Places apart. -/

/-- The tokens part at two keys of which one at most is a position in a list. -/
def ApartTokens : List String → List String → Prop
  | a :: as, b :: bs =>
    if a = b then ApartTokens as bs
    else ¬ ((Text.decimal? a).isSome = true ∧ (Text.decimal? b).isSome = true)
  | _, _ => False

instance : (as bs : List String) → Decidable (ApartTokens as bs)
  | [], _ => .isFalse id
  | _ :: _, [] => .isFalse id
  | a :: as, b :: bs => by
    have := instDecidableApartTokens as bs
    unfold ApartTokens
    exact inferInstance

/-- Neither of two pointers leads to a value that has the other one in it. -/
def Apart (first second : String) : Prop :=
  ∃ as bs, evaluatorTokens first = .ok as ∧ evaluatorTokens second = .ok bs ∧ ApartTokens as bs

/-! What is apart is read as before. -/

theorem apartTokens_cons {a b : String} {as bs : List String} :
    ApartTokens (a :: as) (b :: bs) ↔ if a = b then ApartTokens as bs
      else ¬ ((Text.decimal? a).isSome = true ∧ (Text.decimal? b).isSome = true) := Iff.rfl

/-- What is read of a child that may be missing. -/
def readChild (tokens : List String) : Option Json → Except ConditionError (Option Json)
  | some child => readTokens child tokens
  | none => .ok none

theorem readTokens_obj (fields : Fields) (token : String) (rest : List String) :
    readTokens (.obj fields) (token :: rest) = readChild rest (field? token fields) := by
  rw [readTokens]
  cases field? token fields <;> rfl

theorem readTokens_arr {token : String} {numeral : ℕ} (h : Text.decimal? token = some numeral)
    (items : List Json) (rest : List String) : readTokens (.arr items) (token :: rest) =
      (intOf token numeral).bind fun index => readChild rest items[index]? := by
  rw [readTokens, h]
  simp only
  cases intOf token numeral with
  | error e => rfl
  | ok index =>
    simp only [bind, Except.bind]
    cases items[index]? <;> rfl

/-- A member with another key is as before. -/
theorem readTokens_put_of_ne {key other : String} (h : other ≠ key) (value : Json) (fields : Fields)
    (rest : List String) :
    readTokens (.obj (Table.put key value fields)) (other :: rest) =
      readTokens (.obj fields) (other :: rest) := by
  rw [readTokens_obj, readTokens_obj, field?_put, if_neg h]

theorem readTokens_erase_of_ne {key other : String} (h : other ≠ key) (fields : Fields)
    (rest : List String) :
    readTokens (.obj (Table.erase key fields)) (other :: rest) =
      readTokens (.obj fields) (other :: rest) := by
  rw [readTokens_obj, readTokens_obj, field?_eq, field?_eq, Table.get?_erase_of_ne h]

/-- A list has no members with keys. -/
theorem readTokens_arr_of_key {token : String} (h : Text.decimal? token = none) (items : List Json)
    (rest : List String) : readTokens (.arr items) (token :: rest) = .ok none := by
  rw [readTokens, h]

theorem length_paddedTo (index : ℕ) (items : List Json) :
    (paddedTo index items).length = max items.length (index + 1) := by
  rw [paddedTo, List.length_append, List.length_replicate]
  omega

theorem getElem?_set_paddedTo (index : ℕ) (items : List Json) (value : Json) :
    ((paddedTo index items).set index value)[index]? = some value := by
  rw [List.getElem?_set_self]
  rw [length_paddedTo]
  omega

section Frames
variable {value : Json}

/-- In a child that is made new, nothing is read that is apart from what is written. -/
theorem readTokens_childOf {next token : String} {rest others : List String} {found : Option Json}
    {child written : Json} (hapart : ApartTokens (next :: rest) (token :: others))
    (hchild : childOf next found = .ok child)
    (hwritten : writeTokens value child (next :: rest) = .ok written) :
    readTokens child (token :: others) = readChild (token :: others) found := by
  have hnew : found = none ∨ found = some .null →
      readTokens child (token :: others) = .ok none := by
    intro hfound
    have hmade : child = if (Text.decimal? next).isSome then .arr [] else .obj [] := by
      rcases hfound with rfl | rfl <;> exact (Except.ok.inj hchild).symm
    subst hmade
    cases hnext : Text.decimal? next with
    | none =>
      simp only [Option.isSome_none, Bool.false_eq_true, if_false]
      rfl
    | some numeral =>
      simp only [hnext, Option.isSome_some, if_true] at hwritten ⊢
      rw [apartTokens_cons] at hapart
      by_cases hsame : next = token
      · subst hsame
        rw [readTokens, hnext]
        have hindex : intOf next numeral = .ok numeral := by
          by_cases hlong : maxIntDigits < next.length
          · cases rest <;> simp [writeTokens, hnext, intOf_of_lt hlong, bind, Except.bind] at hwritten
          · exact intOf_of_le hlong
        simp [hindex, bind, Except.bind]
      · rw [if_neg hsame, hnext] at hapart
        refine readTokens_arr_of_key ?_ _ _
        simpa using hapart
  cases found with
  | none => exact hnew (.inl rfl)
  | some target =>
    cases target with
    | null => exact hnew (.inr rfl)
    | obj fields => rw [← Except.ok.inj hchild, readChild]
    | arr items => rw [← Except.ok.inj hchild, readChild]
    | _ => exact absurd hchild (by simp [childOf, rejected])

/-- A write leaves what is apart as it is. -/
theorem readTokens_write {written others : List String} {target result : Json}
    (hapart : ApartTokens written others)
    (hwrite : writeTokens value target written = .ok result) :
    readTokens result others = readTokens target others := by
  induction written generalizing target result others with
  | nil => exact absurd hapart (by cases others <;> exact id)
  | cons token rest ih =>
    cases others with
    | nil => exact absurd hapart id
    | cons other others =>
      rw [apartTokens_cons] at hapart
      cases rest with
      | nil =>
        by_cases hsame : token = other
        · rw [if_pos hsame] at hapart
          exact absurd hapart id
        · rw [if_neg hsame] at hapart
          cases target with
          | obj fields =>
            obtain rfl := Except.ok.inj hwrite
            exact readTokens_put_of_ne (Ne.symm hsame) value fields others
          | arr items =>
            cases htoken : Text.decimal? token with
            | none => exact absurd hwrite (by simp [writeTokens, htoken, rejected])
            | some numeral =>
              have hkey : Text.decimal? other = none := by simpa [htoken] using hapart
              simp only [writeTokens, htoken] at hwrite
              obtain ⟨index, -, hresult⟩ := exists_of_bind hwrite
              obtain rfl := Except.ok.inj hresult
              rw [readTokens_arr_of_key hkey, readTokens_arr_of_key hkey]
          | _ => exact absurd hwrite (by simp [writeTokens, rejected])
      | cons next rest =>
        cases target with
        | obj fields =>
          rw [writeTokens] at hwrite
          obtain ⟨child, hchild, hwrite⟩ := exists_of_bind hwrite
          obtain ⟨written, hwritten, hresult⟩ := exists_of_bind hwrite
          obtain rfl := Except.ok.inj hresult
          by_cases hsame : token = other
          · subst hsame
            rw [if_pos rfl] at hapart
            rw [readTokens_obj, readTokens_obj, field?_put, if_pos rfl, readChild,
              ih hapart hwritten]
            cases others with
            | nil => exact absurd hapart id
            | cons deeper others => exact readTokens_childOf hapart hchild hwritten
          · exact readTokens_put_of_ne (Ne.symm hsame) written fields others
        | arr items =>
          cases htoken : Text.decimal? token with
          | none => exact absurd hwrite (by simp [writeTokens, htoken, rejected])
          | some numeral =>
            simp only [writeTokens, htoken] at hwrite
            obtain ⟨index, hindex, hwrite⟩ := exists_of_bind hwrite
            obtain ⟨child, hchild, hwrite⟩ := exists_of_bind hwrite
            obtain ⟨written, hwritten, hresult⟩ := exists_of_bind hwrite
            obtain rfl := Except.ok.inj hresult
            by_cases hsame : token = other
            · subst hsame
              rw [if_pos rfl] at hapart
              rw [readTokens_arr htoken, readTokens_arr htoken, hindex]
              simp only [Except.bind]
              rw [getElem?_set_paddedTo, readChild, ih hapart hwritten]
              cases others with
              | nil => exact absurd hapart id
              | cons deeper others => exact readTokens_childOf hapart hchild hwritten
            · rw [if_neg hsame] at hapart
              have hkey : Text.decimal? other = none := by simpa [htoken] using hapart
              rw [readTokens_arr_of_key hkey, readTokens_arr_of_key hkey]
        | _ => exact absurd hwrite (by simp [writeTokens, rejected])

end Frames

theorem deleteTokens_obj (fields : Fields) (token next : String) (rest : List String) :
    deleteTokens (.obj fields) (token :: next :: rest) =
      match field? token fields with
      | some child => do
        let remaining ← deleteTokens child (next :: rest)
        .ok (.obj (Table.put token remaining fields))
      | none => .ok (.obj fields) := rfl

/-- So does a deletion. -/
theorem readTokens_delete {deleted others : List String} {target result : Json}
    (hapart : ApartTokens deleted others) (hdelete : deleteTokens target deleted = .ok result) :
    readTokens result others = readTokens target others := by
  induction deleted generalizing target result others with
  | nil => exact absurd hapart (by cases others <;> exact id)
  | cons token rest ih =>
    cases others with
    | nil => exact absurd hapart id
    | cons other others =>
      rw [apartTokens_cons] at hapart
      cases rest with
      | nil =>
        by_cases hsame : token = other
        · rw [if_pos hsame] at hapart
          exact absurd hapart id
        · rw [if_neg hsame] at hapart
          cases target with
          | obj fields =>
            obtain rfl := Except.ok.inj hdelete
            exact readTokens_erase_of_ne (Ne.symm hsame) fields others
          | arr items =>
            cases htoken : Text.decimal? token with
            | none =>
              simp only [deleteTokens, htoken] at hdelete
              obtain rfl := Except.ok.inj hdelete
              rfl
            | some numeral =>
              have hkey : Text.decimal? other = none := by simpa [htoken] using hapart
              simp only [deleteTokens, htoken] at hdelete
              obtain ⟨index, -, hresult⟩ := exists_of_bind hdelete
              obtain rfl := Except.ok.inj hresult
              rw [readTokens_arr_of_key hkey, readTokens_arr_of_key hkey]
          | _ =>
            obtain rfl := Except.ok.inj hdelete
            rfl
      | cons next rest =>
        cases target with
        | obj fields =>
          rw [deleteTokens_obj] at hdelete
          cases hfound : field? token fields with
          | none =>
            rw [hfound] at hdelete
            obtain rfl := Except.ok.inj hdelete
            rfl
          | some child =>
            rw [hfound] at hdelete
            obtain ⟨remaining, hremaining, hresult⟩ := exists_of_bind hdelete
            obtain rfl := Except.ok.inj hresult
            by_cases hsame : token = other
            · subst hsame
              rw [if_pos rfl] at hapart
              rw [readTokens_obj, readTokens_obj, field?_put, if_pos rfl, hfound, readChild, readChild,
                ih hapart hremaining]
            · exact readTokens_put_of_ne (Ne.symm hsame) remaining fields others
        | arr items =>
          cases htoken : Text.decimal? token with
          | none =>
            simp only [deleteTokens, htoken] at hdelete
            obtain rfl := Except.ok.inj hdelete
            rfl
          | some numeral =>
            simp only [deleteTokens, htoken] at hdelete
            obtain ⟨index, hindex, hdelete⟩ := exists_of_bind hdelete
            cases hfound : items[index]? with
            | none =>
              rw [hfound] at hdelete
              obtain rfl := Except.ok.inj hdelete
              rfl
            | some child =>
              rw [hfound] at hdelete
              obtain ⟨remaining, hremaining, hresult⟩ := exists_of_bind hdelete
              obtain rfl := Except.ok.inj hresult
              by_cases hsame : token = other
              · subst hsame
                rw [if_pos rfl] at hapart
                have hinside : index < items.length := (List.getElem?_eq_some_iff.mp hfound).1
                rw [readTokens_arr htoken, readTokens_arr htoken, hindex]
                simp only [Except.bind]
                rw [List.getElem?_set_self hinside, hfound, readChild, readChild,
                  ih hapart hremaining]
              · rw [if_neg hsame] at hapart
                have hkey : Text.decimal? other = none := by simpa [htoken] using hapart
                rw [readTokens_arr_of_key hkey, readTokens_arr_of_key hkey]
        | _ =>
          obtain rfl := Except.ok.inj hdelete
          rfl

/-! Pointers. -/

section Pointers
variable {pointer other : String} {target result : Json}

theorem readPointer_write {value : Json} (hapart : Apart pointer other)
    (hwrite : writePointer target pointer value = .ok result) :
    readPointer result other = readPointer target other := by
  obtain ⟨written, others, hwritten, hothers, hapart⟩ := hapart
  obtain ⟨tokens, htokens, hwrite⟩ := exists_of_bind hwrite
  obtain rfl := Except.ok.inj (hwritten.symm.trans htokens)
  simp only [readPointer, hothers]
  exact readTokens_write hapart hwrite

theorem readPointer_delete (hapart : Apart pointer other)
    (hdelete : deletePointer target pointer = .ok result) :
    readPointer result other = readPointer target other := by
  obtain ⟨deleted, others, hdeleted, hothers, hapart⟩ := hapart
  obtain ⟨tokens, htokens, hdelete⟩ := exists_of_bind hdelete
  obtain rfl := Except.ok.inj (hdeleted.symm.trans htokens)
  simp only [readPointer, hothers]
  exact readTokens_delete hapart hdelete

/-- No token is too long to be read as an index. -/
def Readable (pointer : String) : Prop :=
  ∃ tokens, evaluatorTokens pointer = .ok tokens ∧ ∀ token ∈ tokens, ¬ maxIntDigits < token.length

theorem exists_deleteTokens {tokens : List String}
    (hshort : ∀ token ∈ tokens, ¬ maxIntDigits < token.length) (target : Json) :
    ∃ result, deleteTokens target tokens = .ok result := by
  induction tokens generalizing target with
  | nil => exact ⟨target, by cases target <;> rfl⟩
  | cons token rest ih =>
    obtain ⟨htoken, hrest⟩ := List.forall_mem_cons.mp hshort
    cases rest with
    | nil =>
      cases target with
      | arr items =>
        cases hdecimal : Text.decimal? token with
        | none => exact ⟨.arr items, by simp only [deleteTokens, hdecimal]⟩
        | some numeral =>
          exact ⟨_, by simp only [deleteTokens, hdecimal, intOf_of_le htoken]; rfl⟩
      | _ => exact ⟨_, rfl⟩
    | cons next rest =>
      cases target with
      | obj fields =>
        rw [deleteTokens_obj]
        cases field? token fields with
        | none => exact ⟨_, rfl⟩
        | some child =>
          obtain ⟨remaining, hremaining⟩ := ih hrest child
          exact ⟨_, by simp only [hremaining]; rfl⟩
      | arr items =>
        cases hdecimal : Text.decimal? token with
        | none => exact ⟨.arr items, by simp only [deleteTokens, hdecimal]⟩
        | some numeral =>
          simp only [deleteTokens, hdecimal, intOf_of_le htoken]
          cases hitem : items[numeral]? with
          | none => exact ⟨.arr items, by simp only [bind, Except.bind, hitem]⟩
          | some child =>
            obtain ⟨remaining, hremaining⟩ := ih hrest child
            exact ⟨.arr (items.set numeral remaining), by
              simp only [bind, Except.bind, hitem, hremaining]⟩
      | _ => exact ⟨_, rfl⟩

theorem Readable.exists_delete (h : Readable pointer) (target : Json) :
    ∃ result, deletePointer target pointer = .ok result := by
  obtain ⟨tokens, htokens, hshort⟩ := h
  obtain ⟨result, hresult⟩ := exists_deleteTokens hshort target
  exact ⟨result, by simp only [deletePointer, htokens]; exact hresult⟩

end Pointers

end CapabilityCompiler.Interactions
