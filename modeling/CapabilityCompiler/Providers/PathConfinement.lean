import CapabilityCompiler.Providers.HttpOperation

/-! What a request may address: the path of its URL against the template of the operation.
Values are confined when each segment keeps its literals, holds each value where its placeholder
stood and is read back, by percent-decoding, as literals and values. -/
namespace CapabilityCompiler.Providers
open Foundation Foundation.Percent Foundation.Template Models

/-- Neither a query nor a fragment starts here. -/
def inPath (c : Char) : Bool := c ≠ '?' ∧ c ≠ '#'

def partInPath : Part → Bool
  | .text c => inPath c
  | .slot _ => true

/-- The parts of a path up to its query or fragment. -/
def template (path : List Char) : List Part := (pathParts path).takeWhile partInPath

/-- The path of a URL below its base. -/
def urlPath (baseUrl url : List Char) : List Char := (url.drop baseUrl.length).takeWhile inPath

/-- The parts between slashes. -/
def segments : List Part → List (List Part)
  | [] => [[]]
  | part :: parts =>
    if part = .text '/' then [] :: segments parts
    else match segments parts with
      | [] => [[part]]
      | first :: rest => (part :: first) :: rest

/-- A text holds the literals in their places, and at each placeholder a portion that decodes to
its value. -/
inductive Carries (values : Bindings) : List Part → List Char → Prop where
  | nil : Carries values [] []
  | text {c : Char} {parts : List Part} {chars : List Char} (rest : Carries values parts chars) :
      Carries values (.text c :: parts) (c :: chars)
  | slot {name value portion : List Char} {parts : List Part} {chars : List Char}
      (bound : values.lookup name = some value) (portion_decodes : unquote portion = utf8 value)
      (rest : Carries values parts chars) :
      Carries values (.slot name :: parts) (portion ++ chars)

/-- The byte of an escape that literals alone spell. -/
def literalEscape? : List Part → Option UInt8
  | .text a :: .text b :: _ => hexPair? a b
  | _ => none

/-- The literals decoded, with the values in their places. -/
def decoded (values : Bindings) : List Part → List UInt8
  | .text c :: .text a :: .text b :: rest =>
    match if c = '%' then hexPair? a b else none with
    | some byte => byte :: decoded values rest
    | none => String.utf8EncodeChar c ++ decoded values (.text a :: .text b :: rest)
  | .text c :: rest => String.utf8EncodeChar c ++ decoded values rest
  | .slot name :: rest => utf8 ((values.lookup name).getD []) ++ decoded values rest
  | [] => []

/-- What an empty, `.` or `..` segment decodes to. -/
def traversals : List (List UInt8) := [[], [0x2e], [0x2e, 0x2e]]

structure SegmentConfined (values : Bindings) (segment : List Part) (chars : List Char) : Prop where
  carried : Carries values segment chars
  decodes : unquote chars = decoded values segment
  proper : (∃ name, .slot name ∈ segment) → unquote chars ∉ traversals

/-- A path has the segments of its template, each confined. -/
def Confined (values : Bindings) (parts : List Part) (path : List Char) : Prop :=
  List.Forall₂ (SegmentConfined values) (segments parts) (Text.splitChars '/' path)

/-- The values as they are put into the path. -/
def quoted (values : Bindings) : Bindings := values.map fun value => (value.1, quote value.2)

/-- All values of a segment are empty, and its literals alone are no segment to stay in. -/
def Hollow (values : Bindings) (segment : List Part) : Prop :=
  (∃ name, .slot name ∈ segment) ∧
    (∀ name, .slot name ∈ segment → values.lookup name = some []) ∧
    decoded values segment ∈ traversals

/-- A percent sign of the template, left without its two digits, is given them by what is filled
in behind it. -/
def Completes (values : Bindings) (segment : List Part) : Prop :=
  ∃ rest, (.text '%' :: rest) <:+ segment ∧ literalEscape? rest = none ∧
    escape? (flatten (fill (quoted values) rest)) ≠ none

/-- The condition under which values stay where the template puts them. -/
structure StaysInPlace (values : Bindings) (parts : List Part) : Prop where
  spelled : ¬ Respelled (quoted values) parts
  filled : ∀ segment ∈ segments parts, ¬ Hollow values segment
  literal : ∀ segment ∈ segments parts, ¬ Completes values segment

/-- The texts of the placeholders, in the order of the mapping. -/
def pathValues (printer : Printer) (arguments : Fields) (operation : ExecutableOperation) :
    Except RuntimeError Bindings :=
  operation.http.pathParameters.mapM (HttpProvider.pathValue printer arguments operation)

section segment
variable {values : Bindings} {segment : List Part}

/-- Every placeholder of a segment has a value. -/
def Bound (values : Bindings) (parts : List Part) : Prop :=
  ∀ name, .slot name ∈ parts → ∃ value, values.lookup name = some value

theorem Bound.tail {part : Part} {parts : List Part} (h : Bound values (part :: parts)) :
    Bound values parts := fun name hname => h name (List.mem_cons_of_mem _ hname)

theorem mem_of_lookup {name value : List Char} (h : values.lookup name = some value) :
    (name, value) ∈ values := by
  obtain ⟨before, after, rfl, -⟩ := List.lookup_eq_some_iff.mp h
  simp

theorem lookup_quoted (name : List Char) :
    (quoted values).lookup name = (values.lookup name).map quote := by
  induction values with
  | nil => rfl
  | cons value values ih =>
    obtain ⟨key, text⟩ := value
    simp only [quoted, List.map_cons, List.lookup_cons] at ih ⊢
    split
    · rfl
    · exact ih

theorem flatten_fill_text (c : Char) (parts : List Part) :
    flatten (fill (quoted values) (.text c :: parts)) =
      c :: flatten (fill (quoted values) parts) := rfl

theorem flatten_fill_slot {name value : List Char} (h : values.lookup name = some value)
    (parts : List Part) :
    flatten (fill (quoted values) (.slot name :: parts)) =
      quote value ++ flatten (fill (quoted values) parts) := by
  rw [fill_cons, Part.filled, lookup_quoted, h]
  simp

theorem carries_fill (h : Bound values segment) :
    Carries values segment (flatten (fill (quoted values) segment)) := by
  induction segment with
  | nil => exact .nil
  | cons part parts ih =>
    cases part with
    | text c => exact .text (ih h.tail)
    | slot name =>
      obtain ⟨value, hvalue⟩ := h name List.mem_cons_self
      rw [flatten_fill_slot hvalue]
      exact .slot hvalue (unquote_quote value) (ih h.tail)

theorem decoded_text_of_ne {c : Char} (h : c ≠ '%') (parts : List Part) :
    decoded values (.text c :: parts) = String.utf8EncodeChar c ++ decoded values parts := by
  match parts with
  | [] => rfl
  | [.text _] => rfl
  | .slot _ :: _ => rfl
  | .text _ :: .slot _ :: _ => rfl
  | .text _ :: .text _ :: _ => rw [decoded, if_neg h]

theorem decoded_percent (parts : List Part) (h : literalEscape? parts = none) :
    decoded values (.text '%' :: parts) = 0x25 :: decoded values parts := by
  match parts with
  | [] => rfl
  | [.text _] => rfl
  | .slot _ :: _ => rfl
  | .text _ :: .slot _ :: _ => rfl
  | .text a :: .text b :: rest =>
    rw [literalEscape?] at h
    rw [decoded, if_pos rfl, h]
    rfl

theorem literalEscape?_eq_some {parts : List Part} {byte : UInt8}
    (h : literalEscape? parts = some byte) :
    ∃ a b rest, parts = .text a :: .text b :: rest ∧ hexPair? a b = some byte := by
  match parts with
  | [] => cases h
  | [.text _] => cases h
  | .slot _ :: _ => cases h
  | .text _ :: .slot _ :: _ => cases h
  | .text a :: .text b :: rest => exact ⟨a, b, rest, rfl, h⟩

theorem completes_cons_iff {part : Part} {parts : List Part} :
    Completes values (part :: parts) ↔
      (part = .text '%' ∧ literalEscape? parts = none ∧
        escape? (flatten (fill (quoted values) parts)) ≠ none) ∨ Completes values parts := by
  constructor
  · rintro ⟨rest, hsuffix, hliteral, hescape⟩
    rcases List.suffix_cons_iff.mp hsuffix with heq | hsuffix
    · obtain ⟨rfl, rfl⟩ := List.cons.inj heq
      exact .inl ⟨rfl, hliteral, hescape⟩
    · exact .inr ⟨rest, hsuffix, hliteral, hescape⟩
  · rintro (⟨rfl, hliteral, hescape⟩ | ⟨rest, hsuffix, hliteral, hescape⟩)
    · exact ⟨parts, List.suffix_refl _, hliteral, hescape⟩
    · exact ⟨rest, hsuffix.trans (List.suffix_cons _ _), hliteral, hescape⟩

theorem completes_cons_of_ne {part : Part} (h : part ≠ .text '%') {parts : List Part} :
    Completes values (part :: parts) ↔ Completes values parts := by
  rw [completes_cons_iff]
  exact or_iff_right fun hp => h hp.1

/-- What filling a segment does to what it decodes to. -/
structure Reads (values : Bindings) (segment : List Part) : Prop where
  length_le : (unquote (flatten (fill (quoted values) segment))).length ≤
    (decoded values segment).length
  length_lt : Completes values segment →
    (unquote (flatten (fill (quoted values) segment))).length < (decoded values segment).length
  decodes : ¬ Completes values segment →
    unquote (flatten (fill (quoted values) segment)) = decoded values segment

/-- The same bytes in front of both readings. -/
theorem Reads.of_append (front : List UInt8) {parts : List Part} (h : Reads values parts)
    (hread : unquote (flatten (fill (quoted values) segment)) =
      front ++ unquote (flatten (fill (quoted values) parts)))
    (hdecoded : decoded values segment = front ++ decoded values parts)
    (hcompletes : Completes values segment ↔ Completes values parts) : Reads values segment := by
  refine ⟨?_, fun hc => ?_, fun hc => ?_⟩
  · rw [hread, hdecoded, List.length_append, List.length_append]
    exact Nat.add_le_add_left h.length_le _
  · rw [hread, hdecoded, List.length_append, List.length_append]
    exact Nat.add_lt_add_left (h.length_lt (hcompletes.mp hc)) _
  · rw [hread, hdecoded, h.decodes (fun hp => hc (hcompletes.mpr hp))]

/-- A percent sign that finds its digits behind it takes them from the reading. -/
theorem Reads.of_escape {parts : List Part} {byte : UInt8} (h : Reads values parts)
    (hliteral : literalEscape? parts = none)
    (hescape : escape? (flatten (fill (quoted values) parts)) = some byte) :
    Reads values (.text '%' :: parts) := by
  have hcompletes : Completes values (.text '%' :: parts) :=
    completes_cons_iff.mpr (.inl ⟨rfl, hliteral, by simp [hescape]⟩)
  obtain ⟨a, b, rest, hchars, hpair⟩ := escape?_eq_some hescape
  obtain ⟨hadigit, hbdigit⟩ := hexPair?_eq_some hpair
  obtain ⟨hane, haascii⟩ := digit_plain hadigit
  obtain ⟨hbne, hbascii⟩ := digit_plain hbdigit
  have hrest : (unquote (flatten (fill (quoted values) parts))).length =
      (unquote rest).length + 2 := by
    rw [hchars, unquote_cons_of_ne hane, unquote_cons_of_ne hbne, utf8EncodeChar_ascii haascii,
      utf8EncodeChar_ascii hbascii]
    simp
  have hlt : (unquote (flatten (fill (quoted values) (.text '%' :: parts)))).length <
      (decoded values (.text '%' :: parts)).length := by
    have hle := h.length_le
    rw [flatten_fill_text, hchars, unquote_escape hpair, decoded_percent parts hliteral,
      List.length_cons, List.length_cons]
    omega
  exact ⟨hlt.le, fun _ => hlt, fun hc => absurd hcompletes hc⟩

theorem reads (h : Bound values segment) : Reads values segment := by
  induction hlength : segment.length using Nat.strong_induction_on generalizing segment with
  | _ n ih =>
  match segment, hlength with
  | [], _ =>
    refine ⟨le_refl _, ?_, fun _ => rfl⟩
    rintro ⟨rest, hsuffix, -⟩
    cases List.suffix_nil.mp hsuffix
  | .slot name :: parts, hlength =>
    have hshort : parts.length < n := by simp only [List.length_cons] at hlength; omega
    obtain ⟨value, hvalue⟩ := h name List.mem_cons_self
    refine (ih _ hshort h.tail rfl).of_append (utf8 value) ?_ ?_
      (completes_cons_of_ne (by simp))
    · rw [flatten_fill_slot hvalue, unquote_quote_append]
    · rw [decoded, hvalue, Option.getD_some]
  | .text c :: parts, hlength =>
    have hshort : parts.length < n := by simp only [List.length_cons] at hlength; omega
    have hparts := ih _ hshort h.tail rfl
    by_cases hc : c = '%'
    · subst hc
      cases hliteral : literalEscape? parts with
      | none =>
        cases hescape : escape? (flatten (fill (quoted values) parts)) with
        | none =>
          refine hparts.of_append [0x25] ?_ (decoded_percent parts hliteral) ?_
          · rw [flatten_fill_text, unquote_percent hescape]
            rfl
          · rw [completes_cons_iff]
            exact or_iff_right fun hp => hp.2.2 hescape
        | some byte => exact hparts.of_escape hliteral hescape
      | some byte =>
        -- The template's own escape: both readings take its digits.
        obtain ⟨a, b, rest, rfl, hpair⟩ := literalEscape?_eq_some hliteral
        obtain ⟨hadigit, hbdigit⟩ := hexPair?_eq_some hpair
        have hane : Part.text a ≠ .text '%' := by simpa using (digit_plain hadigit).1
        have hbne : Part.text b ≠ .text '%' := by simpa using (digit_plain hbdigit).1
        have hrest : rest.length < n := by simp only [List.length_cons] at hlength; omega
        refine (ih _ hrest h.tail.tail.tail rfl).of_append [byte] ?_ ?_ ?_
        · rw [flatten_fill_text, flatten_fill_text, flatten_fill_text, unquote_escape hpair]
          rfl
        · rw [decoded, if_pos rfl, hpair]
          rfl
        · rw [completes_cons_iff, completes_cons_of_ne hane, completes_cons_of_ne hbne]
          exact or_iff_right fun hp => by simp [hliteral] at hp
    · refine hparts.of_append (String.utf8EncodeChar c) ?_ (decoded_text_of_ne hc parts)
        (completes_cons_of_ne (by simpa using hc))
      rw [flatten_fill_text, unquote_cons_of_ne hc]

theorem infix_decoded {name value : List Char} (hslot : .slot name ∈ segment)
    (hvalue : values.lookup name = some value) : utf8 value <:+: decoded values segment := by
  induction hlength : segment.length using Nat.strong_induction_on generalizing segment with
  | _ n ih =>
  match segment, hlength with
  | [], _ => cases hslot
  | .slot other :: parts, hlength =>
    have hshort : parts.length < n := by simp only [List.length_cons] at hlength; omega
    rw [decoded]
    rcases List.mem_cons.mp hslot with hsame | hmem
    · obtain rfl := Part.slot.inj hsame
      rw [hvalue, Option.getD_some]
      exact (List.prefix_append _ _).isInfix
    · exact (ih _ hshort hmem rfl).trans (List.suffix_append _ _).isInfix
  | .text c :: parts, hlength =>
    have hshort : parts.length < n := by simp only [List.length_cons] at hlength; omega
    have hmem : .slot name ∈ parts := (List.mem_cons.mp hslot).resolve_left (by simp)
    have hparts := ih _ hshort hmem rfl
    by_cases hc : c = '%'
    · subst hc
      cases hliteral : literalEscape? parts with
      | none =>
        rw [decoded_percent parts hliteral]
        exact hparts.trans (List.suffix_cons _ _).isInfix
      | some byte =>
        obtain ⟨a, b, rest, rfl, hpair⟩ := literalEscape?_eq_some hliteral
        have hrest : rest.length < n := by simp only [List.length_cons] at hlength; omega
        have hmem : .slot name ∈ rest := by simpa using hmem
        rw [decoded, if_pos rfl, hpair]
        exact (ih _ hrest hmem rfl).trans (List.suffix_cons _ _).isInfix
    · rw [decoded_text_of_ne hc]
      exact hparts.trans (List.suffix_append _ _).isInfix

/-- No value that is refused nowhere reads as one of the traversals. -/
theorem value_of_infix_traversal {value : List Char} {bytes : List UInt8}
    (hdot : value ≠ ['.']) (hdots : value ≠ ['.', '.']) (h : utf8 value <:+: bytes)
    (hbytes : bytes ∈ traversals) : value = [] := by
  by_contra hne
  have hbytesne : utf8 value ≠ [] := by simpa using hne
  have hone : utf8 ['.'] = [0x2e] := by decide
  have htwo : utf8 ['.', '.'] = [0x2e, 0x2e] := by decide
  simp only [traversals, List.mem_cons, List.not_mem_nil, or_false] at hbytes
  obtain ⟨before, after, heq⟩ := h
  obtain ⟨first, rest, hfirst⟩ := List.exists_cons_of_ne_nil hbytesne
  rw [hfirst] at heq
  rcases hbytes with rfl | rfl | rfl
  · simp at heq
  · have hvalue : utf8 value = utf8 ['.'] := by
      rw [hfirst, hone]
      cases before <;> simp_all
    exact hdot (utf8_injective hvalue)
  · have hvalue : utf8 value = utf8 ['.'] ∨ utf8 value = utf8 ['.', '.'] := by
      rw [hfirst, hone, htwo]
      match before, rest, heq with
      | [], [], heq => simp_all
      | [], [second], heq => simp_all
      | [], _ :: _ :: _, heq => simp_all
      | [_], [], heq => simp_all
      | [_], _ :: _, heq => simp_all
      | _ :: _ :: _, _, heq => simp_all
    exact hvalue.elim (fun h => hdot (utf8_injective h)) (fun h => hdots (utf8_injective h))

/-- A segment whose placeholders were filled in their places is confined unless it is hollow or
completes an escape. -/
theorem segmentConfined_iff (hbound : Bound values segment)
    (hvalues : ∀ name value, values.lookup name = some value →
      value ≠ ['.'] ∧ value ≠ ['.', '.']) :
    SegmentConfined values segment (flatten (fill (quoted values) segment)) ↔
      ¬ Hollow values segment ∧ ¬ Completes values segment := by
  have hreads := reads hbound
  constructor
  · intro h
    constructor
    · rintro ⟨hslot, -, htraversal⟩
      rw [← h.decodes] at htraversal
      exact h.proper hslot htraversal
    · intro hcompletes
      have hlt := hreads.length_lt hcompletes
      rw [h.decodes] at hlt
      exact absurd hlt (lt_irrefl _)
  · rintro ⟨hhollow, hcompletes⟩
    have hdecodes := hreads.decodes hcompletes
    refine ⟨carries_fill hbound, hdecodes, fun hslot htraversal => ?_⟩
    rw [hdecodes] at htraversal
    refine hhollow ⟨hslot, fun name hname => ?_, htraversal⟩
    obtain ⟨value, hvalue⟩ := hbound name hname
    obtain ⟨hdot, hdots⟩ := hvalues name value hvalue
    rw [hvalue, value_of_infix_traversal hdot hdots (infix_decoded hname hvalue) htraversal]

end segment

section path
variable {values : Bindings} {parts : List Part}

theorem exists_segments (parts : List Part) : ∃ first rest, segments parts = first :: rest := by
  induction parts with
  | nil => exact ⟨[], [], rfl⟩
  | cons part parts ih =>
    obtain ⟨first, rest, hsegments⟩ := ih
    by_cases hslash : part = .text '/'
    · exact ⟨[], segments parts, by rw [segments, if_pos hslash]⟩
    · exact ⟨part :: first, rest, by rw [segments, if_neg hslash, hsegments]⟩

theorem segments_slash (parts : List Part) :
    segments (.text '/' :: parts) = [] :: segments parts := by
  rw [segments, if_pos rfl]

theorem segments_cons {part : Part} (h : part ≠ .text '/') {first : List Part}
    {rest : List (List Part)} (hsegments : segments parts = first :: rest) :
    segments (part :: parts) = (part :: first) :: rest := by
  rw [segments, if_neg h, hsegments]

theorem splitChars_append_of_not_mem {sep : Char} {front chars part : List Char}
    {rest : List (List Char)} (h : sep ∉ front)
    (hsplit : Text.splitChars sep chars = part :: rest) :
    Text.splitChars sep (front ++ chars) = (front ++ part) :: rest := by
  induction front with
  | nil => exact hsplit
  | cons c cs ih =>
    have hc : c ≠ sep := fun heq => h (heq ▸ List.mem_cons_self)
    have hcs : sep ∉ cs := fun hmem => h (List.mem_cons_of_mem _ hmem)
    rw [List.cons_append, Text.splitChars, if_neg hc, ih hcs]
    rfl

/-- The segments of a filled path are the filled segments. -/
theorem splitChars_fill (h : Bound values parts) :
    Text.splitChars '/' (flatten (fill (quoted values) parts)) =
      (segments parts).map fun segment => flatten (fill (quoted values) segment) := by
  induction parts with
  | nil => rfl
  | cons part parts ih =>
    have hparts := ih h.tail
    obtain ⟨first, rest, hsegments⟩ := exists_segments parts
    rw [hsegments, List.map_cons] at hparts
    cases part with
    | text c =>
      by_cases hc : c = '/'
      · subst hc
        rw [segments_slash, hsegments, flatten_fill_text, Text.splitChars, if_pos rfl, hparts]
        rfl
      · rw [segments_cons (by simpa using hc) hsegments, flatten_fill_text, Text.splitChars,
          if_neg hc, hparts]
        rfl
    | slot name =>
      obtain ⟨value, hvalue⟩ := h name List.mem_cons_self
      have hslash : '/' ∉ quote value := not_mem_quote (by decide) (by decide) value
      rw [segments_cons (by simp) hsegments, flatten_fill_slot hvalue,
        splitChars_append_of_not_mem hslash hparts, List.map_cons, flatten_fill_slot hvalue]

theorem opens_le_of_carries {chars : List Char} (h : Carries values parts chars) :
    opens parts ≤ chars.count '{' := by
  induction h with
  | nil => exact le_refl _
  | @text c parts chars _ ih =>
    rw [opens_cons, List.count_cons, Nat.add_comm]
    refine Nat.add_le_add ih ?_
    by_cases hc : c = '{' <;> simp [opens, hc]
  | slot _ _ _ ih =>
    rw [List.count_append, opens, List.count_cons_of_ne (by simp)]
    exact ih.trans (Nat.le_add_left _ _)

theorem opens_segments (parts : List Part) :
    ((segments parts).map opens).sum = opens parts := by
  induction parts with
  | nil => rfl
  | cons part parts ih =>
    obtain ⟨first, rest, hsegments⟩ := exists_segments parts
    by_cases hslash : part = .text '/'
    · subst hslash
      have hnone : opens [.text '/'] = 0 := by decide
      rw [segments_slash, List.map_cons, List.sum_cons, ih, opens_cons _ parts, hnone]
      rfl
    · rw [segments_cons hslash hsegments, List.map_cons, List.sum_cons, opens_cons,
        opens_cons part parts, ← ih, hsegments, List.map_cons, List.sum_cons, Nat.add_assoc]

theorem count_splitChars (c sep : Char) (h : c ≠ sep) (chars : List Char) :
    ((Text.splitChars sep chars).map (List.count c)).sum = chars.count c := by
  induction chars with
  | nil => rfl
  | cons d ds ih =>
    obtain ⟨part, rest, hsplit⟩ := List.exists_cons_of_ne_nil (Text.splitChars_ne_nil sep ds)
    rw [hsplit, List.map_cons, List.sum_cons] at ih
    by_cases hd : d = sep
    · subst hd
      rw [Text.splitChars, if_pos rfl, hsplit, List.map_cons, List.sum_cons, List.map_cons,
        List.sum_cons, ih, List.count_nil, zero_add, List.count_cons_of_ne (Ne.symm h)]
    · rw [Text.splitChars, if_neg hd, hsplit, List.map_cons, List.sum_cons, List.count_cons,
        List.count_cons, ← ih]
      omega

theorem opens_le_of_confined {path : List Char} (h : Confined values parts path) :
    opens parts ≤ path.count '{' := by
  rw [← opens_segments, ← count_splitChars '{' '/' (by decide)]
  unfold Confined at h
  generalize segments parts = split, Text.splitChars '/' path = pieces at h ⊢
  induction h with
  | nil => exact le_refl _
  | cons hsegment _ ih =>
    rw [List.map_cons, List.sum_cons, List.map_cons, List.sum_cons]
    exact Nat.add_le_add (opens_le_of_carries hsegment.carried) ih

theorem mem_of_segments {segment : List Part} (h : segment ∈ segments parts) {part : Part}
    (hpart : part ∈ segment) : part ∈ parts := by
  induction parts generalizing segment with
  | nil =>
    rw [segments, List.mem_singleton] at h
    exact h ▸ hpart
  | cons head tail ih =>
    obtain ⟨first, rest, hsegments⟩ := exists_segments tail
    have htail {segment : List Part} (hmem : segment ∈ first :: rest) (hpart : part ∈ segment) :
        part ∈ head :: tail := List.mem_cons_of_mem _ (ih (hsegments ▸ hmem) hpart)
    by_cases hslash : head = .text '/'
    · subst hslash
      rw [segments_slash, hsegments] at h
      rcases List.mem_cons.mp h with rfl | h
      · cases hpart
      · exact htail h hpart
    · rw [segments_cons hslash hsegments] at h
      rcases List.mem_cons.mp h with rfl | h
      · rcases List.mem_cons.mp hpart with rfl | hpart
        · exact List.mem_cons_self
        · exact htail List.mem_cons_self hpart
      · exact htail (List.mem_cons_of_mem _ h) hpart

theorem confined_fill_iff (hbound : Bound values parts)
    (hvalues : ∀ name value, values.lookup name = some value →
      value ≠ ['.'] ∧ value ≠ ['.', '.']) :
    Confined values parts (flatten (fill (quoted values) parts)) ↔
      ∀ segment ∈ segments parts, ¬ Hollow values segment ∧ ¬ Completes values segment := by
  rw [Confined, splitChars_fill hbound, List.forall₂_map_right_iff, List.forall₂_same]
  refine forall₂_congr fun segment hsegment => segmentConfined_iff ?_ hvalues
  exact fun name hname => hbound name (mem_of_segments hsegment hname)

theorem count_flatten_of_texts (h : ∀ name, .slot name ∉ parts) :
    (flatten parts).count '{' = opens parts := by
  induction parts with
  | nil => rfl
  | cons part parts ih =>
    have hparts := ih fun name hname => h name (List.mem_cons_of_mem _ hname)
    cases part with
    | slot name => exact absurd List.mem_cons_self (h name)
    | text c =>
      rw [flatten_cons, List.count_append, hparts, opens_cons]
      by_cases hc : c = '{' <;> simp [Part.chars, opens, hc]

/-- Replacing the placeholders of a template confines the values exactly when they stay in
place. -/
theorem confined_replaceAll_iff (hbound : Bound values parts)
    (hnames : ∀ value ∈ values, BraceFree value.1)
    (hslots : ∀ name, .slot name ∈ parts → BraceFree name)
    (hvalues : ∀ name value, values.lookup name = some value →
      value ≠ ['.'] ∧ value ≠ ['.', '.']) :
    Confined values parts (replaceAll (quoted values) (flatten parts)) ↔
      StaysInPlace values parts := by
  have hbindings : ∀ binding ∈ quoted values, BraceFree binding.1 ∧ '{' ∉ binding.2 := by
    intro binding hbinding
    obtain ⟨value, hvalue, rfl⟩ := List.mem_map.mp hbinding
    exact ⟨hnames value hvalue, not_mem_quote (by decide) (by decide) value.2⟩
  obtain ⟨after, hafter⟩ := exists_replacedAll hbindings parts hslots
  have htexts : ∀ name, .slot name ∉ after := by
    intro name hname
    obtain ⟨hmem, hnot⟩ := hafter.slots name hname
    obtain ⟨value, hvalue⟩ := hbound name hmem
    refine hnot ?_
    rw [quoted, List.map_map]
    exact List.mem_map_of_mem (mem_of_lookup hvalue)
  rw [hafter.chars]
  constructor
  · intro h
    have hspelled : ¬ Respelled (quoted values) parts := by
      intro hre
      have hlt := hafter.opens_lt hre
      have hle := opens_le_of_confined h
      rw [count_flatten_of_texts htexts] at hle
      exact absurd hlt (not_lt_of_ge hle)
    rw [hafter.filled hspelled, confined_fill_iff hbound hvalues] at h
    exact ⟨hspelled, fun segment hmem => (h segment hmem).1, fun segment hmem => (h segment hmem).2⟩
  · intro h
    rw [hafter.filled h.spelled, confined_fill_iff hbound hvalues]
    exact fun segment hmem => ⟨h.filled segment hmem, h.literal segment hmem⟩

end path

section accepted
variable {path : List Char}

/-- What may stand behind the path of an accepted text. -/
def trailing : List Char := ['?', '#', '\t', '\r', '\n']

theorem cut_eq {sep : Char} {chars : List Char} (h : (cut sep chars).2 = []) :
    ∃ front, (cut sep chars).1 = front ∧ sep ∉ front ∧
      (chars = front ∨ chars = front ++ [sep]) := by
  have hdrop : (chars.dropWhile (· ≠ sep)).drop 1 = [] := h
  refine ⟨_, rfl, fun hmem => by simpa using List.mem_takeWhile_imp hmem, ?_⟩
  simp only [cut]
  have hwhole := List.takeWhile_append_dropWhile (p := fun c => decide (c ≠ sep)) (l := chars)
  cases hrest : chars.dropWhile (· ≠ sep) with
  | nil =>
    rw [hrest, List.append_nil] at hwhole
    exact .inl hwhole.symm
  | cons c cs =>
    have hc : c = sep := by
      have hhead := List.head?_dropWhile_not (fun c => decide (c ≠ sep)) chars
      rw [hrest] at hhead
      simpa using hhead
    rw [hrest] at hdrop hwhole
    obtain rfl : cs = [] := hdrop
    subst hc
    exact .inr hwhole.symm

theorem inPath_of_not_mem {chars : List Char} (hquery : '?' ∉ chars) (hfragment : '#' ∉ chars) :
    ∀ c ∈ chars, inPath c = true := by
  intro c hc
  have hq : c ≠ '?' := fun heq => hquery (heq ▸ hc)
  have hf : c ≠ '#' := fun heq => hfragment (heq ▸ hc)
  simp [inPath, hq, hf]

theorem splitNetloc_eq {url : List Char} (h : (splitNetloc url).1 = []) :
    ∃ lead, url = lead ++ (splitNetloc url).2 ∧ ∀ c ∈ lead, inPath c = true := by
  unfold splitNetloc at h ⊢
  cases hbegins : Text.dropPrefix? ['/', '/'] url with
  | none => exact ⟨[], rfl, by simp⟩
  | some located =>
    rw [hbegins] at h
    have hwhole := List.takeWhile_append_dropWhile (p := fun c => decide (c ∉ ['/', '?', '#']))
      (l := located)
    rw [show located.takeWhile (· ∉ ['/', '?', '#']) = [] from h, List.nil_append] at hwhole
    refine ⟨['/', '/'], ?_, by simp [inPath]⟩
    rw [Text.dropPrefix?_eq_some hbegins]
    exact congrArg (['/', '/'] ++ ·) hwhole.symm

/-- Behind the path of a split text stand its empty query and fragment. -/
theorem urlsplit_cases (hnetloc : (urlsplit path).netloc = []) (hquery : (urlsplit path).query = [])
    (hfragment : (urlsplit path).fragment = []) :
    ∃ front back, path.filter (· ∉ ['\t', '\r', '\n']) = front ++ back ∧
      (∀ c ∈ front, inPath c = true) ∧ back ∈ [[], ['?'], ['#'], ['?', '#']] := by
  simp only [urlsplit] at hnetloc hquery hfragment
  generalize path.filter (· ∉ ['\t', '\r', '\n']) = url at hnetloc hquery hfragment ⊢
  obtain ⟨lead, hurl, hlead⟩ := splitNetloc_eq hnetloc
  generalize (splitNetloc url).2 = rest at hurl hquery hfragment
  obtain ⟨whole, hcut, hnofragment, hrest⟩ := cut_eq hfragment
  rw [hcut] at hquery
  obtain ⟨front, -, hnoquery, hwhole⟩ := cut_eq hquery
  have hfront : ∀ c ∈ lead ++ front, inPath c = true := by
    intro c hc
    rcases List.mem_append.mp hc with hc | hc
    · exact hlead c hc
    · refine inPath_of_not_mem hnoquery (fun hmem => hnofragment ?_) c hc
      rcases hwhole with rfl | rfl
      · exact hmem
      · exact List.mem_append_left _ hmem
  rcases hrest with rfl | rfl
  · rcases hwhole with rfl | rfl
    · exact ⟨_, [], by rw [hurl, List.append_nil], hfront, by decide⟩
    · exact ⟨_, ['?'], by rw [hurl, List.append_assoc], hfront, by decide⟩
  · rcases hwhole with rfl | rfl
    · exact ⟨_, ['#'], by rw [hurl, List.append_assoc], hfront, by decide⟩
    · exact ⟨_, ['?', '#'], by rw [hurl]; simp, hfront, by decide⟩

theorem trailing_of_accepted (h : validateOriginRelativePath path = true) :
    ∀ c ∈ path.dropWhile inPath, c ∈ trailing := by
  simp only [validateOriginRelativePath, Bool.and_eq_true, List.isEmpty_iff] at h
  obtain ⟨front, back, hsplit, hfront, hback⟩ :=
    urlsplit_cases h.1.1.1.1.1.1 h.1.1.1.1.1.2 h.1.1.1.1.2
  have hkept : (path.dropWhile inPath).filter (· ∉ ['\t', '\r', '\n']) = back := by
    have hdrop : (path.filter (· ∉ ['\t', '\r', '\n'])).dropWhile inPath =
        (path.dropWhile inPath).filter (· ∉ ['\t', '\r', '\n']) := by
      rw [List.dropWhile_filter]
      congr 2
      funext c
      by_cases hspace : c ∈ ['\t', '\r', '\n']
      · have hc : inPath c = true := by
          simp only [List.mem_cons, List.not_mem_nil, or_false] at hspace
          rcases hspace with rfl | rfl | rfl <;> decide
        rw [hc, Bool.or_true]
      · simp [hspace]
    rw [← hdrop, hsplit, List.dropWhile_append_of_pos hfront]
    simp only [List.mem_cons, List.not_mem_nil, or_false] at hback
    rcases hback with rfl | rfl | rfl | rfl <;> decide
  intro c hc
  by_cases hspace : c ∈ ['\t', '\r', '\n']
  · exact List.mem_append_right ['?', '#'] hspace
  · have hmem : c ∈ back := by
      rw [← hkept, List.mem_filter]
      exact ⟨hc, by simpa using hspace⟩
    simp only [List.mem_cons, List.not_mem_nil, or_false] at hback
    rcases hback with rfl | rfl | rfl | rfl <;> simp_all [trailing]

theorem braceFree_of_isNameRest {name : List Char} (h : ∀ c ∈ name, isNameRest c = true) :
    BraceFree name :=
  ⟨fun hmem => absurd (h _ hmem) (by decide), fun hmem => absurd (h _ hmem) (by decide)⟩

theorem chars_template : ∀ c ∈ flatten (template path), inPath c = true := by
  intro c hc
  obtain ⟨part, hpart, hc⟩ := List.mem_flatMap.mp hc
  cases part with
  | text d =>
    obtain rfl := List.mem_singleton.mp hc
    exact List.mem_takeWhile_imp (p := partInPath) hpart
  | slot name =>
    have hname := isNameRest_of_slot ((List.takeWhile_subset _) hpart)
    have hquery : '?' ∉ braced name := by
      simpa [braced] using fun hmem => absurd (hname _ hmem) (by decide)
    have hfragment : '#' ∉ braced name := by
      simpa [braced] using fun hmem => absurd (hname _ hmem) (by decide)
    exact inPath_of_not_mem hquery hfragment c hc

/-- An accepted path is its template with nothing to fill behind it. -/
theorem exists_trailing (h : validateOriginRelativePath path = true) :
    ∃ back, path = flatten (template path) ++ back ∧ BraceFree back ∧
      (∀ c, back.head? = some c → inPath c = false) := by
  let back := flatten ((pathParts path).dropWhile partInPath)
  have hwhole : path = flatten (template path) ++ back := by
    rw [template, ← flatten_append, List.takeWhile_append_dropWhile, flatten_pathParts]
  have hhead : ∀ c, back.head? = some c → inPath c = false := by
    intro c hc
    have hpart := List.head?_dropWhile_not partInPath (pathParts path)
    simp only [back] at hc
    cases hrest : (pathParts path).dropWhile partInPath with
    | nil => simp [hrest] at hc
    | cons part parts =>
      rw [hrest] at hc hpart
      cases part with
      | slot name => simp [partInPath] at hpart
      | text d =>
        obtain rfl : d = c := by simpa [Part.chars] using hc
        simpa [partInPath] using hpart
  have hdrop : path.dropWhile inPath = back := by
    have hback : back.dropWhile inPath = back := by
      cases hchars : back with
      | nil => rfl
      | cons c cs =>
        have hc := hhead c (by rw [hchars]; rfl)
        exact List.dropWhile_cons_of_neg (by simp [hc])
    rw [hwhole, List.dropWhile_append_of_pos chars_template, hback]
  have htrailing := trailing_of_accepted h
  rw [hdrop] at htrailing
  exact ⟨back, hwhole, ⟨fun hmem => absurd (htrailing _ hmem) (by decide),
    fun hmem => absurd (htrailing _ hmem) (by decide)⟩, hhead⟩

end accepted

namespace HttpProvider
variable {printer : Printer} {operation : ExecutableOperation} {arguments : Fields}

theorem requestPath_eq (parameters : List (String × String)) (path : List Char) :
    requestPath printer arguments operation parameters path =
      (parameters.mapM (pathValue printer arguments operation)).map
        fun values => replaceAll (quoted values) path := by
  induction parameters generalizing path with
  | nil => rfl
  | cons parameter parameters ih =>
    rw [requestPath, List.mapM_cons]
    cases hvalue : pathValue printer arguments operation parameter with
    | error e => rfl
    | ok value =>
      show requestPath printer arguments operation parameters _ = _
      rw [ih]
      cases parameters.mapM (pathValue printer arguments operation) <;> rfl

theorem pathValue_eq_ok {parameter : String × String} {value : List Char × List Char}
    (h : pathValue printer arguments operation parameter = .ok value) :
    value.1 = parameter.1.toList ∧ value.2 ≠ ['.'] ∧ value.2 ≠ ['.', '.'] := by
  unfold pathValue at h
  cases htext : scalarParameter printer arguments parameter.2 operation with
  | error e => rw [htext] at h; cases h
  | ok text =>
    rw [htext] at h
    change (if text ∈ [".", ".."] then _ else _) = _ at h
    split_ifs at h with hdots
    obtain rfl := Except.ok.inj h
    refine ⟨rfl, fun heq => hdots ?_, fun heq => hdots ?_⟩
    · have : text = "." := String.toList_inj.mp heq
      simp [this]
    · have : text = ".." := String.toList_inj.mp heq
      simp [this]

theorem keys_of_mapM {parameters : List (String × String)} {values : Bindings}
    (h : parameters.mapM (pathValue printer arguments operation) = .ok values) :
    values.map Prod.fst = parameters.map (fun parameter => parameter.1.toList) ∧
      ∀ value ∈ values, value.2 ≠ ['.'] ∧ value.2 ≠ ['.', '.'] := by
  induction parameters generalizing values with
  | nil =>
    obtain rfl := Except.ok.inj h
    exact ⟨rfl, by simp⟩
  | cons parameter parameters ih =>
    rw [List.mapM_cons] at h
    cases hvalue : pathValue printer arguments operation parameter with
    | error e => rw [hvalue] at h; cases h
    | ok value =>
      cases hrest : parameters.mapM (pathValue printer arguments operation) with
      | error e => rw [hvalue, hrest] at h; cases h
      | ok rest =>
        rw [hvalue, hrest] at h
        obtain rfl := Except.ok.inj h
        obtain ⟨hkeys, hvalues⟩ := ih hrest
        obtain ⟨hkey, hclean⟩ := pathValue_eq_ok hvalue
        refine ⟨by rw [List.map_cons, List.map_cons, hkeys, hkey], ?_⟩
        rintro other hother
        rcases List.mem_cons.mp hother with rfl | hother
        · exact hclean
        · exact hvalues other hother

theorem requestUrl_eq_ok {baseUrl url : List Char}
    (h : requestUrl printer baseUrl operation arguments = .ok url) :
    ∃ values, pathValues printer arguments operation = .ok values ∧
      ∃ query, url = baseUrl ++ (replaceAll (quoted values) operation.http.path.toList ++ query) ∧
        ∀ c, query.head? = some c → inPath c = false := by
  unfold requestUrl at h
  rw [requestPath_eq] at h
  cases hvalues : pathValues printer arguments operation with
  | error e =>
    rw [show operation.http.pathParameters.mapM (pathValue printer arguments operation) = .error e
      from hvalues] at h
    cases h
  | ok values =>
    rw [show operation.http.pathParameters.mapM (pathValue printer arguments operation) = .ok values
      from hvalues] at h
    refine ⟨values, rfl, ?_⟩
    cases hitems : operation.http.queryParameters.mapM (queryItems printer arguments operation) with
    | error e => rw [hitems] at h; cases h
    | ok items =>
      rw [hitems] at h
      have hurl := Except.ok.inj h
      simp only at hurl
      split_ifs at hurl
      · exact ⟨[], by rw [← hurl, List.append_nil], by simp⟩
      · refine ⟨_, by rw [← hurl, List.append_assoc], ?_⟩
        simp [inPath]

/-- The path of the URL is the filled template. -/
theorem urlPath_requestUrl {baseUrl url : List Char} {values : Bindings}
    (hvalues : pathValues printer arguments operation = .ok values)
    (h : requestUrl printer baseUrl operation arguments = .ok url) :
    urlPath baseUrl url =
      replaceAll (quoted values) (flatten (template operation.http.path.toList)) := by
  obtain ⟨found, hfound, query, rfl, hquery⟩ := requestUrl_eq_ok h
  obtain rfl := Except.ok.inj (hvalues.symm.trans hfound)
  obtain ⟨back, hpath, hback, hhead⟩ := exists_trailing operation.http.path_relative
  have hfilled : ∀ c ∈ replaceAll (quoted values) (flatten (template operation.http.path.toList)),
      inPath c = true := by
    intro c hc
    rcases mem_replaceAll hc with hc | ⟨binding, hbinding, hc⟩
    · exact chars_template c hc
    · obtain ⟨value, -, rfl⟩ := List.mem_map.mp hbinding
      exact inPath_of_not_mem (not_mem_quote (by decide) (by decide) value.2)
        (not_mem_quote (by decide) (by decide) value.2) c hc
  have hbehind : (back ++ query).takeWhile inPath = [] := by
    cases hchars : back ++ query with
    | nil => rfl
    | cons c cs =>
      have hc : inPath c = false := by
        cases back with
        | nil => exact hquery c (by rw [List.nil_append] at hchars; rw [hchars]; rfl)
        | cons d ds =>
          rw [List.cons_append] at hchars
          exact hhead c (by rw [List.head?_cons, (List.cons.inj hchars).1])
      exact List.takeWhile_cons_of_neg (by simp [hc])
  rw [urlPath, List.drop_left]
  nth_rewrite 1 [hpath]
  rw [replaceAll_append_of_braceFree hback, List.append_assoc, List.takeWhile_append_of_pos hfilled,
    hbehind, List.append_nil]

def ArgumentError (error : RuntimeError) : Prop := error.code = "ACC_RUNTIME_INPUT_SCHEMA_INVALID"

theorem queryScalar_error {value : Json} {inputName : String} {error : RuntimeError}
    (h : queryScalar printer value inputName operation = .error error) : ArgumentError error := by
  cases value with
  | bool | str | int | float => cases h
  | null | arr | obj => exact Except.error.inj h ▸ rfl

theorem queryItem_error {parameter : String × String} (value : Json) (error : RuntimeError)
    (h : queryItem printer operation parameter value = .error error) : ArgumentError error := by
  unfold queryItem at h
  cases htext : queryScalar printer value parameter.2 operation with
  | ok text => rw [htext] at h; cases h
  | error e =>
    rw [htext] at h
    obtain rfl := Except.error.inj h
    exact queryScalar_error htext

theorem pathValue_error (parameter : String × String) (error : RuntimeError)
    (h : pathValue printer arguments operation parameter = .error error) :
    ArgumentError error := by
  unfold pathValue at h
  cases htext : scalarParameter printer arguments parameter.2 operation with
  | error e =>
    rw [htext] at h
    obtain rfl := Except.error.inj h
    unfold scalarParameter at htext
    split at htext
    · exact Except.error.inj htext ▸ rfl
    · exact queryScalar_error htext
  | ok text =>
    rw [htext] at h
    change (if text ∈ [".", ".."] then _ else _) = _ at h
    split_ifs at h
    exact Except.error.inj h ▸ rfl

theorem queryItems_error (parameter : String × String) (error : RuntimeError)
    (h : queryItems printer arguments operation parameter = .error error) :
    ArgumentError error := by
  unfold queryItems at h
  split at h
  · cases h
  · cases h
  · exact error_of_mapM queryItem_error h
  · exact error_of_mapM queryItem_error h

theorem requestUrl_error {baseUrl : List Char} {error : RuntimeError}
    (h : requestUrl printer baseUrl operation arguments = .error error) :
    ArgumentError error := by
  unfold requestUrl at h
  rw [requestPath_eq] at h
  cases hvalues : operation.http.pathParameters.mapM (pathValue printer arguments operation) with
  | error e =>
    rw [hvalues] at h
    obtain rfl := Except.error.inj h
    exact error_of_mapM pathValue_error hvalues
  | ok values =>
    rw [hvalues] at h
    cases hitems : operation.http.queryParameters.mapM (queryItems printer arguments operation) with
    | error e =>
      rw [hitems] at h
      obtain rfl := Except.error.inj h
      exact error_of_mapM queryItems_error hitems
    | ok items => rw [hitems] at h; cases h

theorem bound_template {values : Bindings}
    (h : pathValues printer arguments operation = .ok values) :
    Bound values (template operation.http.path.toList) := by
  intro name hname
  have hplaceholder : name ∈ placeholders operation.http.path.toList :=
    mem_placeholders.mpr (List.takeWhile_subset _ hname)
  have hkey : name ∈ values.map Prod.fst := by
    rw [(keys_of_mapM h).1]
    exact (operation.http.parameters_exact name).mp hplaceholder
  obtain ⟨value, hvalue, rfl⟩ := List.mem_map.mp hkey
  have hsome : (values.lookup value.1).isSome = true :=
    List.lookup_isSome_iff.mpr ⟨value, hvalue, beq_self_eq_true _⟩
  exact Option.isSome_iff_exists.mp hsome

/-- An operation with one placeholder in a segment of its own. -/
def readOrder : ExecutableOperation where
  id := "read_order"
  http :=
    { method := "GET"
      scopes := []
      safety :=
        { effect := .read, risk := .low, reversibility := .reversible, retry := .never,
          idempotency := .unsupported, concurrency := .notSupported }
      path := "/orders/{order_id}"
      pathParameters := [("order_id", "id")]
      queryParameters := []
      request := none
      timeoutSeconds := 10
      path_relative := by decide
      parameters_exact := by
        have h : placeholders "/orders/{order_id}".toList = ["order_id".toList] := by decide
        intro name
        rw [h]
        simp }

/-- Braces of the template around a value spell the next placeholder. -/
example : replaceAll (quoted [(['a'], ['b']), (['b'], ['x'])]) "/{{a}}/{b}".toList =
    "/x/x".toList := by decide

/-- Percent signs of the template take their digits from the values. -/
example : unquote (replaceAll (quoted [(['a'], ['2', 'e']), (['b'], ['2', 'e'])])
    "%{a}%{b}".toList) = [0x2e, 0x2e] := by decide

end HttpProvider

end CapabilityCompiler.Providers
