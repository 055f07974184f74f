import Mathlib.Data.List.Infix
import Mathlib.Data.List.Lookmap
import Mathlib.Data.Nat.Notation
import Mathlib.Tactic.Common

/-! Templates with placeholders in braces, filled by replacing one placeholder after the other.
Replacing works on the text alone, so it also finds a placeholder that the template does not
have: an open brace of the template, texts and values that spell its name, a closing brace. -/
namespace CapabilityCompiler.Foundation.Template

/-- A template is read into its own characters and its placeholders. -/
inductive Part where
  | text (c : Char)
  | slot (name : List Char)
deriving DecidableEq

/-- Values of placeholders, in the order in which they are replaced. -/
abbrev Bindings := List (List Char × List Char)

def braced (name : List Char) : List Char := '{' :: name ++ ['}']

/-- `text.replace(needle, value)`, with the characters of a match still to be skipped. -/
def replaceFrom (needle value : List Char) : ℕ → List Char → List Char
  | _, [] => []
  | skip + 1, _ :: cs => replaceFrom needle value skip cs
  | 0, c :: cs =>
    if needle.isPrefixOf (c :: cs) then value ++ replaceFrom needle value (needle.length - 1) cs
    else c :: replaceFrom needle value 0 cs

def replace (needle value chars : List Char) : List Char := replaceFrom needle value 0 chars

def replaceAll (bindings : Bindings) (chars : List Char) : List Char :=
  bindings.foldl (fun chars binding => replace (braced binding.1) binding.2 chars) chars

def Part.chars : Part → List Char
  | .text c => [c]
  | .slot name => braced name

def Part.name? : Part → Option (List Char)
  | .text _ => none
  | .slot name => some name

def flatten (parts : List Part) : List Char := parts.flatMap Part.chars

def texts (chars : List Char) : List Part := chars.map .text

def Part.filled (bindings : Bindings) : Part → List Part
  | .text c => [.text c]
  | .slot name =>
    match bindings.lookup name with
    | some value => texts value
    | none => [.slot name]

/-- Every bound placeholder is filled, whatever the text around it spells. -/
def fill (bindings : Bindings) (parts : List Part) : List Part :=
  parts.flatMap (Part.filled bindings)

def BraceFree (chars : List Char) : Prop := '{' ∉ chars ∧ '}' ∉ chars

/-- The open braces that belong to no placeholder. -/
def opens (parts : List Part) : ℕ := parts.count (.text '{')

/-- Some texts spell a placeholder that is none. -/
def Spells (name : List Char) (parts : List Part) : Prop := texts (braced name) <:+: parts

/-- The values filled first spell, with the texts around them, a placeholder filled later. -/
def Respelled (bindings : Bindings) (parts : List Part) : Prop :=
  ∃ before name value after, bindings = before ++ (name, value) :: after ∧
    Spells name (fill before parts)

section replace
variable {needle value : List Char}

theorem replaceFrom_eq_drop (skip : ℕ) (chars : List Char) :
    replaceFrom needle value skip chars = replace needle value (chars.drop skip) := by
  induction skip generalizing chars with
  | zero => rfl
  | succ skip ih =>
    cases chars with
    | nil => rfl
    | cons c cs => exact ih cs

theorem replace_append (h : needle ≠ []) (chars : List Char) :
    replace needle value (needle ++ chars) = value ++ replace needle value chars := by
  obtain ⟨c, cs, rfl⟩ := List.exists_cons_of_ne_nil h
  have hprefix : (c :: cs).isPrefixOf (c :: (cs ++ chars)) = true :=
    List.isPrefixOf_iff_prefix.mpr (List.prefix_append (c :: cs) chars)
  rw [replace, List.cons_append, replaceFrom, if_pos hprefix, replaceFrom_eq_drop]
  simp

theorem replace_cons {c : Char} {cs : List Char} (h : ¬ needle <+: c :: cs) :
    replace needle value (c :: cs) = c :: replace needle value cs := by
  rw [replace, replaceFrom, if_neg (by rwa [List.isPrefixOf_iff_prefix])]
  rfl

/-- A placeholder does not start inside text without an open brace. -/
theorem replace_of_no_open {name chars : List Char} (h : '{' ∉ chars) (rest : List Char) :
    replace (braced name) value (chars ++ rest) = chars ++ replace (braced name) value rest := by
  induction chars with
  | nil => rfl
  | cons c cs ih =>
    have hc : '{' ≠ c := fun heq => h (heq ▸ List.mem_cons_self)
    have hcs : '{' ∉ cs := fun hmem => h (List.mem_cons_of_mem _ hmem)
    have hprefix : ¬ braced name <+: c :: (cs ++ rest) := by
      intro hp
      exact hc (List.cons_prefix_cons.mp hp).1
    rw [List.cons_append, replace_cons hprefix, ih hcs, List.cons_append]

/-- Text without braces behind a template is left alone. -/
theorem replace_append_of_braceFree {name tail : List Char} (h : BraceFree tail)
    (chars : List Char) :
    replace (braced name) value (chars ++ tail) = replace (braced name) value chars ++ tail := by
  induction hlength : chars.length using Nat.strong_induction_on generalizing chars with
  | _ n ih =>
  match chars, hlength with
  | [], _ =>
    have htail : replace (braced name) value (tail ++ []) =
        tail ++ replace (braced name) value [] := replace_of_no_open h.1 []
    rw [List.append_nil] at htail
    exact htail.trans (List.append_nil tail)
  | c :: cs, hlength =>
    by_cases hneedle : braced name <+: c :: cs
    · obtain ⟨rest, hrest⟩ := hneedle
      have hne : braced name ≠ [] := by simp [braced]
      have hshort : rest.length < n := by
        rw [← hlength, ← hrest, List.length_append]
        simp [braced]
      rw [← hrest, List.append_assoc, replace_append hne, replace_append hne, ih _ hshort rest rfl,
        List.append_assoc]
    · have hstart : ¬ braced name <+: c :: (cs ++ tail) := by
        intro hp
        rcases List.prefix_or_prefix_of_prefix hp (List.prefix_append (c :: cs) tail) with
          hp | ⟨beyond, hbeyond⟩
        · exact hneedle hp
        · -- The closing brace would have to stand in the tail.
          rw [← hbeyond] at hp
          have htail : beyond <+: tail := (List.prefix_append_right_inj (c :: cs)).mp hp
          rcases List.eq_nil_or_concat beyond with rfl | ⟨init, last, rfl⟩
          · exact hneedle (by rw [← hbeyond, List.append_nil])
          · have hlast : last = '}' := by
              have hend := congrArg List.getLast? hbeyond
              simpa [braced, List.getLast?_cons] using hend
            exact h.2 (htail.subset (by simp [hlast]))
      have hshort : cs.length < n := by simp only [List.length_cons] at hlength; omega
      rw [List.cons_append, replace_cons hstart, replace_cons hneedle, ih _ hshort cs rfl,
        List.cons_append]

end replace

/-- What replacing puts into a text comes from the text or from a value. -/
theorem mem_replaceFrom {needle value : List Char} {c : Char} {skip : ℕ} {chars : List Char}
    (h : c ∈ replaceFrom needle value skip chars) : c ∈ chars ∨ c ∈ value := by
  induction chars generalizing skip with
  | nil => cases skip <;> cases h
  | cons d ds ih =>
    cases skip with
    | succ skip => exact (ih h).imp_left (List.mem_cons_of_mem _)
    | zero =>
      rw [replaceFrom] at h
      split_ifs at h
      · rcases List.mem_append.mp h with h | h
        · exact .inr h
        · exact (ih h).imp_left (List.mem_cons_of_mem _)
      · rcases List.mem_cons.mp h with rfl | h
        · exact .inl List.mem_cons_self
        · exact (ih h).imp_left (List.mem_cons_of_mem _)

theorem mem_replaceAll {bindings : Bindings} {c : Char} {chars : List Char}
    (h : c ∈ replaceAll bindings chars) :
    c ∈ chars ∨ ∃ binding ∈ bindings, c ∈ binding.2 := by
  induction bindings generalizing chars with
  | nil => exact .inl h
  | cons binding bindings ih =>
    rcases ih h with hmem | ⟨other, hother, hmem⟩
    · rcases mem_replaceFrom hmem with hmem | hmem
      · exact .inl hmem
      · exact .inr ⟨binding, List.mem_cons_self, hmem⟩
    · exact .inr ⟨other, List.mem_cons_of_mem _ hother, hmem⟩

theorem replaceAll_append_of_braceFree {bindings : Bindings} {tail : List Char}
    (h : BraceFree tail) (chars : List Char) :
    replaceAll bindings (chars ++ tail) = replaceAll bindings chars ++ tail := by
  induction bindings generalizing chars with
  | nil => rfl
  | cons binding bindings ih =>
    show replaceAll bindings (replace (braced binding.1) binding.2 (chars ++ tail)) = _
    rw [replace_append_of_braceFree h, ih]
    rfl

@[simp] theorem flatten_nil : flatten [] = [] := rfl

@[simp] theorem flatten_cons (part : Part) (parts : List Part) :
    flatten (part :: parts) = part.chars ++ flatten parts := rfl

@[simp] theorem flatten_append (xs ys : List Part) :
    flatten (xs ++ ys) = flatten xs ++ flatten ys := List.flatMap_append

@[simp] theorem flatten_texts (chars : List Char) : flatten (texts chars) = chars := by
  induction chars with
  | nil => rfl
  | cons c cs ih => exact congrArg (c :: ·) ih

@[simp] theorem texts_cons (c : Char) (cs : List Char) : texts (c :: cs) = .text c :: texts cs := rfl

@[simp] theorem texts_append (xs ys : List Char) : texts (xs ++ ys) = texts xs ++ texts ys :=
  List.map_append

theorem slot_not_mem_texts (name chars : List Char) : Part.slot name ∉ texts chars := by
  simp [texts]

@[simp] theorem opens_append (xs ys : List Part) : opens (xs ++ ys) = opens xs + opens ys :=
  List.count_append

theorem opens_cons (part : Part) (parts : List Part) :
    opens (part :: parts) = opens [part] + opens parts := by
  rw [← List.singleton_append, opens_append]

theorem opens_texts {chars : List Char} (h : '{' ∉ chars) : opens (texts chars) = 0 := by
  refine List.count_eq_zero.mpr ?_
  simpa [texts] using h

/-- Only texts can stand where a text without braces is read. -/
theorem parts_of_text {name : List Char} (hname : BraceFree name) {parts : List Part}
    {rest : List Char} (h : flatten parts = name ++ '}' :: rest) :
    ∃ tail, parts = texts (name ++ ['}']) ++ tail ∧ flatten tail = rest := by
  induction name generalizing parts with
  | nil =>
    match parts with
    | [] => cases h
    | .slot n :: ps => exact absurd (List.cons.inj h).1 (by decide)
    | .text c :: ps =>
      obtain ⟨rfl, hps⟩ := List.cons.inj h
      exact ⟨ps, rfl, hps⟩
  | cons c cs ih =>
    have hc : c ≠ '{' := fun heq => hname.1 (heq ▸ List.mem_cons_self)
    match parts with
    | [] => cases h
    | .slot n :: ps => exact absurd (List.cons.inj h).1.symm hc
    | .text d :: ps =>
      obtain ⟨rfl, hps⟩ := List.cons.inj h
      have hcs : BraceFree cs := ⟨fun hmem => hname.1 (List.mem_cons_of_mem _ hmem),
        fun hmem => hname.2 (List.mem_cons_of_mem _ hmem)⟩
      obtain ⟨tail, rfl, htail⟩ := ih hcs hps
      exact ⟨tail, rfl, htail⟩

/-- Two placeholders that start at one place are the same. -/
theorem name_eq_of_braced {name other rest : List Char} (hname : BraceFree name)
    (hother : BraceFree other) (h : braced name <+: braced other ++ rest) : name = other := by
  obtain ⟨tail, htail⟩ := h
  simp only [braced, List.cons_append, List.append_assoc, List.nil_append, List.cons.injEq,
    true_and] at htail
  have hfirst : (name ++ '}' :: tail).takeWhile (· ≠ '}') = name := by
    rw [List.takeWhile_append_of_pos (by
      intro c hc
      simpa using fun heq : c = '}' => hname.2 (heq ▸ hc))]
    simp
  have hsecond : (other ++ '}' :: rest).takeWhile (· ≠ '}') = other := by
    rw [List.takeWhile_append_of_pos (by
      intro c hc
      simpa using fun heq : c = '}' => hother.2 (heq ▸ hc))]
    simp
  rw [← hfirst, htail, hsecond]

@[simp] theorem fill_cons (bindings : Bindings) (part : Part) (parts : List Part) :
    fill bindings (part :: parts) = part.filled bindings ++ fill bindings parts := rfl

@[simp] theorem fill_append (bindings : Bindings) (xs ys : List Part) :
    fill bindings (xs ++ ys) = fill bindings xs ++ fill bindings ys := List.flatMap_append

@[simp] theorem fill_texts (bindings : Bindings) (chars : List Char) :
    fill bindings (texts chars) = texts chars := by
  induction chars with
  | nil => rfl
  | cons c cs ih => exact congrArg (.text c :: ·) ih

theorem fill_nil (parts : List Part) : fill [] parts = parts := by
  induction parts with
  | nil => rfl
  | cons part parts ih =>
    cases part with
    | text c => exact congrArg (.text c :: ·) ih
    | slot name => exact congrArg (.slot name :: ·) ih

/-- Filling one placeholder after the other fills them all. -/
theorem fill_fill (name value : List Char) (bindings : Bindings) (parts : List Part) :
    fill bindings (fill [(name, value)] parts) = fill ((name, value) :: bindings) parts := by
  induction parts with
  | nil => rfl
  | cons part parts ih =>
    rw [fill_cons, fill_append, ih, fill_cons]
    congr 1
    cases part with
    | text c => rfl
    | slot other =>
      by_cases h : other = name
      · simp [Part.filled, h]
      · have hne : (other == name) = false := by simpa using h
        simp [Part.filled, List.lookup_cons, hne, fill]

theorem spells_cons_iff {name : List Char} {part : Part} {parts : List Part} :
    Spells name (part :: parts) ↔ texts (braced name) <+: part :: parts ∨ Spells name parts :=
  List.infix_cons_iff

/-- What replacing one placeholder does to the parts of a text. -/
structure Replaced (name value : List Char) (parts after : List Part) : Prop where
  chars : replace (braced name) value (flatten parts) = flatten after
  slots : ∀ other, Part.slot other ∈ after → Part.slot other ∈ parts ∧ other ≠ name
  opens_le : opens after ≤ opens parts
  opens_lt : Spells name parts → opens after < opens parts
  filled : ¬ Spells name parts → after = fill [(name, value)] parts

/-- A placeholder in its own place. -/
theorem Replaced.slot_self {name value : List Char} {parts after : List Part}
    (h : Replaced name value parts after) (hvalue : '{' ∉ value) :
    Replaced name value (.slot name :: parts) (texts value ++ after) := by
  have hspells : Spells name (.slot name :: parts) ↔ Spells name parts := by
    rw [spells_cons_iff, or_iff_right]
    intro hp
    cases (List.cons_prefix_cons.mp hp).1
  have hopens : opens (.slot name :: parts) = opens parts := List.count_cons_of_ne (by simp)
  refine ⟨?_, ?_, ?_, ?_, ?_⟩
  · rw [flatten_cons, Part.chars, replace_append (by simp [braced]), h.chars, flatten_append,
      flatten_texts]
  · intro other hother
    rcases List.mem_append.mp hother with hother | hother
    · exact absurd hother (slot_not_mem_texts _ _)
    · obtain ⟨hmem, hne⟩ := h.slots other hother
      exact ⟨List.mem_cons_of_mem _ hmem, hne⟩
  · rw [opens_append, opens_texts hvalue, Nat.zero_add, hopens]
    exact h.opens_le
  · intro hsp
    rw [opens_append, opens_texts hvalue, Nat.zero_add, hopens]
    exact h.opens_lt (hspells.mp hsp)
  · intro hsp
    rw [h.filled (fun hp => hsp (hspells.mpr hp)), fill_cons]
    simp [Part.filled]

/-- Texts that spell the placeholder. -/
theorem Replaced.spelled {name value : List Char} {parts after : List Part}
    (h : Replaced name value parts after) (hvalue : '{' ∉ value) :
    Replaced name value (texts (braced name) ++ parts) (texts value ++ after) := by
  have hspells : Spells name (texts (braced name) ++ parts) := ⟨[], parts, rfl⟩
  have hopens : opens parts + 1 ≤ opens (texts (braced name) ++ parts) := by
    rw [opens_append, Nat.add_comm]
    refine Nat.add_le_add_right ?_ _
    simp [opens, braced]
  have hle := h.opens_le
  have hvalues := opens_texts hvalue
  refine ⟨?_, ?_, ?_, ?_, fun hsp => absurd hspells hsp⟩
  · rw [flatten_append, flatten_texts, replace_append (by simp [braced]), h.chars, flatten_append,
      flatten_texts]
  · intro other hother
    rcases List.mem_append.mp hother with hother | hother
    · exact absurd hother (slot_not_mem_texts _ _)
    · obtain ⟨hmem, hne⟩ := h.slots other hother
      exact ⟨List.mem_append_right _ hmem, hne⟩
  · rw [opens_append]
    omega
  · intro _
    rw [opens_append]
    omega

/-- A part at which no placeholder of that name starts is kept. -/
theorem Replaced.kept {name value : List Char} {part : Part} {parts after : List Part}
    (h : Replaced name value parts after)
    (hchars : replace (braced name) value (part.chars ++ flatten parts) =
      part.chars ++ replace (braced name) value (flatten parts))
    (hslot : part ≠ .slot name)
    (hstart : ¬ texts (braced name) <+: part :: parts) :
    Replaced name value (part :: parts) (part :: after) := by
  have hspells : Spells name (part :: parts) ↔ Spells name parts := by
    rw [spells_cons_iff, or_iff_right hstart]
  have hopens (xs : List Part) : opens (part :: xs) = opens [part] + opens xs := opens_cons part xs
  refine ⟨?_, ?_, ?_, ?_, ?_⟩
  · rw [flatten_cons, hchars, h.chars, flatten_cons]
  · intro other hother
    rcases List.mem_cons.mp hother with rfl | hother
    · exact ⟨List.mem_cons_self, fun heq => hslot (heq ▸ rfl)⟩
    · obtain ⟨hmem, hne⟩ := h.slots other hother
      exact ⟨List.mem_cons_of_mem _ hmem, hne⟩
  · rw [hopens, hopens parts]
    exact Nat.add_le_add_left h.opens_le _
  · intro hsp
    rw [hopens, hopens parts]
    exact Nat.add_lt_add_left (h.opens_lt (hspells.mp hsp)) _
  · intro hsp
    rw [h.filled (fun hp => hsp (hspells.mpr hp)), fill_cons]
    cases part with
    | text c => rfl
    | slot other =>
      have hne : (other == name) = false := by
        simpa using fun heq : other = name => hslot (heq ▸ rfl)
      simp [Part.filled, List.lookup_cons, hne]

theorem exists_replaced {name value : List Char} (hname : BraceFree name)
    (hvalue : '{' ∉ value) (parts : List Part)
    (hslots : ∀ other, Part.slot other ∈ parts → BraceFree other) :
    ∃ after, Replaced name value parts after := by
  induction hlength : parts.length using Nat.strong_induction_on generalizing parts with
  | _ n ih =>
  match parts, hlength with
  | [], _ =>
    refine ⟨[], rfl, by simp, le_refl _, fun h => ?_, fun _ => rfl⟩
    simpa [texts, braced] using List.infix_nil.mp h
  | .slot other :: rest, hlength =>
    have hrest : rest.length < n := by simp only [List.length_cons] at hlength; omega
    obtain ⟨after, hafter⟩ :=
      ih _ hrest rest (fun m hm => hslots m (List.mem_cons_of_mem _ hm)) rfl
    have hother : BraceFree other := hslots other List.mem_cons_self
    by_cases hsame : other = name
    · subst hsame
      exact ⟨_, hafter.slot_self hvalue⟩
    · refine ⟨_, hafter.kept ?_ (by simpa using hsame) ?_⟩
      · have hstart : ¬ braced name <+: '{' :: (other ++ ['}'] ++ flatten rest) :=
          fun hp => hsame (name_eq_of_braced hname hother hp).symm
        have hno : '{' ∉ other ++ ['}'] := by simpa using hother.1
        show replace (braced name) value ('{' :: (other ++ ['}'] ++ flatten rest)) = _
        rw [replace_cons hstart, replace_of_no_open hno]
        rfl
      · intro hp
        cases (List.cons_prefix_cons.mp hp).1
  | .text c :: rest, hlength =>
    by_cases hneedle : braced name <+: c :: flatten rest
    · obtain ⟨rfl, tail, htail⟩ := List.cons_prefix_cons.mp hneedle
      have hflat : flatten rest = name ++ '}' :: tail :=
        htail.symm.trans (List.append_assoc name ['}'] tail)
      obtain ⟨remaining, rfl, -⟩ := parts_of_text hname hflat
      have hshort : remaining.length < n := by
        simp only [List.length_cons, List.length_append] at hlength
        omega
      obtain ⟨after, hafter⟩ := ih _ hshort remaining
        (fun m hm => hslots m (List.mem_cons_of_mem _ (List.mem_append_right _ hm))) rfl
      exact ⟨_, hafter.spelled hvalue⟩
    · have hrest : rest.length < n := by simp only [List.length_cons] at hlength; omega
      obtain ⟨after, hafter⟩ :=
        ih _ hrest rest (fun m hm => hslots m (List.mem_cons_of_mem _ hm)) rfl
      refine ⟨_, hafter.kept (replace_cons hneedle) (by simp) ?_⟩
      rintro ⟨tail, htail⟩
      refine hneedle ⟨flatten tail, ?_⟩
      have hflat := congrArg flatten htail
      rwa [flatten_append, flatten_texts] at hflat

theorem respelled_cons_iff {name value : List Char} {bindings : Bindings} {parts : List Part} :
    Respelled ((name, value) :: bindings) parts ↔
      Spells name parts ∨ Respelled bindings (fill [(name, value)] parts) := by
  constructor
  · rintro ⟨before, other, v, after, heq, hsp⟩
    cases before with
    | nil =>
      obtain ⟨heq, -⟩ := List.cons.inj heq
      obtain ⟨rfl, -⟩ := Prod.mk.inj heq
      rw [fill_nil] at hsp
      exact .inl hsp
    | cons first before =>
      obtain ⟨rfl, rfl⟩ := List.cons.inj heq
      exact .inr ⟨before, other, v, after, rfl, by rwa [fill_fill]⟩
  · rintro (hsp | ⟨before, other, v, after, rfl, hsp⟩)
    · exact ⟨[], name, value, bindings, rfl, by rwa [fill_nil]⟩
    · exact ⟨(name, value) :: before, other, v, after, rfl, by rwa [← fill_fill]⟩

/-- What replacing all placeholders does to the parts of a text. -/
structure ReplacedAll (bindings : Bindings) (parts after : List Part) : Prop where
  chars : replaceAll bindings (flatten parts) = flatten after
  slots : ∀ other, Part.slot other ∈ after →
    Part.slot other ∈ parts ∧ other ∉ bindings.map Prod.fst
  opens_le : opens after ≤ opens parts
  opens_lt : Respelled bindings parts → opens after < opens parts
  filled : ¬ Respelled bindings parts → after = fill bindings parts

theorem exists_replacedAll {bindings : Bindings}
    (hbindings : ∀ binding ∈ bindings, BraceFree binding.1 ∧ '{' ∉ binding.2)
    (parts : List Part) (hslots : ∀ other, Part.slot other ∈ parts → BraceFree other) :
    ∃ after, ReplacedAll bindings parts after := by
  induction bindings generalizing parts with
  | nil =>
    refine ⟨parts, rfl, fun other hother => ⟨hother, by simp⟩, le_refl _, ?_,
      fun _ => (fill_nil parts).symm⟩
    rintro ⟨before, name, value, after, heq, -⟩
    simp at heq
  | cons binding bindings ih =>
    obtain ⟨name, value⟩ := binding
    obtain ⟨hname, hvalue⟩ := hbindings _ List.mem_cons_self
    obtain ⟨between, hone⟩ := exists_replaced hname hvalue parts hslots
    obtain ⟨after, hrest⟩ := ih (fun b hb => hbindings b (List.mem_cons_of_mem _ hb)) between
      (fun other hother => hslots other (hone.slots other hother).1)
    refine ⟨after, ?_, ?_, ?_, ?_, ?_⟩
    · rw [← hrest.chars, ← hone.chars]
      rfl
    · intro other hother
      obtain ⟨hmem, hnot⟩ := hrest.slots other hother
      obtain ⟨hmem, hne⟩ := hone.slots other hmem
      exact ⟨hmem, by simpa [hne] using hnot⟩
    · exact hrest.opens_le.trans hone.opens_le
    · intro hre
      by_cases hsp : Spells name parts
      · exact hrest.opens_le.trans_lt (hone.opens_lt hsp)
      · have hlater := (respelled_cons_iff.mp hre).resolve_left hsp
        rw [← hone.filled hsp] at hlater
        exact (hrest.opens_lt hlater).trans_le hone.opens_le
    · intro hre
      have hsp : ¬ Spells name parts := fun h => hre (respelled_cons_iff.mpr (.inl h))
      have hbetween := hone.filled hsp
      have hlater : ¬ Respelled bindings between := fun h =>
        hre (respelled_cons_iff.mpr (.inr (hbetween ▸ h)))
      rw [hrest.filled hlater, hbetween, fill_fill]

end CapabilityCompiler.Foundation.Template
