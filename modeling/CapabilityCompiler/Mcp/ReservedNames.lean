import CapabilityCompiler.Contracts.Validity
import CapabilityCompiler.Foundation.Text
import Mathlib.Data.List.DropRight

/-! The names of identities and credentials, and the two scans for them: of the arguments of a call, and
of the input schema of a tool. -/
namespace CapabilityCompiler.Mcp
open Foundation Foundation.Json

/-! Normalized names. -/

/-- `([A-Z]+)([A-Z][a-z])`, with an underscore between the groups. -/
def acronymBoundaries : List Char → List Char
  | a :: b :: c :: rest =>
    if a.isUpper && b.isUpper && c.isLower then a :: '_' :: acronymBoundaries (b :: c :: rest)
    else a :: acronymBoundaries (b :: c :: rest)
  | chars => chars

/-- `([a-z0-9])([A-Z])`, with an underscore between the groups. -/
def wordBoundaries : List Char → List Char
  | a :: b :: rest =>
    if (a.isLower || a.isDigit) && b.isUpper then a :: '_' :: wordBoundaries (b :: rest)
    else a :: wordBoundaries (b :: rest)
  | chars => chars

/-- `[^A-Za-z0-9]+`, replaced by an underscore. -/
def joinSeparators : List Char → List Char
  | [] => []
  | c :: rest =>
    if c.isAlphanum then c :: joinSeparators rest
    else if (joinSeparators rest).head? = some '_' then joinSeparators rest
    else '_' :: joinSeparators rest

def stripUnderscores (chars : List Char) : List Char :=
  (chars.dropWhile (· = '_')).rdropWhile (· = '_')

def isNameChar (c : Char) : Bool := c.isAlphanum || c = '_' || c = '-'

/-- The name of an expression `^name$`. -/
def exactProperty? (pattern : String) : Option String :=
  match pattern.toList with
  | '^' :: first :: rest =>
    if first.isAlpha && rest.getLast? = some '$' && rest.dropLast.all isNameChar then
      some (String.ofList (first :: rest.dropLast))
    else none
  | _ => none

/-- What the names rest on in the host: the compatibility normalization of texts, and the search for a
regular expression. ASCII texts are normal, and an exact expression finds its name, also before a final
line break. -/
structure NameHost where
  nfkc : String → String
  nfkc_ascii : ∀ text, (∀ c ∈ text.toList, c.toNat < 128) → nfkc text = text
  search : String → String → Bool
  search_exact : ∀ pattern name text, exactProperty? pattern = some name →
    search pattern text = true → text = name ∨ text = name ++ "\n"

/-- The normal form of a name. Only ASCII letters, digits and underscores are left when it is folded. -/
def normalizeSecurityName (host : NameHost) (name : String) : String :=
  String.ofList ((stripUnderscores (joinSeparators (wordBoundaries
    (acronymBoundaries (host.nfkc name).toList)))).map Char.toLower)

def compactName (name : String) : String := String.ofList (name.toList.filter (· ≠ '_'))

/-! Authentication material. -/

def deniedTenantWords : List String :=
  ["secret", "token", "password", "authorization", "credential", "credentials", "cookie", "cookies",
    "jwt", "bearer", "csrf"]

def deniedTenantPluralWords : List (String × String) :=
  [("cookies", "cookie"), ("credentials", "credential"), ("jwts", "jwt"), ("passwords", "password"),
    ("secrets", "secret"), ("tokens", "token")]

def sensitiveAuthCompactMarkers : List (String × String) :=
  [("accesstoken", "access_token"), ("refreshtoken", "refresh_token"), ("authtoken", "auth_token"),
    ("oauthtoken", "oauth_token"), ("idtoken", "id_token"), ("apitoken", "api_token"),
    ("jwttoken", "jwt_token"), ("sessiontoken", "session_token"),
    ("passwordhash", "password_hash"), ("authorizationheader", "authorization_header"),
    ("clientsecret", "client_secret"), ("apisecret", "api_secret"), ("apikey", "api_key"),
    ("xapikey", "api_key"), ("privatekey", "private_key"), ("setcookie", "set_cookie")]

/-- The marker of a normal form, from its words. -/
def wordMarker (words : List String) : Option String :=
  match (Text.sortedSet (words.filter (· ∈ deniedTenantWords))).head? with
  | some word => some word
  | none => match deniedTenantPluralWords.find? (·.1 ∈ words) with
    | some plural => some plural.2
    | none =>
      if "api" ∈ words ∧ ("key" ∈ words ∨ "keys" ∈ words) then some "api_key"
      else if "private" ∈ words ∧ ("key" ∈ words ∨ "keys" ∈ words) then some "private_key"
      else if "set" ∈ words ∧ "cookie" ∈ words then some "set_cookie"
      else none

def sensitiveAuthNameMarker (host : NameHost) (name : String) : Option String :=
  let normalized := normalizeSecurityName host name
  if normalized ∈ ["header", "headers"] then some normalized
  else match sensitiveAuthCompactMarkers.find? (·.1 = compactName normalized) with
    | some marker => some marker.2
    | none => wordMarker (Text.split '_' normalized)

/-! Reserved names. -/

def gatewayReservedArguments : List String :=
  ["access_token", "auth_state_handle", "authorization", "bearer", "cookie", "cookies", "credential",
    "credential_ref", "credentials", "effective_scopes", "gateway_session_id", "id_token", "jwt",
    "password", "principal", "principal_id", "refresh_token", "scope", "scopes", "source_scopes",
    "tenant_context", "token"]

/-- The reserved name that a name stands for. -/
def reservedArgumentName (host : NameHost) (value : String) : Option String :=
  let normalized := normalizeSecurityName host value
  if normalized ∈ gatewayReservedArguments then some normalized
  else match gatewayReservedArguments.find? fun name => compactName name = compactName normalized with
    | some name => some name
    | none => sensitiveAuthNameMarker host value

def reservedAmong (host : NameHost) (names : List String) : List String :=
  names.filterMap (reservedArgumentName host)

mutual

/-- A value and everything in it. -/
def valuesIn : Json → List Json
  | .obj fields => .obj fields :: valuesInFields fields
  | .arr items => .arr items :: valuesInItems items
  | value => [value]

def valuesInItems : List Json → List Json
  | [] => []
  | item :: rest => valuesIn item ++ valuesInItems rest

def valuesInFields : Fields → List Json
  | [] => []
  | (_, value) :: rest => valuesIn value ++ valuesInFields rest

end

def keysOf : Json → List String
  | .obj fields => fields.map Prod.fst
  | _ => []

/-- `_reserved_argument_names` -/
def reservedArgumentNames (host : NameHost) : Option Fields → List String
  | none => []
  | some arguments =>
    Text.sortedSet (reservedAmong host ((valuesIn (.obj arguments)).flatMap keysOf))

/-! Input schemas. -/

def schemaStringSequence? : Json → Option (List String)
  | .arr items => Contracts.stringList? items
  | _ => none

/-- `_pattern_is_provably_safe`; an expression of this form compiles. -/
def patternIsProvablySafe (host : NameHost) (pattern : String) : Bool :=
  match exactProperty? pattern with
  | some name => (reservedArgumentName host name).isNone
  | none => false

def invalidContract : List String := ["invalid_dynamic_name_contract"]

def dynamicName : List String := ["dynamic_reserved_name"]

def patternsFound (host : NameHost) (patterns : List String) : List String :=
  if patterns.all (patternIsProvablySafe host) then [] else dynamicName

/-- What is found for a list of names. -/
def sequenceFound (host : NameHost) (value : Json) : List String :=
  match schemaStringSequence? value with
  | some names => reservedAmong host names
  | none => invalidContract

/-- What a `propertyNames` schema adds; what it combines is not looked at. -/
def propertyNamesFound (host : NameHost) (constraint : Fields) : List String :=
  (match field? "const" constraint with
    | none => []
    | some (.str name) => reservedAmong host [name]
    | some _ => invalidContract) ++
  (match field? "enum" constraint with
    | none => []
    | some names => sequenceFound host names) ++
  match field? "pattern" constraint with
  | none => []
  | some (.str pattern) => patternsFound host [pattern]
  | some _ => dynamicName

/-- What one object of a schema adds. -/
def objectFound (host : NameHost) (fields : Fields) : List String :=
  (match field? "properties" fields with
    | some (.obj properties) => reservedAmong host (properties.map Prod.fst)
    | _ => []) ++
  (match field? "required" fields with
    | none => []
    | some required => sequenceFound host required) ++
  (match field? "patternProperties" fields with
    | none => []
    | some (.obj patterns) => patternsFound host (patterns.map Prod.fst)
    | some _ => invalidContract) ++
  match field? "propertyNames" fields with
  | none => []
  | some (.obj constraint) => propertyNamesFound host constraint
  | some _ => invalidContract

/-- `_reserved_schema_property_names`: every object in the schema is looked at, whatever it stands for. -/
def reservedSchemaPropertyNames (host : NameHost) (schema : Fields) : List String :=
  Text.sortedSet ((valuesIn (.obj schema)).flatMap fun
    | .obj fields => objectFound host fields
    | _ => [])

/-! The names that a value holds. -/

inductive Holds (name : String) : Json → Prop where
  | key {fields : Fields} {value : Json} (h : (name, value) ∈ fields) : Holds name (.obj fields)
  | field {fields : Fields} {key : String} {value : Json} (h : (key, value) ∈ fields)
      (hvalue : Holds name value) : Holds name (.obj fields)
  | item {items : List Json} {value : Json} (h : value ∈ items) (hvalue : Holds name value) :
      Holds name (.arr items)

theorem mem_valuesInItems {items : List Json} {part : Json} :
    part ∈ valuesInItems items ↔ ∃ item ∈ items, part ∈ valuesIn item := by
  induction items with
  | nil => simp [valuesInItems]
  | cons item rest ih => simp [valuesInItems, ih]

theorem mem_valuesInFields {fields : Fields} {part : Json} :
    part ∈ valuesInFields fields ↔ ∃ field ∈ fields, part ∈ valuesIn field.2 := by
  induction fields with
  | nil => simp [valuesInFields]
  | cons field rest ih => simp [valuesInFields, ih]

@[simp] theorem mem_valuesIn_arr {items : List Json} {part : Json} :
    part ∈ valuesIn (.arr items) ↔ part = .arr items ∨ ∃ item ∈ items, part ∈ valuesIn item := by
  rw [valuesIn, List.mem_cons, mem_valuesInItems]

@[simp] theorem mem_valuesIn_obj {fields : Fields} {part : Json} :
    part ∈ valuesIn (.obj fields) ↔
      part = .obj fields ∨ ∃ field ∈ fields, part ∈ valuesIn field.2 := by
  rw [valuesIn, List.mem_cons, mem_valuesInFields]

@[simp] theorem mem_valuesIn_self (value : Json) : value ∈ valuesIn value := by
  cases value <;> simp [valuesIn]

theorem valuesIn_trans {value part inner : Json} (hpart : part ∈ valuesIn value)
    (hinner : inner ∈ valuesIn part) : inner ∈ valuesIn value := by
  induction value with
  | arr items ih =>
    rcases mem_valuesIn_arr.mp hpart with rfl | ⟨item, hitem, hpart⟩
    · exact hinner
    · exact mem_valuesIn_arr.mpr (.inr ⟨item, hitem, ih item hitem hpart⟩)
  | obj fields ih =>
    rcases mem_valuesIn_obj.mp hpart with rfl | ⟨field, hfield, hpart⟩
    · exact hinner
    · exact mem_valuesIn_obj.mpr (.inr ⟨field, hfield, ih field hfield hpart⟩)
  | _ =>
    obtain rfl := List.mem_singleton.mp hpart
    exact hinner

theorem holds_of_mem {name : String} {value part : Json} (hpart : part ∈ valuesIn value)
    (hname : name ∈ keysOf part) : Holds name value := by
  induction value with
  | arr items ih =>
    rcases mem_valuesIn_arr.mp hpart with rfl | ⟨item, hitem, hpart⟩
    · exact absurd hname List.not_mem_nil
    · exact .item hitem (ih item hitem hpart)
  | obj fields ih =>
    rcases mem_valuesIn_obj.mp hpart with rfl | ⟨field, hfield, hpart⟩
    · obtain ⟨field, hfield, rfl⟩ := List.mem_map.mp hname
      exact .key hfield
    · exact .field hfield (ih field hfield hpart)
  | _ =>
    obtain rfl := List.mem_singleton.mp hpart
    exact absurd hname List.not_mem_nil

theorem holds_iff {name : String} {value : Json} :
    Holds name value ↔ ∃ part ∈ valuesIn value, name ∈ keysOf part := by
  constructor
  · intro h
    induction h with
    | key h => exact ⟨_, mem_valuesIn_self _, List.mem_map_of_mem h⟩
    | field h _ ih =>
      obtain ⟨part, hpart, hname⟩ := ih
      exact ⟨part, mem_valuesIn_obj.mpr (.inr ⟨_, h, hpart⟩), hname⟩
    | item h _ ih =>
      obtain ⟨part, hpart, hname⟩ := ih
      exact ⟨part, mem_valuesIn_arr.mpr (.inr ⟨_, h, hpart⟩), hname⟩
  · rintro ⟨part, hpart, hname⟩
    exact holds_of_mem hpart hname

section Found
variable {host : NameHost}

theorem reservedAmong_eq_nil {names : List String} :
    reservedAmong host names = [] ↔ ∀ name ∈ names, reservedArgumentName host name = none :=
  List.filterMap_eq_nil_iff

theorem sortedSet_eq_nil {values : List String} : Text.sortedSet values = [] ↔ values = [] := by
  simp only [List.eq_nil_iff_forall_not_mem, Text.mem_sortedSet]

/-- Arguments pass when they hold no reserved name at any depth. -/
theorem reservedArgumentNames_eq_nil {arguments : Fields} :
    reservedArgumentNames host (some arguments) = [] ↔
      ∀ name, Holds name (.obj arguments) → reservedArgumentName host name = none := by
  rw [reservedArgumentNames, sortedSet_eq_nil, reservedAmong_eq_nil]
  refine forall_congr' fun name => ?_
  rw [List.mem_flatMap, holds_iff]

/-! What an accepted schema introduces. -/

theorem sequenceFound_eq_nil {value : Json} (h : sequenceFound host value = []) :
    ∃ items, value = .arr items ∧
      ∀ name, .str name ∈ items → reservedArgumentName host name = none := by
  cases value with
  | arr items =>
    refine ⟨items, rfl, fun name hname => ?_⟩
    cases hnames : Contracts.stringList? items with
    | none => simp [sequenceFound, schemaStringSequence?, hnames, invalidContract] at h
    | some names =>
      simp only [sequenceFound, schemaStringSequence?, hnames] at h
      exact reservedAmong_eq_nil.mp h name (Contracts.mem_of_stringList? hnames hname)
  | _ => simp [sequenceFound, schemaStringSequence?, invalidContract] at h

theorem patternsFound_eq_nil {patterns : List String} :
    patternsFound host patterns = [] ↔
      ∀ pattern ∈ patterns, patternIsProvablySafe host pattern = true := by
  unfold patternsFound
  split_ifs with hall
  · exact ⟨fun _ => List.all_eq_true.mp hall, fun _ => rfl⟩
  · exact ⟨fun h => absurd h (by simp [dynamicName]), fun h => absurd (List.all_eq_true.mpr h) hall⟩

/-! A final line break. -/

theorem acronymBoundaries_append_break (chars : List Char) :
    acronymBoundaries (chars ++ ['\n']) = acronymBoundaries chars ++ ['\n'] := by
  induction chars using acronymBoundaries.induct with
  | case1 a b c rest hboundary ih =>
    simp only [List.cons_append] at ih ⊢
    rw [acronymBoundaries, acronymBoundaries, if_pos hboundary, if_pos hboundary, ih]
    rfl
  | case2 a b c rest hboundary ih =>
    simp only [List.cons_append] at ih ⊢
    rw [acronymBoundaries, acronymBoundaries, if_neg hboundary, if_neg hboundary, ih]
    rfl
  | case3 chars hshort =>
    match chars, hshort with
    | [], _ => rfl
    | [a], _ => rfl
    | [a, b], _ =>
      have hbreak : ('\n' : Char).isLower = false := rfl
      simp [acronymBoundaries, hbreak]
    | a :: b :: c :: rest, hshort => exact absurd rfl (hshort a b c rest)

theorem wordBoundaries_append_break (chars : List Char) :
    wordBoundaries (chars ++ ['\n']) = wordBoundaries chars ++ ['\n'] := by
  induction chars using wordBoundaries.induct with
  | case1 a b rest hboundary ih =>
    simp only [List.cons_append] at ih ⊢
    rw [wordBoundaries, wordBoundaries, if_pos hboundary, if_pos hboundary, ih]
    rfl
  | case2 a b rest hboundary ih =>
    simp only [List.cons_append] at ih ⊢
    rw [wordBoundaries, wordBoundaries, if_neg hboundary, if_neg hboundary, ih]
    rfl
  | case3 chars hshort =>
    match chars, hshort with
    | [], _ => rfl
    | [a], _ =>
      have hbreak : ('\n' : Char).isUpper = false := rfl
      simp [wordBoundaries, hbreak]
    | a :: b :: rest, hshort => exact absurd rfl (hshort a b rest)

/-- A separator at the end leaves at most an underscore there. -/
theorem joinSeparators_append_break (chars : List Char) :
    joinSeparators (chars ++ ['\n']) = joinSeparators chars ∨
      joinSeparators (chars ++ ['\n']) = joinSeparators chars ++ ['_'] := by
  have hbreak : ('\n' : Char).isAlphanum = false := rfl
  induction chars with
  | nil => exact .inr (by simp [joinSeparators, hbreak])
  | cons c rest ih =>
    rw [List.cons_append, joinSeparators, joinSeparators]
    by_cases hc : c.isAlphanum = true
    · rw [if_pos hc, if_pos hc]
      rcases ih with ih | ih
      · exact .inl (by rw [ih])
      · exact .inr (by rw [ih, List.cons_append])
    · rw [if_neg hc, if_neg hc]
      rcases ih with ih | ih
      · exact .inl (by rw [ih])
      · rw [ih]
        cases hrest : joinSeparators rest with
        | nil => exact .inl rfl
        | cons first more =>
          by_cases hfirst : first = '_'
          · exact .inr (by simp [hfirst])
          · exact .inr (by simp [hfirst])

theorem stripUnderscores_append (chars : List Char) :
    stripUnderscores (chars ++ ['_']) = stripUnderscores chars := by
  induction chars with
  | nil => rfl
  | cons c rest ih =>
    unfold stripUnderscores at ih ⊢
    by_cases hc : c = '_'
    · simpa [hc] using ih
    · have hkeep : decide (c = '_') = false := decide_eq_false hc
      simp only [List.cons_append, List.dropWhile_cons, hkeep, Bool.false_eq_true, if_false]
      exact List.rdropWhile_concat_pos (fun c => decide (c = '_')) (c :: rest) '_' rfl

/-- A name and the name with a line break behind it have one normal form. -/
theorem normalizeSecurityName_append_break {name : String}
    (hascii : ∀ c ∈ name.toList, c.toNat < 128) :
    normalizeSecurityName host (name ++ "\n") = normalizeSecurityName host name := by
  have hbroken : ∀ c ∈ (name ++ "\n").toList, c.toNat < 128 := by
    intro c hc
    rw [String.toList_append, List.mem_append] at hc
    rcases hc with hc | hc
    · exact hascii c hc
    · obtain rfl := List.mem_singleton.mp hc
      decide
  have htext : (name ++ "\n").toList = name.toList ++ ['\n'] := String.toList_append
  rw [normalizeSecurityName, normalizeSecurityName, host.nfkc_ascii _ hbroken,
    host.nfkc_ascii _ hascii, htext, acronymBoundaries_append_break, wordBoundaries_append_break]
  rcases joinSeparators_append_break (wordBoundaries (acronymBoundaries name.toList)) with h | h
  · rw [h]
  · rw [h, stripUnderscores_append]

/-- A name is reserved by its normal form. -/
theorem reservedArgumentName_congr {name other : String}
    (h : normalizeSecurityName host name = normalizeSecurityName host other) :
    reservedArgumentName host name = reservedArgumentName host other := by
  unfold reservedArgumentName sensitiveAuthNameMarker
  rw [h]

/-! Expressions. -/

theorem isNameChar_ascii {c : Char} (h : isNameChar c = true) : c.toNat < 128 := by
  have hletter : c.isAlpha = true → c.toNat < 128 := by
    intro hc
    rcases Bool.or_eq_true_iff.mp hc with hc | hc
    · have hbound : c.toNat ≤ 90 := (of_decide_eq_true hc).2
      omega
    · have hbound : c.toNat ≤ 122 := of_decide_eq_true (Bool.and_eq_true_iff.mp hc).2
      omega
  have hdigit : c.isDigit = true → c.toNat < 128 := by
    intro hc
    have hbound : c.toNat ≤ 57 := of_decide_eq_true (Bool.and_eq_true_iff.mp hc).2
    omega
  unfold isNameChar at h
  rw [Bool.or_eq_true, Bool.or_eq_true, decide_eq_true_eq, decide_eq_true_eq] at h
  rcases h with (h | rfl) | rfl
  · exact (Bool.or_eq_true_iff.mp h).elim hletter hdigit
  · decide
  · decide

theorem exactProperty?_ascii {pattern name : String} (h : exactProperty? pattern = some name) :
    ∀ c ∈ name.toList, c.toNat < 128 := by
  unfold exactProperty? at h
  split at h
  next first rest _ =>
    split_ifs at h with hform
    simp only [Bool.and_eq_true, List.all_eq_true] at hform
    obtain ⟨⟨hfirst, -⟩, hrest⟩ := hform
    obtain rfl := Option.some.inj h
    intro c hc
    rw [String.toList_ofList] at hc
    rcases List.mem_cons.mp hc with rfl | hc
    · exact isNameChar_ascii (by simp [isNameChar, Char.isAlphanum, hfirst])
    · exact isNameChar_ascii (hrest c hc)
  · exact absurd h (by simp)

/-- A safe expression finds no reserved name. -/
theorem reservedArgumentName_of_search {pattern name : String}
    (hsafe : patternIsProvablySafe host pattern = true) (hsearch : host.search pattern name = true) :
    reservedArgumentName host name = none := by
  unfold patternIsProvablySafe at hsafe
  cases hexact : exactProperty? pattern with
  | none => simp [hexact] at hsafe
  | some exact =>
    simp only [hexact, Option.isNone_iff_eq_none] at hsafe
    rcases host.search_exact pattern exact name hexact hsearch with rfl | rfl
    · exact hsafe
    · rw [← hsafe]
      exact reservedArgumentName_congr
        (normalizeSecurityName_append_break (exactProperty?_ascii hexact))

end Found
end CapabilityCompiler.Mcp
