import CapabilityCompiler.Errors
import CapabilityCompiler.Foundation.Fallible
import CapabilityCompiler.Foundation.JsonText
import CapabilityCompiler.Foundation.Percent
import CapabilityCompiler.Foundation.Template
import CapabilityCompiler.Foundation.Text
import CapabilityCompiler.Models.Operations
import Mathlib.Data.List.TakeWhile

/-! The transport contract of an operation, and the URL its arguments are sent to. -/
namespace CapabilityCompiler.Providers
open Foundation Foundation.Percent Foundation.Template Models

/-- What `urlsplit` makes of a text that starts with a slash; such a text has no scheme. -/
structure SplitUrl where
  netloc : List Char
  path : List Char
  query : List Char
  fragment : List Char

/-- A text up to a separator, and what stands behind it. -/
def cut (sep : Char) (chars : List Char) : List Char × List Char :=
  (chars.takeWhile (· ≠ sep), (chars.dropWhile (· ≠ sep)).drop 1)

/-- The network location behind two slashes, and the rest. -/
def splitNetloc (url : List Char) : List Char × List Char :=
  match Text.dropPrefix? ['/', '/'] url with
  | some rest => (rest.takeWhile (· ∉ ['/', '?', '#']), rest.dropWhile (· ∉ ['/', '?', '#']))
  | none => ([], url)

/-- Tabs and line breaks are dropped before anything is split. -/
def urlsplit (value : List Char) : SplitUrl :=
  let url := value.filter (· ∉ ['\t', '\r', '\n'])
  let (netloc, rest) := splitNetloc url
  let (rest, fragment) := cut '#' rest
  let (path, query) := cut '?' rest
  { netloc, path, query, fragment }

/-- `_validate_origin_relative_path`. Decoding the bytes as text touches neither a backslash,
nor a slash, nor a dot. -/
def validateOriginRelativePath (value : List Char) : Bool :=
  let parsed := urlsplit value
  let decodedPath := unquote parsed.path
  parsed.netloc.isEmpty && parsed.query.isEmpty && parsed.fragment.isEmpty &&
    ['/'].isPrefixOf value && !(['/', '/'].isPrefixOf value) &&
    0x5c ∉ decodedPath && [0x2e, 0x2e] ∉ decodedPath.splitOn 0x2f

def isNameStart (c : Char) : Bool := c.isAlpha || c = '_'

def isNameRest (c : Char) : Bool := c.isAlphanum || c = '_' || c = '-'

/-- The name of the placeholder whose opening brace was just read. -/
def pathParameter? (chars : List Char) : Option (List Char) :=
  let name := chars.takeWhile isNameRest
  match name, chars.drop name.length with
  | first :: _, '}' :: _ => if isNameStart first then some name else none
  | _, _ => none

/-- The matches of `_PATH_PARAMETER` with the text around them. -/
def pathPartsFrom : ℕ → List Char → List Part
  | _, [] => []
  | skip + 1, _ :: cs => pathPartsFrom skip cs
  | 0, c :: cs =>
    match if c = '{' then pathParameter? cs else none with
    | some name => .slot name :: pathPartsFrom (name.length + 1) cs
    | none => .text c :: pathPartsFrom 0 cs

def pathParts (path : List Char) : List Part := pathPartsFrom 0 path

/-- `_PATH_PARAMETER.findall(path)`. -/
def placeholders (path : List Char) : List (List Char) :=
  (pathParts path).filterMap Part.name?

theorem pathPartsFrom_eq_drop (skip : ℕ) (chars : List Char) :
    pathPartsFrom skip chars = pathPartsFrom 0 (chars.drop skip) := by
  induction skip generalizing chars with
  | zero => rfl
  | succ skip ih =>
    cases chars with
    | nil => rfl
    | cons c cs => exact ih cs

theorem pathParameter?_eq_some {chars name : List Char} (h : pathParameter? chars = some name) :
    (∀ c ∈ name, isNameRest c = true) ∧ ∃ rest, chars = name ++ '}' :: rest := by
  unfold pathParameter? at h
  simp only at h
  split at h
  · rename_i rest hname hrest
    split_ifs at h
    obtain rfl := Option.some.inj h
    have hprefix : chars.takeWhile isNameRest <+: chars := List.takeWhile_prefix _
    have hwhole := List.prefix_iff_eq_append.mp hprefix
    rw [hrest] at hwhole
    exact ⟨fun c hc => List.mem_takeWhile_imp hc, rest, hwhole.symm⟩
  · cases h

/-- The parts of a path spell it. -/
theorem flatten_pathParts (path : List Char) : flatten (pathParts path) = path := by
  unfold pathParts
  induction hlength : path.length using Nat.strong_induction_on generalizing path with
  | _ n ih =>
  match path, hlength with
  | [], _ => rfl
  | c :: cs, hlength =>
    rw [pathPartsFrom]
    split
    · rename_i name hname
      split_ifs at hname with hc
      obtain ⟨-, rest, rfl⟩ := pathParameter?_eq_some hname
      have hshort : rest.length < n := by
        simp only [List.length_cons, List.length_append] at hlength
        omega
      have hdrop : (name ++ '}' :: rest).drop (name.length + 1) = rest := by simp
      rw [pathPartsFrom_eq_drop, hdrop, flatten_cons, ih _ hshort rest rfl, Part.chars, braced, hc]
      simp
    · have hshort : cs.length < n := by simp only [List.length_cons] at hlength; omega
      rw [flatten_cons, ih _ hshort cs rfl]
      rfl

/-- The names of placeholders are made of name characters. -/
theorem isNameRest_of_slot {path name : List Char} (h : Part.slot name ∈ pathParts path) :
    ∀ c ∈ name, isNameRest c = true := by
  unfold pathParts at h
  induction hlength : path.length using Nat.strong_induction_on generalizing path with
  | _ n ih =>
  match path, hlength with
  | [], _ => cases h
  | c :: cs, hlength =>
    rw [pathPartsFrom] at h
    split at h
    · rename_i other hother
      split_ifs at hother
      have hshort : (cs.drop (other.length + 1)).length < n := by
        simp only [List.length_cons] at hlength
        rw [List.length_drop]
        omega
      rcases List.mem_cons.mp h with hsame | hrest
      · obtain rfl := Part.slot.inj hsame
        exact (pathParameter?_eq_some hother).1
      · rw [pathPartsFrom_eq_drop] at hrest
        exact ih _ hshort hrest rfl
    · have hshort : cs.length < n := by simp only [List.length_cons] at hlength; omega
      rcases List.mem_cons.mp h with hsame | hrest
      · cases hsame
      · exact ih _ hshort hrest rfl

theorem mem_placeholders {path name : List Char} :
    name ∈ placeholders path ↔ Part.slot name ∈ pathParts path := by
  simp only [placeholders, List.mem_filterMap]
  constructor
  · rintro ⟨part, hmem, hname⟩
    cases part with
    | text c => cases hname
    | slot other => exact Option.some.inj hname ▸ hmem
  · exact fun h => ⟨_, h, rfl⟩

/-- A body is built from inputs at JSON Pointers. -/
structure JsonRequest where
  bodyParameters : List (String × String)
  maxRequestBytes : ℕ

/-- The transport contract of an operation: its path is relative to the origin, and its
placeholders are exactly the mapped ones. -/
structure HttpContract extends HttpOperation where
  path : String
  pathParameters : List (String × String)
  queryParameters : List (String × String)
  request : Option JsonRequest
  timeoutSeconds : ℕ
  path_relative : validateOriginRelativePath path.toList = true
  parameters_exact : ∀ name, name ∈ placeholders path.toList ↔
    name ∈ pathParameters.map fun parameter => parameter.1.toList

/-- What the provider needs of a compiled operation. -/
structure ExecutableOperation where
  id : String
  http : HttpContract

namespace HttpProvider

private def inputSchemaError (operation : ExecutableOperation) (message parameter : String) :
    RuntimeError where
  code := "ACC_RUNTIME_INPUT_SCHEMA_INVALID"
  status := 400
  message
  details := [("operation", .str operation.id), ("parameter", .str parameter)]

/-- A JSON number is finite, so the check for finite numbers cannot fail. -/
def queryScalar (printer : Printer) (value : Json) (inputName : String)
    (operation : ExecutableOperation) : Except RuntimeError String :=
  match value with
  | .bool b => .ok (if b then "true" else "false")
  | .str s => .ok s
  | .int n => .ok (toString n)
  | .float q => .ok (printer.floatRepr q)
  | _ => .error (inputSchemaError operation "mapped HTTP inputs must be scalar values" inputName)

def scalarParameter (printer : Printer) (arguments : Fields) (inputName : String)
    (operation : ExecutableOperation) : Except RuntimeError String :=
  match Json.field? inputName arguments with
  | none => .error (inputSchemaError operation "required mapped input is missing" inputName)
  | some value => queryScalar printer value inputName operation

/-- The value of a placeholder. -/
def pathValue (printer : Printer) (arguments : Fields) (operation : ExecutableOperation)
    (parameter : String × String) : Except RuntimeError (List Char × List Char) := do
  let value ← scalarParameter printer arguments parameter.2 operation
  if value ∈ [".", ".."] then
    .error (inputSchemaError operation "path parameter cannot be a traversal segment" parameter.2)
  else .ok (parameter.1.toList, value.toList)

/-- The quoted values replace the placeholders one after the other, in the text reached so far. -/
def requestPath (printer : Printer) (arguments : Fields) (operation : ExecutableOperation) :
    List (String × String) → List Char → Except RuntimeError (List Char)
  | [], path => .ok path
  | parameter :: parameters, path => do
    let (placeholder, value) ← pathValue printer arguments operation parameter
    requestPath printer arguments operation parameters
      (replace (braced placeholder) (quote value) path)

/-- A query parameter with one of its values. -/
def queryItem (printer : Printer) (operation : ExecutableOperation) (parameter : String × String)
    (value : Json) : Except RuntimeError (String × String) :=
  (queryScalar printer value parameter.2 operation).map fun text => (parameter.1, text)

def queryItems (printer : Printer) (arguments : Fields) (operation : ExecutableOperation)
    (parameter : String × String) : Except RuntimeError (List (String × String)) :=
  match Json.field? parameter.2 arguments with
  | none | some .null => .ok []
  | some (.arr items) => items.mapM (queryItem printer operation parameter)
  | some value => [value].mapM (queryItem printer operation parameter)

/-- `urlencode(query_items, doseq=True, safe="", quote_via=quote)`. -/
def urlencode : List (String × String) → List Char
  | [] => []
  | [item] => quote item.1.toList ++ '=' :: quote item.2.toList
  | item :: items =>
    quote item.1.toList ++ '=' :: quote item.2.toList ++ '&' :: urlencode items

def requestUrl (printer : Printer) (baseUrl : List Char) (operation : ExecutableOperation)
    (arguments : Fields) : Except RuntimeError (List Char) := do
  let path ← requestPath printer arguments operation operation.http.pathParameters
    operation.http.path.toList
  let items ← operation.http.queryParameters.mapM (queryItems printer arguments operation)
  let query := urlencode items.flatten
  return if query.isEmpty then baseUrl ++ path else baseUrl ++ path ++ '?' :: query

end HttpProvider

end CapabilityCompiler.Providers
