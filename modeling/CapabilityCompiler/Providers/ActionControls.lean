import CapabilityCompiler.Execution.Filling
import CapabilityCompiler.Providers.ActionRequest

/-! The controls of the Runtime in the request of a mutation: what stands at their positions is
what the Runtime put there, and the rest of the request comes from the arguments. -/
namespace CapabilityCompiler.Providers
open Foundation Models Actions Policies Execution

/-- A value that nothing can be put into. -/
def Leaf (value : Json) : Prop := ∀ fields, value ≠ .obj fields

/-- The parts of a body, each with the tokens of its pointer. -/
abbrev Placements := List (List String × Json)

/-- The leaves of a body are the leaves of its parts, each in its place; objects of the parts are
objects of the body. -/
structure Assembled (parts : Placements) (body : Fields) : Prop where
  leaves : ∀ path x, Leaf x → (lookup (.obj body) path = some x ↔
    ∃ part ∈ parts, ∃ rest, path = part.1 ++ rest ∧ lookup part.2 rest = some x)
  objects : ∀ part ∈ parts, ∀ rest fields, lookup part.2 rest = some (.obj fields) →
    ∃ more, lookup (.obj body) (part.1 ++ rest) = some (.obj more)

/-- A value at a path leaves no room for another one at the tokens. -/
def Collides (tokens path : List String) (value : Json) : Prop :=
  tokens <+: path ∨ path <+: tokens ∧ Leaf value

section body
variable {operation : ActionOperation} {value x : Json} {tokens path : List String}
  {body filled : Fields} {parts : Placements}

theorem lookup_append (v : Json) (front rest : List String) :
    lookup v (front ++ rest) = (lookup v front).bind fun child => lookup child rest := by
  induction front generalizing v with
  | nil => rfl
  | cons token front ih =>
    cases v with
    | obj fields =>
      rw [List.cons_append, lookup, lookup]
      cases Json.field? token fields with
      | none => rfl
      | some child => exact ih child
    | _ => rfl

theorem lookup_leaf_cons (h : Leaf x) (token : String) (rest : List String) :
    lookup x (token :: rest) = none := by
  cases x with
  | obj fields => exact absurd rfl (h fields)
  | _ => rfl

def bodyParent? : Option Json → Option Fields
  | none => some []
  | some (.obj existing) => some existing
  | some _ => none

theorem enters_bodyParent? : Enters bodyParent? where
  absent := rfl
  object _ := rfl
  entered x child h := by
    cases x with
    | obj fields => exact .inl (by simpa [bodyParent?] using h)
    | _ => simp [bodyParent?] at h

/-- A value was put where nothing was, through objects only. -/
structure Injected (value : Json) (tokens : List String) (body filled : Fields) : Prop where
  result : filled = fillWith bodyParent? value tokens body
  free : lookup (.obj body) tokens = none
  placed : lookup (.obj filled) tokens = some value
  entered : ∀ path x, path <+: tokens → lookup (.obj body) path = some x → ¬ Leaf x

/-- Going into an object on the way. -/
theorem Injected.cons {token next : String} {rest : List String} {existing child : Fields}
    (h : Injected value (next :: rest) existing child)
    (hparent : bodyParent? (Json.field? token body) = some existing) :
    Injected value (token :: next :: rest) body (setField token (.obj child) body) := by
  refine ⟨?_, ?_, ?_, ?_⟩
  · rw [fillWith_cons_cons, hparent, h.result]
  · rw [lookup]
    cases hfield : Json.field? token body with
    | none => rfl
    | some found =>
      rw [hfield] at hparent
      obtain rfl : found = .obj existing := by
        cases found <;> simp_all [bodyParent?]
      exact h.free
  · rw [lookup, field?_setField, if_pos rfl]
    exact h.placed
  · intro path x hpath hlookup hleaf
    cases path with
    | nil => exact hleaf body (Option.some.inj hlookup).symm
    | cons part path =>
      obtain ⟨rfl, hrest⟩ := List.cons_prefix_cons.mp hpath
      rw [lookup] at hlookup
      obtain ⟨found, hfield, hlookup⟩ := Option.bind_eq_some_iff.mp hlookup
      rw [hfield] at hparent
      obtain rfl : found = .obj existing := by
        cases found <;> simp_all [bodyParent?]
      exact h.entered path x hrest hlookup hleaf

theorem injectBodyTokens_cons_cons (token next : String) (rest : List String) :
    HttpProvider.injectBodyTokens operation value (token :: next :: rest) body =
      match bodyParent? (Json.field? token body) with
      | some existing =>
        (HttpProvider.injectBodyTokens operation value (next :: rest) existing).map
          fun child => setField token (.obj child) body
      | none =>
        .error (HttpProvider.operationError operation "Action request body mappings conflict") := by
  rw [HttpProvider.injectBodyTokens]
  · cases Json.field? token body with
    | none => rfl
    | some found => cases found <;> rfl
  · simp

theorem injected_of_ok (h : HttpProvider.injectBodyTokens operation value tokens body = .ok filled) :
    Injected value tokens body filled := by
  induction tokens generalizing body filled with
  | nil => cases h
  | cons token rest ih =>
    cases rest with
    | nil =>
      rw [HttpProvider.injectBodyTokens] at h
      split_ifs at h with hfree
      obtain rfl := Except.ok.inj h
      have hnone : Json.field? token body = none := by simpa using hfree
      refine ⟨?_, ?_, ?_, ?_⟩
      · rw [fillWith, if_neg hfree]
      · rw [lookup, hnone]
        rfl
      · rw [lookup, field?_setField, if_pos rfl]
        rfl
      · intro path x hpath hlookup hleaf
        cases path with
        | nil => exact hleaf body (Option.some.inj hlookup).symm
        | cons part path =>
          obtain ⟨rfl, -⟩ := List.cons_prefix_cons.mp hpath
          rw [lookup, hnone] at hlookup
          cases hlookup
    | cons next rest =>
      rw [injectBodyTokens_cons_cons] at h
      cases hparent : bodyParent? (Json.field? token body) with
      | none => rw [hparent] at h; cases h
      | some existing =>
        rw [hparent] at h
        simp only at h
        cases hchild : HttpProvider.injectBodyTokens operation value (next :: rest) existing with
        | error e => rw [hchild] at h; cases h
        | ok child =>
          rw [hchild] at h
          obtain rfl := Except.ok.inj h
          exact (ih hchild).cons hparent

/-- Leaves stay where they are. -/
theorem Injected.leaf_stays (h : Injected value tokens body filled) (hx : Leaf x)
    (hlookup : lookup (.obj body) path = some x) : lookup (.obj filled) path = some x := by
  have hreaches : Reaches path tokens := fun rest _ heq =>
    h.entered path x ⟨rest, heq.symm⟩ hlookup hx
  rw [h.result]
  exact lookup_fillWith enters_bodyParent? hreaches hlookup

/-- Objects stay objects. -/
theorem Injected.object_stays {fields : Fields} (h : Injected value tokens body filled)
    (hlookup : lookup (.obj body) path = some (.obj fields)) :
    ∃ more, lookup (.obj filled) path = some (.obj more) := by
  by_cases hreaches : Reaches path tokens
  · rw [h.result]
    exact ⟨fields, lookup_fillWith enters_bodyParent? hreaches hlookup⟩
  · simp only [Reaches, not_forall, not_not] at hreaches
    obtain ⟨rest, hrest, rfl⟩ := hreaches
    obtain ⟨token, rest, rfl⟩ := List.exists_cons_of_ne_nil hrest
    have hplaced := h.placed
    rw [lookup_append] at hplaced
    obtain ⟨found, hfound, hvalue⟩ := Option.bind_eq_some_iff.mp hplaced
    cases found with
    | obj more => exact ⟨more, hfound⟩
    | _ => cases hvalue

/-- A leaf was there before or is part of the value. -/
theorem Injected.leaf_cases (h : Injected value tokens body filled) (hx : Leaf x)
    (hlookup : lookup (.obj filled) path = some x) :
    lookup (.obj body) path = some x ∨
      ∃ rest, path = tokens ++ rest ∧ lookup value rest = some x := by
  have hreaches : Reaches path tokens := by
    rintro rest hrest rfl
    obtain ⟨token, rest, rfl⟩ := List.exists_cons_of_ne_nil hrest
    have hplaced := h.placed
    rw [lookup_append, hlookup, Option.bind_some, lookup_leaf_cons hx] at hplaced
    cases hplaced
  cases hbefore : lookup (.obj body) path with
  | none =>
    rw [h.result] at hlookup
    exact .inr (lookup_of_fillWith enters_bodyParent? hreaches hbefore hlookup)
  | some y =>
    have hafter : lookup (.obj (fillWith bodyParent? value tokens body)) path = some y :=
      lookup_fillWith enters_bodyParent? hreaches hbefore
    rw [← h.result, hlookup] at hafter
    exact .inl hafter.symm

theorem assembled_nil : Assembled [] [] where
  leaves path x hx := by
    constructor
    · intro h
      cases path with
      | nil => exact absurd (Option.some.inj h).symm (hx [])
      | cons token rest => cases h
    · rintro ⟨part, hpart, -⟩
      cases hpart
  objects part hpart := by cases hpart

theorem Assembled.append (h : Assembled parts body) (hinjected : Injected value tokens body filled) :
    Assembled (parts ++ [(tokens, value)]) filled where
  leaves path x hx := by
    constructor
    · intro hlookup
      rcases hinjected.leaf_cases hx hlookup with hbefore | hvalue
      · obtain ⟨part, hpart, hrest⟩ := (h.leaves path x hx).mp hbefore
        exact ⟨part, List.mem_append_left _ hpart, hrest⟩
      · exact ⟨_, List.mem_append_right _ List.mem_cons_self, hvalue⟩
    · rintro ⟨part, hpart, rest, rfl, hrest⟩
      rcases List.mem_append.mp hpart with hpart | hpart
      · exact hinjected.leaf_stays hx ((h.leaves _ x hx).mpr ⟨part, hpart, rest, rfl, hrest⟩)
      · obtain rfl := List.mem_singleton.mp hpart
        rw [lookup_append, hinjected.placed]
        exact hrest
  objects part hpart rest fields hfields := by
    rcases List.mem_append.mp hpart with hpart | hpart
    · obtain ⟨more, hmore⟩ := h.objects part hpart rest fields hfields
      exact hinjected.object_stays hmore
    · obtain rfl := List.mem_singleton.mp hpart
      refine ⟨fields, ?_⟩
      rw [lookup_append, hinjected.placed]
      exact hfields

/-- Where a value was put, no part of the body left no room for it. -/
theorem Assembled.not_collides (h : Assembled parts body)
    (hinjected : Injected value tokens body filled) {part : List String × Json}
    (hpart : part ∈ parts) {rest : List String} (hrest : lookup part.2 rest = some x) :
    ¬ Collides tokens (part.1 ++ rest) x := by
  have hfound : ∃ y, lookup (.obj body) (part.1 ++ rest) = some y ∧ (Leaf x → Leaf y) := by
    by_cases hx : Leaf x
    · exact ⟨x, (h.leaves _ x hx).mpr ⟨part, hpart, rest, rfl, hrest⟩, id⟩
    · simp only [Leaf, not_forall, not_not] at hx
      obtain ⟨fields, rfl⟩ := hx
      obtain ⟨more, hmore⟩ := h.objects part hpart rest fields hrest
      exact ⟨_, hmore, fun hx => absurd rfl (hx fields)⟩
  obtain ⟨y, hy, hleaf⟩ := hfound
  rintro (⟨more, hmore⟩ | ⟨hbegins, hx⟩)
  · rw [← hmore, lookup_append, hinjected.free] at hy
    cases hy
  · exact hinjected.entered _ y hbegins hy (hleaf hx)

end body

def idempotencyControls (operation : ActionOperation) (call : ActionCall) :
    List (RuntimeInjectionTarget × Json) :=
  match operation.http.safety.idempotency with
  | .sourceKey target => [(target, .str call.idempotencyKey)]
  | _ => []

def concurrencyControls (operation : ActionOperation) (call : ActionCall) :
    List (RuntimeInjectionTarget × Json) :=
  match operation.http.safety.concurrency with
  | .required _ target => [(target, call.concurrencyToken)]
  | _ => []

/-- The positions of the controls, in the order of their injection, with the values of the
Runtime. -/
def controls (operation : ActionOperation) (call : ActionCall) :
    List (RuntimeInjectionTarget × Json) :=
  idempotencyControls operation call ++ concurrencyControls operation call

def bodyControl? : RuntimeInjectionTarget × Json → Option (List String × Json)
  | (.body pointer, value) => some (HttpProvider.pointerTokens pointer, value)
  | (.header _, _) => none

def headerControl? : RuntimeInjectionTarget × Json → Option (String × Json)
  | (.header name, value) => some (name, value)
  | (.body _, _) => none

/-- What the arguments put into the body. -/
def argumentParts (operation : ActionOperation) (arguments : Fields) : Placements :=
  match operation.http.request with
  | none => []
  | some request => request.bodyParameters.filterMap fun parameter =>
      (Json.field? parameter.2 arguments).map fun value =>
        (HttpProvider.pointerTokens parameter.1, value)

/-- A header of a control as it is sent. -/
def renderControl (host : HttpHost) (operation : ActionOperation) (control : String × Json) :
    Except RuntimeError (String × String) :=
  (HttpProvider.headerScalar host operation control.2).map fun rendered => (control.1, rendered)

/-- Some argument stands in the way of a control of the body. -/
def Conflicts (operation : ActionOperation) (arguments : Fields) (call : ActionCall) : Prop :=
  ∃ control ∈ (controls operation call).filterMap bodyControl?,
    ∃ part ∈ argumentParts operation arguments, ∃ rest x,
      lookup part.2 rest = some x ∧ Collides control.1 (part.1 ++ rest) x

/-- Headers were added to the first ones, and no other header has their name. -/
structure HeadersHeld (host : HttpHost) (base injected headers : Headers) : Prop where
  all : headers = base ++ injected
  alone : ∀ header ∈ injected,
    headers.filter (fun other => host.casefold other.1 = host.casefold header.1) = [header]

/-- A request carries the controls where they are declared, and besides them what the arguments
and the authentication give. -/
structure ControlsHeld (host : HttpHost) (operation : ActionOperation) (arguments : Fields)
    (call : ActionCall) (request : HttpRequest) : Prop where
  method : request.method = operation.http.method
  url : ∃ baseUrl, call.baseUrl = .ok baseUrl ∧
    HttpProvider.requestUrl host.printer baseUrl operation.toExecutableOperation arguments =
      .ok request.url
  headers : ∃ attempt base injected, call.authorize = .ok attempt ∧
    HttpProvider.requestHeaders host operation attempt = .ok base ∧
    ((controls operation call).filterMap headerControl?).mapM (renderControl host operation) =
      .ok injected ∧
    HeadersHeld host base
      (injected ++ if request.content.isSome then [("Content-Type", "application/json")] else [])
      request.headers
  body : match request.content with
    | none => operation.http.request = none ∧
        (controls operation call).filterMap bodyControl? = []
    | some content => ∃ body, content = host.printer.dumps (.obj body) ∧
        Assembled (argumentParts operation arguments ++
          (controls operation call).filterMap bodyControl?) body ∧
        ∀ pointer value tokens, (.body pointer, value) ∈ controls operation call →
          JsonPointer.tokens? pointer = some tokens → tokens ≠ [] →
            lookup (.obj body) tokens = some value

section draft
variable {host : HttpHost} {operation : ActionOperation} {arguments : Fields} {call : ActionCall}
  {base injected headers after : Headers}

theorem HeadersHeld.inject {name value : String} (h : HeadersHeld host base injected headers)
    (hinject : HttpProvider.injectHeader host operation headers name value = .ok after) :
    HeadersHeld host base (injected ++ [(name, value)]) after := by
  unfold HttpProvider.injectHeader at hinject
  split_ifs at hinject with hconflict
  have hfree : ∀ other ∈ headers, host.casefold other.1 ≠ host.casefold name := by
    simpa using hconflict
  have habsent : Table.get? name headers = none := by
    cases hfound : Table.get? name headers with
    | none => rfl
    | some found => exact absurd rfl (hfree _ (Table.mem_of_get? hfound))
  obtain rfl : headers ++ [(name, value)] = after := by
    rw [← Table.put_of_get?_none habsent]
    exact Except.ok.inj hinject
  refine ⟨by rw [h.all, List.append_assoc], fun header hheader => ?_⟩
  rw [List.filter_append]
  rcases List.mem_append.mp hheader with hheader | hheader
  · have hne : host.casefold name ≠ host.casefold header.1 :=
      (hfree header (h.all ▸ List.mem_append_right _ hheader)).symm
    rw [h.alone header hheader]
    simp [hne]
  · obtain rfl := List.mem_singleton.mp hheader
    have hnone : headers.filter (fun other => host.casefold other.1 = host.casefold name) = [] := by
      simpa using hfree
    rw [hnone]
    simp

/-- How far the injection of controls has come. -/
structure Progress (host : HttpHost) (operation : ActionOperation) (arguments : Fields)
    (base : Headers) (done : List (RuntimeInjectionTarget × Json))
    (draft : HttpProvider.Draft) : Prop where
  headers : ∃ injected, (done.filterMap headerControl?).mapM (renderControl host operation) =
      .ok injected ∧ HeadersHeld host base injected draft.headers
  declared : draft.body.isSome = operation.http.request.isSome
  bodiless : draft.body = none → done.filterMap bodyControl? = []
  assembled : ∀ body, draft.body = some body →
    Assembled (argumentParts operation arguments ++ done.filterMap bodyControl?) body
  placed : ∀ body, draft.body = some body → ∀ control ∈ done.filterMap bodyControl?,
    lookup (.obj body) control.1 = some control.2
  clear : ∀ control ∈ done.filterMap bodyControl?, ∀ part ∈ argumentParts operation arguments,
    ∀ rest x, lookup part.2 rest = some x → ¬ Collides control.1 (part.1 ++ rest) x

/-- One more control, after those whose values nothing can be put into. -/
theorem Progress.inject {done : List (RuntimeInjectionTarget × Json)}
    {draft next : HttpProvider.Draft} {target : RuntimeInjectionTarget} {value : Json}
    (h : Progress host operation arguments base done draft)
    (hleaf : ∀ control ∈ done, Leaf control.2)
    (hinject : HttpProvider.injectRuntimeTarget host operation draft target value = .ok next) :
    Progress host operation arguments base (done ++ [(target, value)]) next := by
  cases target with
  | header name =>
    obtain ⟨rendered, hrendered, hinject⟩ := exists_of_bind hinject
    obtain ⟨headers, hheaders, hnext⟩ := exists_of_bind hinject
    obtain rfl := Except.ok.inj hnext
    obtain ⟨injected, hinjected, hheld⟩ := h.headers
    have hbodies : (done ++ [(RuntimeInjectionTarget.header name, value)]).filterMap bodyControl? =
        done.filterMap bodyControl? := by
      simp [List.filterMap_append, bodyControl?]
    refine ⟨⟨injected ++ [(name, rendered)], ?_, hheld.inject hheaders⟩, h.declared, ?_, ?_, ?_, ?_⟩
    · rw [List.filterMap_append]
      exact mapM_concat hinjected (by rw [renderControl, hrendered]; rfl)
    all_goals rw [hbodies]
    · exact h.bodiless
    · exact h.assembled
    · exact h.placed
    · exact h.clear
  | body pointer =>
    unfold HttpProvider.injectRuntimeTarget at hinject
    cases hbody : draft.body with
    | none => simp only [hbody] at hinject; cases hinject
    | some body =>
      simp only [hbody] at hinject
      obtain ⟨filled, hfilled, hnext⟩ := exists_of_bind hinject
      obtain rfl := Except.ok.inj hnext
      have hinjected : Injected value (HttpProvider.pointerTokens pointer) body filled :=
        injected_of_ok hfilled
      have hassembled := h.assembled body hbody
      have hheaders : (done ++ [(RuntimeInjectionTarget.body pointer, value)]).filterMap
          headerControl? = done.filterMap headerControl? := by
        simp [List.filterMap_append, headerControl?]
      have hbodies : (done ++ [(RuntimeInjectionTarget.body pointer, value)]).filterMap
          bodyControl? = done.filterMap bodyControl? ++
            [(HttpProvider.pointerTokens pointer, value)] := by
        simp [List.filterMap_append, bodyControl?]
      refine ⟨by rw [hheaders]; exact h.headers, ?_, by simp, ?_, ?_, ?_⟩
      · rw [← h.declared, hbody]
        rfl
      · rintro other hother
        obtain rfl := Option.some.inj hother
        rw [hbodies, ← List.append_assoc]
        exact hassembled.append hinjected
      · rintro other hother control hcontrol
        obtain rfl := Option.some.inj hother
        rw [hbodies] at hcontrol
        rcases List.mem_append.mp hcontrol with hcontrol | hcontrol
        · obtain ⟨source, hsource, hcontrolled⟩ := List.mem_filterMap.mp hcontrol
          have hvalue : control.2 = source.2 := by
            obtain ⟨target, x⟩ := source
            cases target with
            | header name => cases hcontrolled
            | body pointer => exact (congrArg Prod.snd (Option.some.inj hcontrolled)).symm
          exact hinjected.leaf_stays (hvalue ▸ hleaf source hsource)
            (h.placed body hbody control hcontrol)
        · obtain rfl := List.mem_singleton.mp hcontrol
          exact hinjected.placed
      · intro control hcontrol part hpart rest x hrest
        rw [hbodies] at hcontrol
        rcases List.mem_append.mp hcontrol with hcontrol | hcontrol
        · exact h.clear control hcontrol part hpart rest x hrest
        · obtain rfl := List.mem_singleton.mp hcontrol
          exact hassembled.not_collides hinjected (List.mem_append_left _ hpart) hrest

theorem leaf_str (s : String) : Leaf (.str s) := fun _ h => by cases h

theorem Progress.injectIdempotency {draft next : HttpProvider.Draft}
    (h : Progress host operation arguments base [] draft)
    (hinject : HttpProvider.injectIdempotency host operation call.idempotencyKey draft = .ok next) :
    Progress host operation arguments base (idempotencyControls operation call) next ∧
      ∀ control ∈ idempotencyControls operation call, Leaf control.2 := by
  unfold HttpProvider.injectIdempotency at hinject
  unfold idempotencyControls
  cases hmode : operation.http.safety.idempotency with
  | sourceKey target =>
    rw [hmode] at hinject
    refine ⟨h.inject (by simp) hinject, fun control hcontrol => ?_⟩
    obtain rfl := List.mem_singleton.mp hcontrol
    exact leaf_str _
  | _ =>
    rw [hmode] at hinject
    obtain rfl := Except.ok.inj hinject
    exact ⟨h, by simp⟩

theorem Progress.injectConcurrency {done : List (RuntimeInjectionTarget × Json)}
    {draft next : HttpProvider.Draft} (h : Progress host operation arguments base done draft)
    (hleaf : ∀ control ∈ done, Leaf control.2)
    (hinject : HttpProvider.injectConcurrency host operation call.concurrencyToken draft =
      .ok next) :
    Progress host operation arguments base (done ++ concurrencyControls operation call) next := by
  unfold HttpProvider.injectConcurrency at hinject
  unfold concurrencyControls
  cases hmode : operation.http.safety.concurrency with
  | required token target =>
    simp only [hmode] at hinject
    split_ifs at hinject
    exact h.inject hleaf hinject
  | _ =>
    rw [hmode] at hinject
    obtain rfl := Except.ok.inj hinject
    simpa using h

theorem Progress.injectActionControls {draft next : HttpProvider.Draft}
    (h : Progress host operation arguments base [] draft)
    (hinject : HttpProvider.injectActionControls host operation call.idempotencyKey
      call.concurrencyToken draft = .ok next) :
    Progress host operation arguments base (controls operation call) next := by
  obtain ⟨keyed, hkeyed, hinject⟩ := exists_of_bind hinject
  obtain ⟨hprogress, hleaf⟩ := h.injectIdempotency hkeyed
  exact hprogress.injectConcurrency hleaf hinject

/-- The body of the arguments alone. -/
theorem assembled_foldlM {parameters : List (String × String)} {parts : Placements}
    {body filled : Fields} (h : Assembled parts body)
    (hfold : parameters.foldlM (fun body parameter =>
      match Json.field? parameter.2 arguments with
      | none => Except.ok body
      | some value => HttpProvider.injectBodyPointer operation body parameter.1 value) body =
        .ok filled) :
    Assembled (parts ++ parameters.filterMap fun parameter =>
      (Json.field? parameter.2 arguments).map fun value =>
        (HttpProvider.pointerTokens parameter.1, value)) filled := by
  induction parameters generalizing parts body with
  | nil =>
    obtain rfl := Except.ok.inj hfold
    simpa using h
  | cons parameter parameters ih =>
    rw [List.foldlM_cons] at hfold
    obtain ⟨between, hfirst, hrest⟩ := exists_of_bind hfold
    cases hvalue : Json.field? parameter.2 arguments with
    | none =>
      simp only [hvalue] at hfirst
      obtain rfl := Except.ok.inj hfirst
      rw [List.filterMap_cons_none (by rw [hvalue]; rfl)]
      exact ih h hrest
    | some value =>
      simp only [hvalue] at hfirst
      have hinjected : Injected value (HttpProvider.pointerTokens parameter.1) body between :=
        injected_of_ok hfirst
      have hparts := ih (h.append hinjected) hrest
      rw [List.append_assoc, List.singleton_append] at hparts
      rwa [List.filterMap_cons_some (by rw [hvalue]; rfl)]

/-- Before any control is injected. -/
theorem progress_nil {body : Option Fields}
    (hbody : HttpProvider.requestBody operation arguments = .ok body) :
    Progress host operation arguments base [] { headers := base, body } := by
  unfold HttpProvider.requestBody at hbody
  have hheaders : HeadersHeld host base [] base := ⟨by simp, by simp⟩
  cases hrequest : operation.http.request with
  | none =>
    rw [hrequest] at hbody
    obtain rfl := Except.ok.inj hbody
    exact ⟨⟨[], rfl, hheaders⟩, by rw [hrequest]; rfl, fun _ => rfl, by simp, by simp, by simp⟩
  | some request =>
    simp only [hrequest] at hbody
    obtain ⟨built, hbuilt, hsome⟩ := exists_of_bind hbody
    obtain rfl := Except.ok.inj hsome
    have hassembled := assembled_foldlM assembled_nil hbuilt
    refine ⟨⟨[], rfl, hheaders⟩, by rw [hrequest]; rfl, by simp, ?_, by simp, by simp⟩
    rintro other hother
    obtain rfl := Option.some.inj hother
    simpa [argumentParts, hrequest] using hassembled

theorem failing_eq_ok {α : Type} {result : Except RuntimeError α} {a : α}
    (h : HttpProvider.failing result = .ok a) : result = .ok a := by
  cases result with
  | error e => cases h
  | ok b => exact congrArg _ (Except.ok.inj h)

theorem authorize_of_attempt {attempt : RequestAttempt}
    (h : HttpProvider.authenticationAttempt operation call = .ok attempt) :
    call.authorize = .ok attempt := by
  obtain ⟨found, hfound, h⟩ := exists_of_bind h
  simp only at h
  split_ifs at h
  · cases h
  · rw [hfound, Except.ok.inj h]

/-- The encoded body. -/
theorem encoded_of_ok {body : Option Fields} {content : Option String}
    (hdeclared : body.isSome = operation.http.request.isSome)
    (h : HttpProvider.encodeRequestBody host operation body = .ok content) :
    match content with
    | none => operation.http.request = none ∧ body = none
    | some text => ∃ fields, body = some fields ∧ text = host.printer.dumps (.obj fields) := by
  unfold HttpProvider.encodeRequestBody at h
  cases hrequest : operation.http.request with
  | none =>
    rw [hrequest] at h hdeclared
    obtain rfl := Except.ok.inj h
    exact ⟨rfl, by simpa using hdeclared⟩
  | some request =>
    rw [hrequest] at h hdeclared
    obtain ⟨fields, rfl⟩ := Option.isSome_iff_exists.mp hdeclared
    simp only at h
    split_ifs at h
    obtain rfl := Except.ok.inj h
    exact ⟨fields, rfl, rfl⟩

theorem controlsHeld_of_prepared {request : HttpRequest}
    (h : HttpProvider.prepareRequest host operation arguments call = .ok request) :
    ControlsHeld host operation arguments call request ∧ ¬ Conflicts operation arguments call := by
  obtain ⟨-, -, h⟩ := exists_of_bind h
  obtain ⟨baseUrl, hbase, h⟩ := exists_of_bind h
  obtain ⟨url, hurl, h⟩ := exists_of_bind h
  obtain ⟨attempt, hattempt, h⟩ := exists_of_bind h
  obtain ⟨⟨sentHeaders, content⟩, hdraft, h⟩ := exists_of_bind h
  obtain rfl := Except.ok.inj h
  obtain ⟨base, hheaders, hdraft⟩ := exists_of_bind (failing_eq_ok hdraft)
  obtain ⟨body, hbody, hdraft⟩ := exists_of_bind hdraft
  obtain ⟨draft, hcontrols, hdraft⟩ := exists_of_bind hdraft
  obtain ⟨encoded, hencoded, hdraft⟩ := exists_of_bind hdraft
  have hstart : Progress host operation arguments base [] { headers := base, body } :=
    progress_nil hbody
  have hprogress := hstart.injectActionControls hcontrols
  have hconflicts : ¬ Conflicts operation arguments call := by
    rintro ⟨control, hcontrol, part, hpart, rest, x, hx, hcollides⟩
    exact hprogress.clear control hcontrol part hpart rest x hx hcollides
  have hcontent := encoded_of_ok hprogress.declared hencoded
  obtain ⟨injected, hinjected, hheld⟩ := hprogress.headers
  refine ⟨?_, hconflicts⟩
  cases encoded with
  | none =>
    obtain ⟨rfl, rfl⟩ := Prod.mk.inj (Except.ok.inj hdraft)
    obtain ⟨hrequest, hnone⟩ := hcontent
    exact
      { method := rfl
        url := ⟨baseUrl, failing_eq_ok hbase, failing_eq_ok hurl⟩
        headers := ⟨attempt, base, injected, authorize_of_attempt hattempt, hheaders, hinjected,
          by simpa using hheld⟩
        body := ⟨hrequest, hprogress.bodiless hnone⟩ }
  | some text =>
    obtain ⟨typed, htyped, hdraft⟩ := exists_of_bind hdraft
    obtain ⟨rfl, rfl⟩ := Prod.mk.inj (Except.ok.inj hdraft)
    obtain ⟨fields, hfields, htext⟩ := hcontent
    have hpointed : ∀ pointer value tokens, (.body pointer, value) ∈ controls operation call →
        JsonPointer.tokens? pointer = some tokens → tokens ≠ [] →
          lookup (.obj fields) tokens = some value := by
      intro pointer value tokens hcontrol htokens hne
      rw [← HttpProvider.pointerTokens_eq htokens hne]
      exact hprogress.placed fields hfields (HttpProvider.pointerTokens pointer, value)
        (List.mem_filterMap.mpr ⟨_, hcontrol, rfl⟩)
    exact
      { method := rfl
        url := ⟨baseUrl, failing_eq_ok hbase, failing_eq_ok hurl⟩
        headers := ⟨attempt, base, injected, authorize_of_attempt hattempt, hheaders, hinjected,
          hheld.inject htyped⟩
        body := ⟨fields, htext, hprogress.assembled fields hfields, hpointed⟩ }

/-- A mutation sends at most one request, which carries the controls of the Runtime where they
are declared and otherwise what the arguments give; a conflicting argument sends nothing. -/
theorem action_controls_held (host : HttpHost) (operation : ActionOperation) (arguments : Fields)
    (call : ActionCall) :
    (HttpProvider.callAction host operation arguments call).1.length ≤ 1 ∧
      (∀ request ∈ (HttpProvider.callAction host operation arguments call).1,
        ControlsHeld host operation arguments call request) ∧
      (Conflicts operation arguments call →
        (HttpProvider.callAction host operation arguments call).1 = [] ∧
          ∃ error, (HttpProvider.callAction host operation arguments call).2 = .error error) := by
  unfold HttpProvider.callAction HttpProvider.executeAction
  cases hprepared : HttpProvider.prepareRequest host operation arguments call with
  | error e => exact ⟨Nat.zero_le _, by simp, fun _ => ⟨rfl, _, rfl⟩⟩
  | ok request =>
    obtain ⟨hheld, hclear⟩ := controlsHeld_of_prepared hprepared
    refine ⟨le_refl _, ?_, fun hconflicts => absurd hconflicts hclear⟩
    intro other hother
    obtain rfl := List.mem_singleton.mp hother
    exact hheld

end draft

end CapabilityCompiler.Providers
