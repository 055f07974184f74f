import CapabilityCompiler.Gateway.NotificationIsolation
import CapabilityCompiler.Gateway.RowCodec

/-! What the service creates is read back from its sealed row, and from no other row. -/
namespace CapabilityCompiler.Gateway
open Foundation

/-! Values. -/

/-- The fields as they are read back. -/
abbrev sortedFields (fields : Fields) : Fields :=
  Printer.sortKeys (Json.keySortedFields fields)

theorem keySorted_sortedScopes (scopes : Finset String) :
    (sortedScopes scopes).keySorted = sortedScopes scopes := by
  rw [sortedScopes, Json.keySorted, Json.keySortedItems_eq, List.map_map]
  rfl

theorem stringList_sortedScopes (scopes : Finset String) :
    stringList (sortedScopes scopes) = some (Text.sorted scopes) := by
  simp only [stringList, sortedScopes]
  induction Text.sorted scopes with
  | nil => rfl
  | cons scope rest ih =>
    rw [List.map_cons, List.mapM_cons, ih]
    rfl

theorem keySorted_timeJson (t : Option ℚ) : (timeJson t).keySorted = timeJson t := by
  cases t with
  | none => rfl
  | some t => rfl

theorem timeOf_timeJson (t : Option ℚ) : timeOf (timeJson t) = some t := by
  cases t with
  | none => rfl
  | some t => rfl

theorem keySorted_textJson (text : Option String) : (textJson text).keySorted = textJson text := by
  cases text with
  | none => rfl
  | some text => rfl

theorem keySorted_tenantJson (tenant : Option Fields) :
    (tenantJson tenant).keySorted = tenantJson (tenant.map sortedFields) := by
  cases tenant with
  | none => rfl
  | some fields => rfl

section Reading
variable {fields : Fields} {key : String}

theorem readString_sorted {text : String} (hunique : (fields.map Prod.fst).Nodup)
    (h : Json.field? key fields = some (.str text)) :
    readString (sortedFields fields) key = some text := by
  rw [readString, Json.field?_keySorted hunique, h]
  rfl

theorem readNumber_sorted {q : ℚ} (hunique : (fields.map Prod.fst).Nodup)
    (h : Json.field? key fields = some (.float q)) :
    readNumber (sortedFields fields) key = some q := by
  rw [readNumber, Json.field?_keySorted hunique, h]
  rfl

theorem readOptionalTime_sorted {t : Option ℚ} (hunique : (fields.map Prod.fst).Nodup)
    (h : Json.field? key fields = some (timeJson t)) :
    readOptionalTime (sortedFields fields) key = some t := by
  rw [readOptionalTime, Json.field?_keySorted hunique, h, Option.map_some, keySorted_timeJson]
  exact timeOf_timeJson t

theorem readOptionalString_sorted {text : Option String} (hunique : (fields.map Prod.fst).Nodup)
    (h : Json.field? key fields = some (textJson text)) :
    readOptionalString (sortedFields fields) key = some text := by
  rw [readOptionalString, Json.field?_keySorted hunique, h, Option.map_some, keySorted_textJson]
  cases text with
  | none => rfl
  | some text => rfl

theorem readStrings_sorted {scopes : Finset String} (hunique : (fields.map Prod.fst).Nodup)
    (h : Json.field? key fields = some (sortedScopes scopes)) :
    readStrings (sortedFields fields) key = some (Text.sorted scopes) := by
  rw [readStrings, Json.field?_keySorted hunique, h, Option.map_some, keySorted_sortedScopes,
    Option.bind_some, stringList_sortedScopes]

theorem readTenant_sorted {tenant : Option Fields} (hunique : (fields.map Prod.fst).Nodup)
    (h : Json.field? "tenant_context" fields = some (tenantJson tenant)) :
    readTenant (sortedFields fields) = some (tenant.map sortedFields) := by
  rw [readTenant, Json.field?_keySorted hunique, h, Option.map_some, keySorted_tenantJson]
  cases tenant with
  | none => rfl
  | some fields => rfl

end Reading

/-! Contexts. -/

/-- A context that a session of the service can have: what it is built from is valid, and its
effective scopes come from source scopes and stay under the ceiling. -/
structure ServiceContext (context : PrincipalContext) (sessionId : String)
    (scopes : Finset String) : Prop where
  valid : ValidContext context
  session : context.gatewaySessionId = some sessionId
  source : context.sourceScopes = some scopes
  under : context.effectiveScopes ⊆ context.deploymentScopeCeiling
  mapped : scopes = ∅ → context.effectiveScopes = ∅

section Contexts
variable {context : PrincipalContext} {sessionId : String} {scopes : Finset String}

theorem PrincipalContext.build?_of_valid {mapping : ScopeMapping} (h : ValidContext context)
    (hmapping : validatedMapping mapping = true)
    (heffective : mapEffectiveScopes context.sourceScopes context.deploymentScopeCeiling mapping =
      context.effectiveScopes) (tenant : Option Fields) :
    PrincipalContext.build? context.principalId context.gatewaySessionId context.targetSystemId
      context.sourceScopes context.deploymentScopeCeiling (tenant.map .document)
      context.authStateHandle mapping = some { context with tenantContext := tenant } := by
  have havailable : (context.gatewaySessionId.isSome && context.sourceScopes.isNone) = false := by
    cases hsession : context.gatewaySessionId with
    | none => rfl
    | some session =>
      have hsome := h.available (by rw [hsession]; rfl)
      rw [Option.isNone_eq_false_iff.mpr hsome]
      rfl
  unfold PrincipalContext.build?
  simp only [h.principal, h.session, h.target, h.handle, h.ceiling, h.scopes, hmapping, havailable,
    Bool.not_true, Bool.or_false, Bool.false_eq_true, if_false, heffective]
  cases tenant with
  | none => rfl
  | some fields => rfl

theorem get?_scopeMapping {names : List String} {name : String} (h : name ∈ names)
    (effective : Finset String) :
    Table.get? name (names.map fun scope => (scope, effective)) = some effective := by
  induction names with
  | nil => exact absurd h List.not_mem_nil
  | cons first rest ih =>
    rw [List.map_cons, Table.get?_cons]
    split
    · rfl
    · rename_i hne
      exact ih ((List.mem_cons.mp h).resolve_left fun heq => hne heq.symm)

/-- Mapping each source scope to all effective scopes gives the effective scopes again. -/
theorem mapEffectiveScopes_stored (h : ServiceContext context sessionId scopes) :
    mapEffectiveScopes context.sourceScopes context.deploymentScopeCeiling
      ((Text.sorted scopes).map fun scope => (scope, context.effectiveScopes)) =
        context.effectiveScopes := by
  have hvalue : ∀ scope ∈ scopes, (Table.get? scope ((Text.sorted scopes).map fun scope =>
      (scope, context.effectiveScopes))).getD ∅ = context.effectiveScopes := by
    intro scope hscope
    rw [get?_scopeMapping (Text.mem_sorted.mpr hscope), Option.getD_some]
  rw [h.source, mapEffectiveScopes]
  rw [Finset.biUnion_congr rfl hvalue]
  rcases scopes.eq_empty_or_nonempty with hempty | hsome
  · rw [hempty, Finset.biUnion_empty, Finset.empty_inter, h.mapped hempty]
  · obtain ⟨first, hfirst⟩ := hsome
    have hunion : (scopes.biUnion fun _ => context.effectiveScopes) = context.effectiveScopes := by
      ext scope
      rw [Finset.mem_biUnion]
      exact ⟨fun ⟨_, _, hmem⟩ => hmem, fun hmem => ⟨first, hfirst, hmem⟩⟩
    rw [hunion]
    exact Finset.inter_eq_left.mpr h.under

theorem validatedScopes_subset {small large : Finset String} (hsubset : small ⊆ large)
    (h : validatedScopes large = true) : validatedScopes small = true := by
  rw [validatedScopes, decide_eq_true_eq] at h ⊢
  exact fun scope hscope => h scope (hsubset hscope)

theorem validatedMapping_stored (h : ServiceContext context sessionId scopes) :
    validatedMapping ((Text.sorted scopes).map fun scope => (scope, context.effectiveScopes)) =
      true := by
  have hscopes : validatedScopes scopes = true := by
    have hall := h.valid.scopes
    rw [h.source] at hall
    exact hall
  rw [validatedScopes, decide_eq_true_eq] at hscopes
  refine List.all_eq_true.mpr fun entry hentry => ?_
  obtain ⟨scope, hscope, rfl⟩ := List.mem_map.mp hentry
  rw [Bool.and_eq_true]
  exact ⟨hscopes scope (Finset.mem_sort _ |>.mp hscope),
    validatedScopes_subset h.under h.valid.ceiling⟩

theorem nodup_principalJson (context : PrincipalContext) :
    ((principalJson context).map Prod.fst).Nodup := by
  simp only [principalJson, List.map_cons, List.map_nil]
  decide

/-- A stored context is read back, with its tenant fields in the order of their keys. -/
theorem contextFromJson_principalJson (h : ServiceContext context sessionId scopes) :
    contextFromJson sessionId (sortedFields (principalJson context)) =
      some { context with tenantContext := context.tenantContext.map sortedFields } := by
  have hunique := nodup_principalJson context
  have hsource : context.sourceScopes.getD ∅ = scopes := by rw [h.source, Option.getD_some]
  have hbuilt := PrincipalContext.build?_of_valid h.valid (validatedMapping_stored h)
    (mapEffectiveScopes_stored h) (context.tenantContext.map sortedFields)
  rw [h.session, h.source] at hbuilt
  simp only [contextFromJson, readStrings_sorted hunique (rfl : Json.field? "source_scopes" _ = _),
    readStrings_sorted hunique (rfl : Json.field? "effective_scopes" _ = _),
    readString_sorted hunique (rfl : Json.field? "principal_id" _ = _),
    readString_sorted hunique (rfl : Json.field? "target_system_id" _ = _),
    readStrings_sorted hunique (rfl : Json.field? "deployment_scope_ceiling" _ = _),
    readTenant_sorted hunique (rfl : Json.field? "tenant_context" _ = _),
    readString_sorted hunique (rfl : Json.field? "auth_state_handle" _ = _), hsource,
    Text.toFinset_sorted, Option.bind_eq_bind, Option.bind_some, hbuilt, if_true]
  rw [h.session, h.source]

end Contexts

/-! Records. -/

/-- The record with another tenant context. -/
def GatewaySessionRecord.withTenant (record : GatewaySessionRecord) (tenant : Option Fields) :
    GatewaySessionRecord :=
  { record with principalContext := { record.principalContext with tenantContext := tenant } }

def AuthenticationResult.withTenant (authentication : AuthenticationResult)
    (tenant : Option Fields) : AuthenticationResult :=
  { authentication with tenantContext := tenant }

section Records
variable {record : GatewaySessionRecord}

/-- The values of a record are valid again with another tenant context. -/
theorem GatewaySessionRecord.build?_withTenant (record : GatewaySessionRecord)
    (tenant : Option Fields) :
    build? record.sessionId record.tokenDigest
      { record.principalContext with tenantContext := tenant } record.createdAt record.expiresAt
      (some record.gatewayExpiresAt) record.sourceExpiresAt record.sourceRefreshAt record.status =
        some (record.withTenant tenant) := by
  have hgateway : gatewayOr record.expiresAt (some record.gatewayExpiresAt) =
      record.gatewayExpiresAt := by
    rw [gatewayOr]
    split
    · rename_i hzero
      rw [hzero, record.gatewayZero hzero]
    · rfl
  unfold build?
  simp only [hgateway]
  rw [dif_pos ⟨record.exact, record.lifetime, record.gatewayLifetime, record.sourceLifetime,
    record.refreshLifetime, record.refreshed, record.bound⟩]
  rfl

theorem readStatus_value {fields : Fields} (status : GatewaySessionStatus)
    (h : readString fields "status" = some status.value) : readStatus fields = some status := by
  rw [readStatus, h]
  cases status with
  | active => rfl
  | reauthRequired => rfl
  | revoked => rfl
  | expired => rfl

theorem nodup_recordJson (record : GatewaySessionRecord) :
    ((recordJson record).map Prod.fst).Nodup := by
  simp only [recordJson, List.map_cons, List.map_nil]
  decide

theorem recordFromJson_recordJson {scopes : Finset String}
    (h : ServiceContext record.principalContext record.sessionId scopes) :
    recordFromJson (.obj (sortedFields (recordJson record))) =
      some (record.withTenant (record.principalContext.tenantContext.map sortedFields)) := by
  have hunique := nodup_recordJson record
  have hprincipal : Json.field? "principal" (sortedFields (recordJson record)) =
      some (.obj (sortedFields (principalJson record.principalContext))) := by
    rw [Json.field?_keySorted hunique]
    rfl
  have hgateway : (Json.field? "gateway_expires_at" (sortedFields (recordJson record))).bind
      timeOf = some (some record.gatewayExpiresAt) := by
    rw [Json.field?_keySorted hunique]
    rfl
  have hstatus : readStatus (sortedFields (recordJson record)) = some record.status :=
    readStatus_value _ (readString_sorted hunique rfl)
  simp only [recordFromJson, hprincipal, hgateway, hstatus,
    readString_sorted hunique (rfl : Json.field? "session_id" _ = _),
    readString_sorted hunique (rfl : Json.field? "token_digest" _ = _),
    readNumber_sorted hunique (rfl : Json.field? "created_at" _ = _),
    readNumber_sorted hunique (rfl : Json.field? "expires_at" _ = _),
    readOptionalTime_sorted hunique (rfl : Json.field? "source_expires_at" _ = _),
    readOptionalTime_sorted hunique (rfl : Json.field? "source_refresh_at" _ = _),
    contextFromJson_principalJson h, Option.bind_eq_bind, Option.bind_some]
  exact record.build?_withTenant _

theorem nodup_authenticationJson (authentication : AuthenticationResult) :
    ((authenticationJson authentication).map Prod.fst).Nodup := by
  simp only [authenticationJson, List.map_cons, List.map_nil]
  decide

theorem authenticationFromJson_authenticationJson (authentication : AuthenticationResult) :
    authenticationFromJson (.obj (sortedFields (authenticationJson authentication))) =
      some (authentication.withTenant (authentication.tenantContext.map sortedFields)) := by
  have hunique := nodup_authenticationJson authentication
  have hscopes : readOptionalScopes (sortedFields (authenticationJson authentication))
      "source_scopes" = some authentication.sourceScopes := by
    rw [readOptionalScopes, Json.field?_keySorted hunique]
    cases hsource : authentication.sourceScopes with
    | none => simp [authenticationJson, hsource, Json.keySorted]
    | some scopes =>
      have hfield : Json.field? "source_scopes" (authenticationJson authentication) =
          some (sortedScopes scopes) := by
        simp [authenticationJson, hsource]
      rw [hfield, Option.map_some, keySorted_sortedScopes]
      have hstrings := stringList_sortedScopes scopes
      rw [sortedScopes] at hstrings ⊢
      simp only [hstrings, Option.map_some, Text.toFinset_sorted]
  simp only [authenticationFromJson, hscopes,
    readOptionalString_sorted hunique (rfl : Json.field? "token" _ = _),
    readOptionalString_sorted hunique (rfl : Json.field? "token_type" _ = _),
    readOptionalString_sorted hunique (rfl : Json.field? "principal_id" _ = _),
    readTenant_sorted hunique (rfl : Json.field? "tenant_context" _ = _),
    readOptionalTime_sorted hunique (rfl : Json.field? "expires_at" _ = _),
    readOptionalTime_sorted hunique (rfl : Json.field? "refresh_at" _ = _),
    Option.bind_eq_bind, Option.bind_some, dif_pos authentication.paired]
  rfl

end Records

/-! Associated data. -/

/-- Digests without the separator are told from the associated data. -/
theorem eq_of_separated {c : Char} {first second first' second' : List Char} (hfirst : c ∉ first)
    (hsecond : c ∉ second) (h : first' ++ c :: second' = first ++ c :: second) :
    first' = first ∧ second' = second := by
  induction first generalizing first' with
  | nil =>
    cases first' with
    | nil => exact ⟨rfl, (List.cons.inj h).2⟩
    | cons x rest =>
      have htail : rest ++ c :: second' = second := (List.cons.inj h).2
      exact absurd (htail ▸ List.mem_append_right rest List.mem_cons_self) hsecond
  | cons y first ih =>
    cases first' with
    | nil =>
      have hhead : c = y := (List.cons.inj h).1
      exact absurd (hhead ▸ List.mem_cons_self) hfirst
    | cons x rest =>
      obtain ⟨hhead, htail⟩ := List.cons.inj h
      obtain ⟨hrest, hlast⟩ := ih (fun hmem => hfirst (List.mem_cons_of_mem _ hmem)) htail
      exact ⟨by rw [show x = y from hhead, hrest], hlast⟩

theorem eq_of_rowAad {identity : VaultIdentity} {sessionDigest digest sessionDigest' digest' : String}
    (hsession : Char.ofNat 0 ∉ sessionDigest.toList) (hdigest : Char.ofNat 0 ∉ digest.toList)
    (h : rowAad identity sessionDigest' digest' = rowAad identity sessionDigest digest) :
    sessionDigest' = sessionDigest ∧ digest' = digest := by
  have hchars := congrArg String.toList h
  simp only [rowAad, String.toList_append, nul, String.toList_singleton, List.append_assoc,
    List.singleton_append, List.append_cancel_left_eq] at hchars
  obtain ⟨hleft, hright⟩ := eq_of_separated hsession hdigest hchars
  exact ⟨String.toList_injective hleft, String.toList_injective hright⟩

/-! Rows. -/

section Rows
variable {Key Nonce Ciphertext : Type} {host : VaultHost} {rowHost : RowHost Key Nonce Ciphertext}
  {identity : VaultIdentity} {key : Key} {nonce : Nonce} {record : GatewaySessionRecord}
  {authentication : AuthenticationResult}

/-- What is sealed is opened again under the same key, nonce and associated data. -/
def Opens (rowHost : RowHost Key Nonce Ciphertext) : Prop :=
  ∀ key nonce text aad,
    rowHost.openText key nonce (rowHost.sealText key nonce text aad) aad = some text

/-- What is sealed is opened under no other key, nonce or associated data. -/
def Authentic (rowHost : RowHost Key Nonce Ciphertext) : Prop :=
  ∀ key nonce text aad key' nonce' aad',
    (rowHost.openText key' nonce' (rowHost.sealText key nonce text aad) aad').isSome = true →
      key' = key ∧ nonce' = nonce ∧ aad' = aad

/-- The canonical text of the row is read back. -/
def Loads (rowHost : RowHost Key Nonce Ciphertext) (record : GatewaySessionRecord)
    (authentication : AuthenticationResult) : Prop :=
  rowHost.loads (rowHost.printer.dumps (rowPayload record authentication)) =
    some (rowPayload record authentication).keySorted

/-- A row that is opened and decoded goes to the checks on its plaintext. -/
theorem decryptSealedRow_encrypt (hopens : Opens rowHost)
    (hloads : Loads rowHost record authentication) {scopes : Finset String}
    (hcontext : ServiceContext record.principalContext record.sessionId scopes) :
    decryptSealedRow host rowHost identity key
        (encrypt host rowHost identity key nonce record authentication) =
      decryptRow host
        { tokenDigest := record.tokenDigest
          sessionDigest := host.sessionDigest record.sessionId
          record := record.withTenant (record.principalContext.tenantContext.map sortedFields)
          authentication :=
            authentication.withTenant (authentication.tenantContext.map sortedFields) } := by
  have hpayload : (rowPayload record authentication).keySorted = .obj (sortedFields
      [("schema_version", .int schemaVersion), ("record", .obj (recordJson record)),
        ("authentication", .obj (authenticationJson authentication))]) := rfl
  have hunique : ([("schema_version", Json.int schemaVersion),
      ("record", .obj (recordJson record)),
      ("authentication", .obj (authenticationJson authentication))].map Prod.fst).Nodup := by
    simp only [List.map_cons, List.map_nil]
    decide
  have hversion : Json.pyEqual (.int schemaVersion) (.int schemaVersion) = true :=
    Json.pyEqual_refl _
  simp only [decryptSealedRow, encrypt, hopens key nonce, hloads.trans (congrArg some hpayload),
    Json.field?_keySorted hunique]
  simp only [Json.field?_cons, String.reduceEq, if_true, if_false, Option.map_some,
    Option.any_some, Json.keySorted, hversion, Option.bind_some, recordFromJson_recordJson hcontext,
    authenticationFromJson_authenticationJson]

/-- A row that holds this sealed text is refused under another key and with other columns. -/
theorem refused_of_other (hauthentic : Authentic rowHost)
    (hsession : Char.ofNat 0 ∉ (host.sessionDigest record.sessionId).toList)
    (hdigest : Char.ofNat 0 ∉ record.tokenDigest.toList) {host' : VaultHost}
    {identity' : VaultIdentity} {key' : Key} {row : SealedRow Nonce Ciphertext}
    (hsealed : row.ciphertext =
      (encrypt host rowHost identity key nonce record authentication).ciphertext)
    (hother : key' ≠ key ∨ identity' = identity ∧
      row ≠ encrypt host rowHost identity key nonce record authentication) :
    decryptSealedRow host' rowHost identity' key' row = .error (invalid "row_invalid") := by
  have hclosed : rowHost.openText key' row.nonce row.ciphertext
      (rowAad identity' row.sessionDigest row.tokenDigest) = none := by
    rw [← Option.not_isSome_iff_eq_none]
    intro hopened
    rw [hsealed] at hopened
    obtain ⟨hkey, hnonce, haad⟩ := hauthentic _ _ _ _ _ _ _ hopened
    rcases hother with hne | ⟨rfl, hne⟩
    · exact hne hkey
    · obtain ⟨hsame, htoken⟩ := eq_of_rowAad hsession hdigest haad
      refine hne ?_
      cases row
      simp only at hsealed hnonce hsame htoken
      rw [hsealed, hnonce, hsame, htoken]
      rfl
  rw [decryptSealedRow, hclosed]

end Rows

/-! Sessions of the service. -/

theorem serviceContext_contextOf {config : ServiceConfig} {creation : Creation}
    {result : AuthenticationResult} {context : PrincipalContext}
    (h : contextOf config creation result = .ok context) :
    ∃ scopes, ServiceContext context creation.sessionId scopes := by
  obtain ⟨scopes, principal, -, -, hbuilt⟩ := contextOf_cases h
  obtain ⟨hvalid, -, -, hsession, -, hsource, hceiling, heffective, -, -⟩ :=
    PrincipalContext.of_build? hbuilt
  refine ⟨scopes, hvalid, hsession, hsource, ?_, ?_⟩
  · rw [heffective, hceiling]
    exact mapEffectiveScopes_subset _ _ _
  · rintro rfl
    rw [heffective, mapEffectiveScopes, Finset.biUnion_empty, Finset.empty_inter]

/-- Equal up to the order of the fields of the tenant context. -/
def GatewaySessionRecord.Equal (record other : GatewaySessionRecord) : Prop :=
  ∃ tenant, Option.Rel List.Perm record.principalContext.tenantContext tenant ∧
    other = record.withTenant tenant

def AuthenticationResult.Equal (authentication other : AuthenticationResult) : Prop :=
  ∃ tenant, Option.Rel List.Perm authentication.tenantContext tenant ∧
    other = authentication.withTenant tenant

/-- Scalars are sorted by their keys only. -/
theorem sortedFields_perm {fields : Fields} (h : fields.all (·.2.isScalar) = true) :
    fields.Perm (sortedFields fields) := by
  have hsame : Json.keySortedFields fields = fields := by
    rw [Json.keySortedFields_eq]
    refine (List.map_congr_left fun field hfield => ?_).trans (List.map_id fields)
    have hscalar := List.all_eq_true.mp h field hfield
    obtain ⟨key, value⟩ := field
    cases value with
    | arr items => exact absurd hscalar (by simp [Json.isScalar])
    | obj inner => exact absurd hscalar (by simp [Json.isScalar])
    | _ => rfl
  rw [sortedFields, hsame]
  exact (Json.sortKeys_perm fields).symm

theorem sortedTenant_perm {tenant : Option Fields}
    (h : ∀ fields, tenant = some fields → fields.all (·.2.isScalar) = true) :
    Option.Rel List.Perm tenant (tenant.map sortedFields) := by
  cases tenant with
  | none => exact .none
  | some fields => exact .some (sortedFields_perm (h fields rfl))

/-- A record that the service has created, or the one it is marked as later, is read back from its
row as it was, with the authentication it was created with; and no row with this sealed text is read
under another key or with another nonce or digest beside it. -/
theorem row_round_trip {Key Nonce Ciphertext : Type} (config : ServiceConfig)
    (settings : StoreSettings) (host : VaultHost) (rowHost : RowHost Key Nonce Ciphertext)
    (identity : VaultIdentity) (hopens : Opens rowHost) (hauthentic : Authentic rowHost)
    (hsession : ∀ sessionId, Char.ofNat 0 ∉ (host.sessionDigest sessionId).toList)
    (htoken : ∀ token, Char.ofNat 0 ∉ (host.tokenDigest token).toList) (creation : Creation)
    (login : LoginResponse) (context : PrincipalContext)
    (hcontext : contextOf config creation (authenticationResult config login) = .ok context)
    (store : SessionStore) (reading : Reading) (token : String) (record : GatewaySessionRecord)
    (removed : List GatewaySessionRecord)
    (hcreated : (create settings host.toSessionHost store reading
      (requestOf creation context (authenticationResult config login)) creation.token).1 =
        .created token record removed)
    (stored : GatewaySessionRecord) (hstored : stored = record ∨ stored = record.marked)
    (hloads : Loads rowHost stored (authenticationResult config login)) (key : Key)
    (nonce : Nonce) :
    (∃ decoded authentication,
      decryptSealedRow host rowHost identity key
        (encrypt host rowHost identity key nonce stored (authenticationResult config login)) =
          .ok (decoded, authentication) ∧
      stored.Equal decoded ∧ (authenticationResult config login).Equal authentication ∧
      semanticBinding decoded authentication = true) ∧
    ∀ host' identity' key' row,
      row.ciphertext = (encrypt host rowHost identity key nonce stored
        (authenticationResult config login)).ciphertext →
      key' ≠ key ∨ identity' = identity ∧ row ≠ encrypt host rowHost identity key nonce stored
        (authenticationResult config login) →
      decryptSealedRow host' rowHost identity' key' row = .error (invalid "row_invalid") := by
  obtain ⟨scopes, hservice⟩ := serviceContext_contextOf hcontext
  obtain ⟨htenant, hscalars⟩ := tenant_contextOf hcontext
  -- What was created was published, from the request of the service.
  obtain ⟨now, boundaries, hboundaries, hpublishes⟩ : ∃ now boundaries,
      sourceBoundaries now (requestOf creation context (authenticationResult config login)) =
        .ok boundaries ∧
      Publishes settings host.toSessionHost store now boundaries
        (requestOf creation context (authenticationResult config login)) token record := by
    rcases create_cases settings host.toSessionHost store reading
      (requestOf creation context (authenticationResult config login)) creation.token with
      ⟨failure, heq⟩ | ⟨now, boundaries, -, -, hboundaries, ⟨failure, heq⟩ |
        ⟨token', record', -, hpublishes, heq⟩⟩
    · rw [heq] at hcreated
      exact absurd hcreated (by simp)
    · rw [heq] at hcreated
      exact absurd hcreated (by simp)
    · rw [heq] at hcreated
      obtain ⟨rfl, rfl, -⟩ := SessionAnswer.created.inj hcreated
      exact ⟨now, boundaries, hboundaries, hpublishes⟩
  obtain ⟨hid, hdigest, hprincipal, -⟩ := GatewaySessionRecord.of_build? hpublishes.built
  have hbinding : semanticBinding record (authenticationResult config login) = true :=
    semanticBinding_published hboundaries hpublishes (requestBinding_contextOf hcontext)
  have hstoredContext : stored.principalContext = context := by
    rcases hstored with rfl | rfl
    · exact hprincipal
    · exact hprincipal
  have hstoredId : stored.sessionId = creation.sessionId := by
    rcases hstored with rfl | rfl
    · exact hid
    · exact hid
  have hstoredDigest : stored.tokenDigest = host.tokenDigest token := by
    rcases hstored with rfl | rfl
    · exact hdigest
    · exact hdigest
  have hstoredBinding : semanticBinding stored (authenticationResult config login) = true := by
    rcases hstored with rfl | rfl
    · exact hbinding
    · exact hbinding
  have hstoredService : ServiceContext stored.principalContext stored.sessionId scopes := by
    rw [hstoredContext, hstoredId]
    exact hservice
  constructor
  · have hdecoded : semanticBinding
        (stored.withTenant (stored.principalContext.tenantContext.map sortedFields))
        ((authenticationResult config login).withTenant
          ((authenticationResult config login).tenantContext.map sortedFields)) = true := by
      rw [hstoredContext, htenant]
      simp only [semanticBinding, GatewaySessionRecord.withTenant, AuthenticationResult.withTenant,
        sameTenant_refl, Bool.and_true, Bool.and_eq_true, decide_eq_true_eq] at hstoredBinding ⊢
      obtain ⟨⟨⟨⟨hname, hscopes⟩, -⟩, hexpires⟩, hrefresh⟩ := hstoredBinding
      exact ⟨⟨⟨hname, decide_eq_true hscopes⟩, decide_eq_true hexpires⟩, decide_eq_true hrefresh⟩
    refine ⟨_, _, ?_, ⟨_, ?_, rfl⟩, ⟨_, ?_, rfl⟩, hdecoded⟩
    · rw [decryptSealedRow_encrypt hopens hloads hstoredService]
      exact decryptRow_of_valid (rowValid_iff.mpr ⟨rfl, rfl, hdecoded⟩)
    · rw [hstoredContext]
      exact sortedTenant_perm hscalars
    · rw [← htenant]
      exact sortedTenant_perm hscalars
  · intro host' identity' key' row hsealed hother
    refine refused_of_other hauthentic (hsession stored.sessionId) ?_ hsealed hother
    rw [hstoredDigest]
    exact htoken token

section Example

/-- Digests without the separator. -/
private def strippedHost : VaultHost where
  tokenDigest := fun token => String.ofList (token.toList.filter (· ≠ Char.ofNat 0))
  later := fun now ttl => now + ttl
  sessionDigest := fun sessionId => String.ofList (sessionId.toList.filter (· ≠ Char.ofNat 0))

private theorem nul_notMem_stripped (text : String) :
    Char.ofNat 0 ∉ (String.ofList (text.toList.filter (· ≠ Char.ofNat 0))).toList := by
  rw [String.toList_ofList, List.mem_filter]
  exact fun h => absurd h.2 (by decide)

private def oneSettings : StoreSettings := .brief 1 Nat.one_pos

private def tenantConfig : ServiceConfig where
  hasPrincipalPointer := true
  hasTenantPointer := true
  scopeMapping := [("source.read", {"read"})]
  targetSystemId := "target"
  deploymentScopeCeiling := {"read", "write"}

private def tenantLogin : LoginResponse where
  token := "source-token"
  principal := "someone"
  sourceScopes := some {"source.read"}
  tenant := [("tier", .int 2), ("region", .str "north")]
  expiresAt := some 9
  refreshAt := none

private def mintedToken : String := "AAAAAAAAAAAAAAAAAAAAAAAAAAAAAAAAAAAAAAAAAAA"

private def tenantCreation : Creation where
  sessionId := "s1"
  authStateHandle := "handle"
  anonymousPrincipal := "anonymous"
  login := .ok tenantLogin
  token := some mintedToken

private def tenantPrincipal : PrincipalContext where
  principalId := "someone"
  gatewaySessionId := some "s1"
  targetSystemId := "target"
  sourceScopes := some {"source.read"}
  deploymentScopeCeiling := {"read", "write"}
  effectiveScopes := {"read"}
  tenantContext := some [("tier", .int 2), ("region", .str "north")]
  authStateHandle := "handle"

private def tenantRecord : GatewaySessionRecord where
  sessionId := "s1"
  tokenDigest := mintedToken
  principalContext := tenantPrincipal
  createdAt := 1
  expiresAt := 9
  gatewayExpiresAt := 11
  sourceExpiresAt := some 9
  sourceRefreshAt := none
  status := .active
  exact := by decide
  lifetime := by decide
  gatewayLifetime := by decide
  gatewayZero := by decide
  sourceLifetime := by decide
  refreshLifetime := by decide
  refreshed := by decide
  bound := rfl

private abbrev tenantAuthentication : AuthenticationResult :=
  authenticationResult tenantConfig tenantLogin

/-- The ciphertext shows what it was made from, and opens only under that. -/
private def openHost : RowHost ℕ ℕ (ℕ × ℕ × String × String) where
  printer := { floatRepr := fun q => toString q.num ++ ".0" }
  loads := fun _ => some (rowPayload tenantRecord tenantAuthentication).keySorted
  sealText := fun key nonce text aad => (key, nonce, text, aad)
  openText := fun key nonce ciphertext aad =>
    if ciphertext.1 = key ∧ ciphertext.2.1 = nonce ∧ ciphertext.2.2.2 = aad then
      some ciphertext.2.2.1
    else none

private theorem opens_openHost : Opens openHost :=
  fun _ _ _ _ => if_pos ⟨rfl, rfl, rfl⟩

private theorem authentic_openHost : Authentic openHost := by
  intro key nonce text aad key' nonce' aad' hopened
  simp only [openHost] at hopened
  split at hopened
  · rename_i hsame
    exact ⟨hsame.1.symm, hsame.2.1.symm, hsame.2.2.symm⟩
  · exact absurd hopened (by simp)

private def someIdentity : VaultIdentity where
  projectId := "project"
  packSha256 := "pack"
  scopeMappingSha256 := "mapping"
  scopeCeilingSha256 := "ceiling"

/-- The row of a session with a tenant is read under its key, and not under another one. -/
theorem row_round_trip_tenant :
    (∃ decoded authentication,
      decryptSealedRow strippedHost openHost someIdentity 1
        (encrypt strippedHost openHost someIdentity 1 7 tenantRecord tenantAuthentication) =
          .ok (decoded, authentication) ∧
      tenantRecord.Equal decoded ∧ tenantAuthentication.Equal authentication) ∧
    decryptSealedRow strippedHost openHost someIdentity 2
      (encrypt strippedHost openHost someIdentity 1 7 tenantRecord tenantAuthentication) =
        .error (invalid "row_invalid") := by
  have hcontext : contextOf tenantConfig tenantCreation tenantAuthentication =
      .ok tenantPrincipal := by
    decide
  have hcreated : (create oneSettings strippedHost.toSessionHost {} (.reads 1)
      (requestOf tenantCreation tenantPrincipal tenantAuthentication) tenantCreation.token).1 =
        .created mintedToken tenantRecord [] := by
    decide +kernel
  obtain ⟨⟨decoded, authentication, hdecrypted, hrecord, hauthentication, -⟩, hrefused⟩ :=
    row_round_trip tenantConfig oneSettings strippedHost openHost someIdentity opens_openHost
      authentic_openHost nul_notMem_stripped nul_notMem_stripped tenantCreation tenantLogin
      tenantPrincipal hcontext {} (.reads 1) mintedToken tenantRecord [] hcreated tenantRecord
      (.inl rfl) rfl 1 7
  exact ⟨⟨decoded, authentication, hdecrypted, hrecord, hauthentication⟩,
    hrefused _ _ _ _ rfl (.inl (by decide))⟩

end Example

end CapabilityCompiler.Gateway
