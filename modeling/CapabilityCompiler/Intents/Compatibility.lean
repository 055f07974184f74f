import CapabilityCompiler.Intents.Audit

/-! What an accepted plan guarantees about routes and about the candidates of one intent. -/
namespace CapabilityCompiler.Intents
open Foundation

/-- Claims that differ have their evidence declared. -/
def Declared {Status : Type} (declared : List String) (first second : EvidenceClaim Status) : Prop :=
  first ≠ second → first.evidenceRefs ⊆ declared ∧ second.evidenceRefs ⊆ declared

instance {Status : Type} [DecidableEq Status] (declared : List String)
    (first second : EvidenceClaim Status) : Decidable (Declared declared first second) :=
  inferInstanceAs (Decidable (_ → _))

structure Compatible (declared : List String) (first second : CapabilityCandidate) : Prop where
  kind : first.kindClaim = second.kindClaim
  effect : first.effectClaim = second.effectClaim
  authorizationBoundary :
    Declared declared first.claims.authorizationBoundary second.claims.authorizationBoundary
  identityBinding : Declared declared first.claims.identityBinding second.claims.identityBinding
  contextIsolation : Declared declared first.claims.contextIsolation second.claims.contextIsolation
  risk : Declared declared first.claims.risk second.claims.risk
  approval : Declared declared first.claims.approval second.claims.approval
  retry : Declared declared first.claims.retry second.claims.retry
  conflictControl : Declared declared first.claims.conflictControl second.claims.conflictControl
  idempotency : Declared declared first.claims.idempotency second.claims.idempotency
  outcomeResolution :
    Declared declared first.claims.outcomeResolution second.claims.outcomeResolution
  lifecycle : Declared declared first.claims.lifecycle second.claims.lifecycle

/-- Every route is assigned, more than once only with a relationship, and the candidates of an intent
are compatible. -/
structure FailsClosed (facts : PlanningFacts) (plan : IntentPlan) : Prop where
  assigned : ∀ route ∈ facts.routes, ∃ proposal ∈ plan.intents, route.id ∈ proposal.routeIds
  explained : ∀ id, 1 < (routeAssignments plan).count id →
    ∃ relationship ∈ plan.relationships, id ∈ relationship.routeIds
  compatible : ∀ proposal ∈ plan.intents, ∀ first ∈ intentCandidates facts.ledger proposal,
    ∀ second ∈ intentCandidates facts.ledger proposal,
      Compatible (compatibilityRefs proposal) first second

/-- The candidates make one claim about the authorization boundary, so that the audit does not compare
their other claims about permissions. -/
def AgreeOnBoundary (known : List CapabilityCandidate) : Prop :=
  ∀ first ∈ known, ∀ second ∈ known,
    first.claims.authorizationBoundary = second.claims.authorizationBoundary

instance (known : List CapabilityCandidate) : Decidable (AgreeOnBoundary known) :=
  inferInstanceAs (Decidable (∀ first ∈ known, ∀ second ∈ known, _ = _))

/-- Where the authorization boundary agrees, other differences about permissions are declared. -/
def PermissionsDeclared (facts : PlanningFacts) (plan : IntentPlan) : Prop :=
  ∀ proposal ∈ plan.intents, AgreeOnBoundary (intentCandidates facts.ledger proposal) →
    ∀ first ∈ intentCandidates facts.ledger proposal,
    ∀ second ∈ intentCandidates facts.ledger proposal,
      Declared (compatibilityRefs proposal) first.claims.identityBinding
        second.claims.identityBinding ∧
      Declared (compatibilityRefs proposal) first.claims.contextIsolation
        second.claims.contextIsolation

instance (facts : PlanningFacts) (plan : IntentPlan) : Decidable (PermissionsDeclared facts plan) :=
  inferInstanceAs (Decidable (∀ proposal ∈ plan.intents, _ → ∀ first ∈ _, ∀ second ∈ _, _ ∧ _))

/-! Reports. -/

theorem errorFree_reportIf {failed : Bool} {code message pointer : String}
    (h : errorFree (reportIf failed (planError code message pointer)) = true) : failed = false := by
  cases failed with
  | false => rfl
  | true => exact absurd h (by simp [reportIf, errorFree, planError])

section Differ
variable {α : Type} [DecidableEq α] {values : List α}

theorem eq_of_differ (h : differ values = false) {first second : α} (hfirst : first ∈ values)
    (hsecond : second ∈ values) : first = second := by
  cases values with
  | nil => exact absurd hfirst List.not_mem_nil
  | cons value rest =>
    have hsame : ∀ other ∈ value :: rest, other = value := by
      intro other hother
      rcases List.mem_cons.mp hother with rfl | hrest
      · rfl
      · have hall := List.any_eq_false.mp h other hrest
        simpa using hall
    rw [hsame first hfirst, hsame second hsecond]

theorem differ_of_ne {first second : α} (hfirst : first ∈ values) (hsecond : second ∈ values)
    (hne : first ≠ second) : differ values = true := by
  by_contra h
  rw [Bool.not_eq_true] at h
  exact hne (eq_of_differ h hfirst hsecond)

end Differ

section Axis
variable {known : List CapabilityCandidate} {declared : List String} {pointer : String}
  {first second candidate : CapabilityCandidate}

/-- An axis without a diagnostic on which two candidates differ has all of its evidence declared. -/
theorem refs_declared {α : Type} [DecidableEq α] {code : String}
    {refs : CandidateClaims → List String} {signature : CandidateClaims → α}
    (h : errorFree (axisDiagnostics code pointer known declared refs signature) = true)
    (hfirst : first ∈ known) (hsecond : second ∈ known)
    (hne : signature first.claims ≠ signature second.claims) (hcandidate : candidate ∈ known) :
    refs candidate.claims ⊆ declared := by
  have hreport := errorFree_reportIf h
  have hdiffer : differ (known.map fun candidate => signature candidate.claims) = true :=
    differ_of_ne (List.mem_map.mpr ⟨first, hfirst, rfl⟩) (List.mem_map.mpr ⟨second, hsecond, rfl⟩)
      hne
  rw [hdiffer, Bool.true_and, Bool.or_eq_false_iff, Bool.not_eq_false'] at hreport
  intro ref href
  have hrequired : ref ∈ known.flatMap fun candidate => refs candidate.claims :=
    List.mem_flatMap.mpr ⟨candidate, hcandidate, href⟩
  simpa using List.all_eq_true.mp hreport.2 ref hrequired

/-- The claims of an axis are declared where they differ. -/
theorem declared_of_axis {Status α : Type} [DecidableEq α] {code : String}
    {refs : CandidateClaims → List String} {signature : CandidateClaims → α}
    {claim : CandidateClaims → EvidenceClaim Status}
    (h : errorFree (axisDiagnostics code pointer known declared refs signature) = true)
    (hclaim : ∀ claims, (claim claims).evidenceRefs ⊆ refs claims)
    (hsignature : ∀ left right, signature left = signature right → claim left = claim right)
    (hfirst : first ∈ known) (hsecond : second ∈ known) :
    Declared declared (claim first.claims) (claim second.claims) := by
  intro hne
  have haxis : signature first.claims ≠ signature second.claims :=
    fun heq => hne (hsignature _ _ heq)
  refine ⟨?_, ?_⟩
  · exact List.Subset.trans (hclaim _) (refs_declared h hfirst hsecond haxis hfirst)
  · exact List.Subset.trans (hclaim _) (refs_declared h hfirst hsecond haxis hsecond)

theorem Declared.of_eq {Status : Type} {left right : EvidenceClaim Status} (h : left = right) :
    Declared declared left right :=
  fun hne => absurd h hne

/-- Candidates of one signature differ about permissions at most. -/
theorem compatible_of_signature (hboundary : AgreeOnBoundary known →
      Declared declared first.claims.identityBinding second.claims.identityBinding ∧
      Declared declared first.claims.contextIsolation second.claims.contextIsolation)
    (hsame : ∀ left ∈ known, ∀ right ∈ known,
      compatibilitySignature left = compatibilitySignature right)
    (hfirst : first ∈ known) (hsecond : second ∈ known) : Compatible declared first second := by
  obtain ⟨hkind, heffect, hauthorization, hrisk, hlifecycle⟩ :=
    CompatibilitySignature.mk.inj (hsame first hfirst second hsecond)
  obtain ⟨happroval, hretry, hconflict, hidempotency, houtcome, hlast⟩ :=
    LifecycleSignature.mk.inj hlifecycle
  have hagree : AgreeOnBoundary known := fun left hleft right hright =>
    congrArg CompatibilitySignature.authorizationBoundary (hsame left hleft right hright)
  exact
    { kind := hkind
      effect := heffect
      authorizationBoundary := .of_eq hauthorization
      identityBinding := (hboundary hagree).1
      contextIsolation := (hboundary hagree).2
      risk := .of_eq hrisk
      approval := .of_eq happroval
      retry := .of_eq hretry
      conflictControl := .of_eq hconflict
      idempotency := .of_eq hidempotency
      outcomeResolution := .of_eq houtcome
      lifecycle := .of_eq hlast }

/-- Where the authorization boundary differs, all three claims about permissions are declared. -/
theorem permissions_of_axis {code : String}
    (h : errorFree (axisDiagnostics code pointer known declared permissionRefs
      (·.authorizationBoundary)) = true)
    (hboundary : AgreeOnBoundary known →
      Declared declared first.claims.identityBinding second.claims.identityBinding ∧
      Declared declared first.claims.contextIsolation second.claims.contextIsolation)
    (hfirst : first ∈ known) (hsecond : second ∈ known) :
    Declared declared first.claims.identityBinding second.claims.identityBinding ∧
      Declared declared first.claims.contextIsolation second.claims.contextIsolation := by
  by_cases hagree : AgreeOnBoundary known
  · exact hboundary hagree
  · simp only [AgreeOnBoundary, not_forall] at hagree
    obtain ⟨left, hleft, right, hright, hne⟩ := hagree
    have hall : ∀ candidate ∈ known, permissionRefs candidate.claims ⊆ declared :=
      fun candidate hcandidate => refs_declared h hleft hright hne hcandidate
    have hidentity : ∀ candidate ∈ known,
        candidate.claims.identityBinding.evidenceRefs ⊆ declared := by
      intro candidate hcandidate ref href
      exact hall candidate hcandidate (by simp [permissionRefs, href])
    have hcontext : ∀ candidate ∈ known,
        candidate.claims.contextIsolation.evidenceRefs ⊆ declared := by
      intro candidate hcandidate ref href
      exact hall candidate hcandidate (by simp [permissionRefs, href])
    exact ⟨fun _ => ⟨hidentity first hfirst, hidentity second hsecond⟩,
      fun _ => ⟨hcontext first hfirst, hcontext second hsecond⟩⟩

theorem compatible_of_errorFree
    (h : errorFree (compatibilityDiagnostics pointer known declared) = true)
    (hboundary : AgreeOnBoundary known →
      Declared declared first.claims.identityBinding second.claims.identityBinding ∧
      Declared declared first.claims.contextIsolation second.claims.contextIsolation)
    (hfirst : first ∈ known) (hsecond : second ∈ known) : Compatible declared first second := by
  unfold compatibilityDiagnostics at h
  split_ifs at h with hdiffer
  · simp only [errorFree_append] at h
    obtain ⟨⟨⟨hkind, hpermission⟩, hrisk⟩, hlifecycle⟩ := h
    have hsame : (first.kindClaim, first.effectClaim) = (second.kindClaim, second.effectClaim) :=
      eq_of_differ (errorFree_reportIf hkind) (List.mem_map.mpr ⟨first, hfirst, rfl⟩)
        (List.mem_map.mpr ⟨second, hsecond, rfl⟩)
    obtain ⟨hidentity, hcontext⟩ := permissions_of_axis hpermission hboundary hfirst hsecond
    have hstage : ∀ claim : CandidateClaims → FactClaim,
        (∀ claims, (claim claims).evidenceRefs ⊆ lifecycleRefs claims) →
        (∀ left right, lifecycleSignature left = lifecycleSignature right →
          claim left = claim right) →
        Declared declared (claim first.claims) (claim second.claims) :=
      fun claim hrefs hsignature => declared_of_axis hlifecycle hrefs hsignature hfirst hsecond
    exact
      { kind := congrArg Prod.fst hsame
        effect := congrArg Prod.snd hsame
        authorizationBoundary := declared_of_axis hpermission
          (fun claims ref href => by simp [permissionRefs, href]) (fun _ _ heq => heq) hfirst hsecond
        identityBinding := hidentity
        contextIsolation := hcontext
        risk := declared_of_axis hrisk (fun claims ref href => href) (fun _ _ heq => heq) hfirst
          hsecond
        approval := hstage (·.approval) (fun claims ref href => by simp [lifecycleRefs, href])
          fun _ _ heq => congrArg LifecycleSignature.approval heq
        retry := hstage (·.retry) (fun claims ref href => by simp [lifecycleRefs, href])
          fun _ _ heq => congrArg LifecycleSignature.retry heq
        conflictControl := hstage (·.conflictControl)
          (fun claims ref href => by simp [lifecycleRefs, href])
          fun _ _ heq => congrArg LifecycleSignature.conflictControl heq
        idempotency := hstage (·.idempotency) (fun claims ref href => by simp [lifecycleRefs, href])
          fun _ _ heq => congrArg LifecycleSignature.idempotency heq
        outcomeResolution := hstage (·.outcomeResolution)
          (fun claims ref href => by simp [lifecycleRefs, href])
          fun _ _ heq => congrArg LifecycleSignature.outcomeResolution heq
        lifecycle := hstage (·.lifecycle) (fun claims ref href => by simp [lifecycleRefs, href])
          fun _ _ heq => congrArg LifecycleSignature.lifecycle heq }
  · refine compatible_of_signature hboundary (fun left hleft right hright => ?_) hfirst hsecond
    exact eq_of_differ (Bool.eq_false_iff.mpr hdiffer) (List.mem_map.mpr ⟨left, hleft, rfl⟩)
      (List.mem_map.mpr ⟨right, hright, rfl⟩)

end Axis

/-! Accepted plans. -/

section Accepted
variable {facts : PlanningFacts} {plan : IntentPlan}

theorem exists_compatibilityDiagnostics (h : accepted facts plan = true)
    {proposal : DomainIntentCandidate} (hproposal : proposal ∈ plan.intents) :
    ∃ pointer, errorFree (compatibilityDiagnostics pointer
      (intentCandidates facts.ledger proposal) (compatibilityRefs proposal)) = true := by
  obtain ⟨index, hindex⟩ := List.mem_iff_getElem?.mp hproposal
  refine ⟨"/intents/" ++ toString index, errorFree_of_subset ?_ h⟩
  intro diagnostic hdiagnostic
  unfold auditIntentPlan
  refine List.mem_append_left _ (List.mem_append_left _ (List.mem_flatMap.mpr ⟨(proposal, index),
    List.mk_mem_zipIdx_iff_getElem?.mpr hindex, ?_⟩))
  exact List.mem_append_right _ hdiagnostic

theorem closure_of_accepted (h : accepted facts plan = true) :
    (unassigned facts plan).isEmpty = true ∧
      (multiplyAssigned plan).any (· ∉ explainedRoutes plan) = false := by
  have hclosure : errorFree (closureDiagnostics facts plan) = true :=
    errorFree_of_subset (fun diagnostic hdiagnostic =>
      List.mem_append_left _ (List.mem_append_right _ hdiagnostic)) h
  unfold closureDiagnostics at hclosure
  simp only [errorFree_append] at hclosure
  obtain ⟨⟨⟨hunassigned, hmultiply⟩, -⟩, -⟩ := hclosure
  exact ⟨by simpa using errorFree_reportIf hunassigned, errorFree_reportIf hmultiply⟩

/-- Every route of the denominator is assigned. -/
theorem assigned_of_accepted (h : accepted facts plan = true) {route : ScopeRoute}
    (hroute : route ∈ facts.routes) : ∃ proposal ∈ plan.intents, route.id ∈ proposal.routeIds := by
  by_contra hnone
  have hmem : route.id ∈ unassigned facts plan := by
    refine Text.mem_sortedSet.mpr (List.mem_filter.mpr ⟨List.mem_map.mpr ⟨route, hroute, rfl⟩, ?_⟩)
    rw [decide_eq_true_eq]
    intro hassigned
    obtain ⟨proposal, hproposal, hid⟩ := List.mem_flatMap.mp hassigned
    exact hnone ⟨proposal, hproposal, hid⟩
  have hempty := (closure_of_accepted h).1
  rw [List.isEmpty_iff] at hempty
  rw [hempty] at hmem
  exact absurd hmem List.not_mem_nil

/-- A route that is assigned again has a relationship. -/
theorem explained_of_accepted (h : accepted facts plan = true) {id : String}
    (hcount : 1 < (routeAssignments plan).count id) :
    ∃ relationship ∈ plan.relationships, id ∈ relationship.routeIds := by
  have hmem : id ∈ multiplyAssigned plan := by
    refine Text.mem_sortedSet.mpr (List.mem_filter.mpr ⟨?_, decide_eq_true hcount⟩)
    exact List.count_pos_iff.mp (by omega)
  have hexplained := List.any_eq_false.mp (closure_of_accepted h).2 id hmem
  rw [decide_eq_true_eq, not_not] at hexplained
  exact List.mem_flatMap.mp hexplained

end Accepted

/-- An accepted plan fails closed exactly if, wherever the candidates of an intent agree on the
authorization boundary, their other differences about permissions are declared. -/
theorem failsClosed_iff {facts : PlanningFacts} {plan : IntentPlan}
    (h : accepted facts plan = true) :
    FailsClosed facts plan ↔ PermissionsDeclared facts plan := by
  constructor
  · intro hclosed proposal hproposal _ first hfirst second hsecond
    have hcompatible := hclosed.compatible proposal hproposal first hfirst second hsecond
    exact ⟨hcompatible.identityBinding, hcompatible.contextIsolation⟩
  · intro hdeclared
    refine ⟨fun route hroute => assigned_of_accepted h hroute,
      fun id hcount => explained_of_accepted h hcount,
      fun proposal hproposal first hfirst second hsecond => ?_⟩
    obtain ⟨pointer, hfree⟩ := exists_compatibilityDiagnostics h hproposal
    exact compatible_of_errorFree hfree
      (fun hagree => hdeclared proposal hproposal hagree first hfirst second hsecond) hfirst hsecond

/-! Two identities for one intent. -/

def contractClaim : FactClaim := ⟨.proven, ["contract"]⟩

/-- A proven read candidate, with its own evidence for the identity it is called with. -/
def ordersCandidate (id identityRef : String) : CapabilityCandidate where
  id := id
  domainId := some "orders"
  routeIds := ["list_orders"]
  kindClaim := .read
  effectClaim := .read
  claims :=
    { schema := contractClaim
      effect := contractClaim
      risk := contractClaim
      reversibility := contractClaim
      approval := contractClaim
      retry := contractClaim
      conflictControl := contractClaim
      idempotency := contractClaim
      outcomeResolution := contractClaim
      lifecycle := contractClaim
      authorizationBoundary := ⟨.upstreamAuthoritative, ["contract"]⟩
      identityBinding := ⟨.identityBindingProven, [identityRef]⟩
      contextIsolation := ⟨.contextIsolationProven, ["contract"]⟩ }
  gaps := []

def ordersFacts : PlanningFacts where
  routes := [⟨"list_orders", "orders", .planned, ["orders.list"]⟩]
  ledger := ⟨[ordersCandidate "agent_orders" "agent_token",
    ordersCandidate "staff_orders" "staff_token"], by decide⟩
  domainIds := ["orders"]
  capabilityIds := ["orders.list"]
  portfolio := []

/-- One intent for both candidates. -/
def ordersPlan (evidence : List String) : IntentPlan where
  intents :=
    [{ id := "list_orders"
       domainId := "orders"
       routeIds := ["list_orders"]
       candidateIds := ["agent_orders", "staff_orders"]
       capabilityIds := ["orders.list"]
       evidence := evidence
       recommendation := .materialize
       actionSafety := none }]
  relationships := []

theorem merged_identities_accepted :
    accepted ordersFacts (ordersPlan ["contract"]) = true ∧
      ¬ FailsClosed ordersFacts (ordersPlan ["contract"]) := by
  refine ⟨by decide +kernel, fun h => ?_⟩
  have hcompatible := h.compatible _ (List.mem_singleton.mpr rfl)
    (ordersCandidate "agent_orders" "agent_token") (by decide +kernel)
    (ordersCandidate "staff_orders" "staff_token") (by decide +kernel)
  have hdeclared := (hcompatible.identityBinding (by decide)).1
  exact absurd hdeclared (by decide +kernel)

theorem declared_identities_closed :
    FailsClosed ordersFacts (ordersPlan ["agent_token", "contract", "staff_token"]) :=
  (failsClosed_iff (by decide +kernel)).mpr (by decide +kernel)

end CapabilityCompiler.Intents
