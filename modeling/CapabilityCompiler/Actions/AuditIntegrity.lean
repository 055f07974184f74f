import CapabilityCompiler.Actions.AuditJournal
import CapabilityCompiler.Foundation.JsonText

/-! An accepted journal is one of the histories that its appends made. -/
namespace CapabilityCompiler.Actions
open Foundation MacChain Machine

section Journal
variable {μ : Type} (host : AuditHost μ)

/-! What is assumed of the host. -/

/-- Different materials have different MACs. -/
def DistinctMacs : Prop :=
  ∀ sequence eventId digest previous sequence' eventId' digest' previous',
    host.hmac sequence eventId digest previous = host.hmac sequence' eventId' digest' previous' →
      sequence = sequence' ∧ eventId = eventId' ∧ digest = digest' ∧ previous = previous'

/-- The host reads the text of the event back, with the fields in some order. -/
def ReadsBack (event : AuditEvent) : Prop :=
  ∃ fields, host.loads (encodeEvent host event) = some (.obj fields) ∧ fields.Perm event.toDict

/-- The `REAL` column holds the time of the event, as it does if this is a double. -/
def Exact (event : AuditEvent) : Prop :=
  host.real event.fields.occurredAt.value = event.fields.occurredAt.value

/-! Decoding. -/

theorem encode_of_decodeEvent {payload : String} {event : AuditEvent}
    (h : decodeEvent host payload = some event) : encodeEvent host event = payload := by
  unfold decodeEvent at h
  split at h
  · split at h
    · obtain ⟨decoded, -, hdecoded⟩ := Option.bind_eq_some_iff.mp h
      split at hdecoded
      · rename_i hcanonical
        exact Option.some.inj hdecoded ▸ hcanonical
      · exact absurd hdecoded (by simp)
    · exact absurd h (by simp)
  · exact absurd h (by simp)

theorem nodup_toDict (event : AuditEvent) : (event.toDict.map Prod.fst).Nodup := by
  have hkeys : event.toDict.map Prod.fst = eventKeys := rfl
  rw [hkeys]
  decide

theorem valueOf_lifecycle (lifecycle : AuditLifecycle) :
    valueOf lifecycleNames (nameOf lifecycleNames lifecycle) = some lifecycle := by
  cases lifecycle <;> decide

theorem valueOf_category (category : AuditCategory) :
    valueOf categoryNames (nameOf categoryNames category) = some category := by
  cases category <;> decide

theorem valueOf_status (status : PreparedActionStatus) :
    valueOf statusNames (nameOf statusNames status) = some status := by
  cases status <;> decide

/-- The event is read from a document that has its fields. -/
theorem eventOfDict_of_fields {fields : Fields} {event : AuditEvent}
    (h : ∀ key, Json.field? key fields = Json.field? key event.toDict) :
    eventOfDict fields = some event := by
  obtain ⟨⟨lifecycle, capabilityId, status, category, packDigest, principalDigest, sessionDigest,
    eventId, occurredAt, actionDigest, decisionId⟩, hvalid⟩ := event
  have htime : readTime fields "occurred_at" = some occurredAt := by
    simp only [readTime, h]
    cases occurredAt <;> rfl
  have hstatus : readStatus fields = some status := by
    simp only [readStatus, readOptional, h]
    cases status with
    | none => rfl
    | some status => simp [AuditEvent.toDict, optionalText, valueOf_status]
  have hoptional : ∀ key value, Json.field? key fields = some (optionalText value) →
      readOptional fields key = some value := by
    intro key value hkey
    simp only [readOptional, hkey]
    cases value <;> rfl
  have hsession : readOptional fields "session_digest" = some sessionDigest :=
    hoptional _ _ (by rw [h]; rfl)
  have haction : readOptional fields "action_digest" = some actionDigest :=
    hoptional _ _ (by rw [h]; rfl)
  have hdecision : readOptional fields "approval_decision_id" = some decisionId :=
    hoptional _ _ (by rw [h]; rfl)
  simp only [eventOfDict, readText, h, htime, hstatus, hsession, haction, hdecision]
  simp [AuditEvent.toDict, valueOf_lifecycle, valueOf_category, AuditEvent.build?, hvalid]

theorem decodeEvent_encodeEvent {event : AuditEvent} (h : ReadsBack host event) :
    decodeEvent host (encodeEvent host event) = some event := by
  obtain ⟨fields, hloads, hperm⟩ := h
  have hfields := Json.field?_of_perm hperm (nodup_toDict event)
  have hkeys : hasEventKeys fields = true := by
    simp only [hasEventKeys, Bool.and_eq_true, List.all_eq_true]
    constructor
    · intro field hfield
      have hmem : field.1 ∈ event.toDict.map Prod.fst :=
        List.mem_map_of_mem (hperm.mem_iff.mp hfield)
      exact List.contains_iff_mem.mpr hmem
    · intro key hkey
      rw [hfields]
      exact Json.field?_isSome_iff.mpr hkey
  simp only [decodeEvent, hloads, hkeys, if_true, eventOfDict_of_fields hfields, Option.bind_some]

/-! Chains of rows. -/

/-- What of an event is authenticated: its identifier and its payload. -/
def contentOf (event : AuditEvent) : String × String :=
  (event.fields.eventId, encodeEvent host event)

def contentMac (sequence : ℕ) (content : String × String) (previous : μ) : μ :=
  eventMac host sequence content.1 content.2 previous

/-- The rows of these events from this sequence number and MAC on. -/
def rowsFrom : ℕ → μ → List AuditEvent → List (AuditRow μ)
  | _, _, [] => []
  | sequence, previous, event :: rest =>
    let mac := contentMac host sequence (contentOf host event) previous
    { sequence
      eventId := event.fields.eventId
      occurredAt := event.fields.occurredAt.value
      eventPayload := encodeEvent host event
      previousMac := previous
      eventMac := mac } :: rowsFrom (sequence + 1) mac rest

/-- The rows of the events from the start. -/
def rowsOf (events : List AuditEvent) : List (AuditRow μ) := rowsFrom host 1 host.zeroMac events

def headOf (events : List AuditEvent) : μ :=
  headFrom (contentMac host) 1 host.zeroMac (events.map (contentOf host))

variable {host}

@[simp] theorem length_rowsFrom (sequence : ℕ) (previous : μ) (events : List AuditEvent) :
    (rowsFrom host sequence previous events).length = events.length := by
  induction events generalizing sequence previous with
  | nil => rfl
  | cons event rest ih => rw [rowsFrom, List.length_cons, ih, List.length_cons]

theorem rowsFrom_append (sequence : ℕ) (previous : μ) (events : List AuditEvent)
    (event : AuditEvent) :
    rowsFrom host sequence previous (events ++ [event]) =
      rowsFrom host sequence previous events ++
        rowsFrom host (sequence + events.length)
          (headFrom (contentMac host) sequence previous (events.map (contentOf host))) [event] := by
  induction events generalizing sequence previous with
  | nil => rfl
  | cons first rest ih =>
    have hrest := ih (sequence + 1) (contentMac host sequence (contentOf host first) previous)
    rw [Nat.add_assoc, Nat.add_comm 1] at hrest
    rw [List.cons_append, rowsFrom, hrest]
    rfl

/-- The last row of a chain authenticates its event after the ones before it. -/
theorem mem_rowsOf_append (events : List AuditEvent) (event : AuditEvent) :
    ∃ row ∈ rowsOf host (events ++ [event]),
      row.eventMac = contentMac host (events.length + 1) (contentOf host event)
        (headOf host events) := by
  rw [rowsOf, rowsFrom_append, Nat.add_comm 1]
  exact ⟨_, List.mem_append_right _ (List.mem_singleton_self _), rfl⟩

theorem binding_contentMac (hsha : Function.Injective host.sha256) (hmacs : DistinctMacs host) :
    Binding (contentMac host) := by
  intro sequence content previous sequence' content' previous' heq
  obtain ⟨hsequence, hid, hdigest, hprevious⟩ := hmacs _ _ _ _ _ _ _ _ heq
  exact ⟨hsequence, Prod.ext hid (hsha hdigest), hprevious⟩

theorem decoded_events {journal : Journal μ} {event : AuditEvent}
    (h : event ∈ journal.events host) :
    decodeEvent host (encodeEvent host event) = some event := by
  obtain ⟨row, -, hdecoded⟩ := List.mem_filterMap.mp h
  rwa [encode_of_decodeEvent host hdecoded]

theorem foldl_max_rowsFrom (sequence : ℕ) (previous : μ) (events : List AuditEvent) {counter : ℤ}
    (h : (sequence : ℤ) - 1 ≤ counter) :
    (rowsFrom host sequence previous events).foldl (fun largest row => max largest row.sequence)
        counter = max counter (sequence + events.length - 1) := by
  induction events generalizing sequence previous counter with
  | nil =>
    rw [rowsFrom, List.foldl_nil, List.length_nil]
    omega
  | cons event rest ih =>
    rw [rowsFrom, List.foldl_cons, ih _ _ (by push_cast; omega)]
    push_cast [List.length_cons]
    omega

/-- The next number of a chain is the one after its last row, unless the counter is past it. -/
theorem nextSequence_rowsOf {journal : Journal μ} {events : List AuditEvent}
    (hrows : journal.rows = rowsOf host events) :
    journal.nextSequence = max (journal.counter : ℤ) events.length + 1 := by
  rw [Journal.nextSequence, hrows, rowsOf, foldl_max_rowsFrom 1 _ _ (by simp)]
  omega

/-! Signed links. -/

/-- The links that appends made are those at the ends of these histories. -/
def SignedIn (host : AuditHost μ) (histories : List (List AuditEvent)) : ℕ → String × String → μ →
    Prop :=
  Signed (contentMac host) host.zeroMac
    (Set.image (List.map (contentOf host)) {history | history ∈ histories})

/-- Whoever edits the database without the key has only the MACs of the appends. -/
def Unforged (host : AuditHost μ) (state : AuditState μ) : AuditStep μ → Prop
  | .append _ _ => True
  | .replace journal => ∀ row ∈ journal.rows, ∀ sequence content previous,
      row.eventMac = contentMac host sequence content previous →
        SignedIn host state.histories sequence content previous

theorem SignedIn.mono {histories more : List (List AuditEvent)} {sequence : ℕ}
    {content : String × String} {previous : μ} (h : SignedIn host histories sequence content previous) :
    SignedIn host (histories ++ more) sequence content previous := by
  obtain ⟨earlier, ⟨history, hmem, hmap⟩, hposition⟩ := h
  exact ⟨earlier, ⟨history, List.mem_append_left _ hmem, hmap⟩, hposition⟩

/-- Encodings that are read back come from the same events. -/
theorem eq_of_map_contentOf {events others : List AuditEvent}
    (hevents : ∀ event ∈ events, decodeEvent host (encodeEvent host event) = some event)
    (hothers : ∀ event ∈ others, decodeEvent host (encodeEvent host event) = some event)
    (h : events.map (contentOf host) = others.map (contentOf host)) : events = others := by
  induction events generalizing others with
  | nil => exact (List.map_eq_nil_iff.mp h.symm).symm
  | cons event rest ih =>
    cases others with
    | nil => exact absurd h (by simp)
    | cons other others =>
      rw [List.map_cons, List.map_cons] at h
      obtain ⟨hhead, htail⟩ := List.cons.inj h
      have hencoded : encodeEvent host event = encodeEvent host other := congrArg Prod.snd hhead
      have hevent := hevents event List.mem_cons_self
      rw [hencoded, hothers other List.mem_cons_self] at hevent
      rw [Option.some.inj hevent, ih (fun e he => hevents e (List.mem_cons_of_mem _ he))
        (fun e he => hothers e (List.mem_cons_of_mem _ he)) htail]

/-! Verification. -/

variable [DecidableEq μ]

/-- Rows that are verified are the rows of their events. -/
theorem rows_of_verifyRows {sequence : ℕ} {previous : μ} {rows : List (AuditRow μ)}
    {outcome : ℕ × μ} (h : verifyRows host sequence previous rows = .ok outcome) :
    ∃ events, rows.filterMap (fun row => decodeEvent host row.eventPayload) = events ∧
      rows = rowsFrom host sequence previous events ∧
      outcome = (sequence + events.length - 1,
        headFrom (contentMac host) sequence previous (events.map (contentOf host))) := by
  induction rows generalizing sequence previous with
  | nil => exact ⟨[], rfl, rfl, (Except.ok.inj h).symm⟩
  | cons row rest ih =>
    rw [verifyRows] at h
    split at h
    · exact absurd h (by simp)
    · rename_i hlinked
      split at h
      · exact absurd h (by simp)
      · rename_i event hdecoded
        split at h
        · exact absurd h (by simp)
        · rename_i hrow
          push Not at hlinked hrow
          obtain ⟨events, hevents, hrest, houtcome⟩ := ih h
          refine ⟨event :: events, ?_, ?_, ?_⟩
          · rw [List.filterMap_cons, hdecoded, hevents]
          · have hpayload := encode_of_decodeEvent host hdecoded
            obtain ⟨rowSequence, eventId, occurredAt, payload, previousMac, mac⟩ := row
            simp only at hlinked hrow hpayload hrest
            obtain ⟨rfl, rfl, rfl⟩ := hlinked
            obtain ⟨rfl, rfl⟩ := hrow
            subst hpayload
            rw [rowsFrom]
            exact congrArg _ hrest
          · rw [houtcome, hlinked.2.2, List.map_cons, headFrom, List.length_cons]
            have hpayload := encode_of_decodeEvent host hdecoded
            simp only [contentMac, contentOf, hrow.1, hpayload, Nat.add_right_comm, Nat.add_assoc]

/-- The rows of events that are read back are verified. -/
theorem verifyRows_rowsFrom {events : List AuditEvent}
    (h : ∀ event ∈ events, decodeEvent host (encodeEvent host event) = some event)
    (sequence : ℕ) (previous : μ) :
    verifyRows host sequence previous (rowsFrom host sequence previous events) =
      .ok (sequence + events.length - 1,
        headFrom (contentMac host) sequence previous (events.map (contentOf host))) := by
  induction events generalizing sequence previous with
  | nil => rfl
  | cons event rest ih =>
    have hrest := ih (fun other hother => h other (List.mem_cons_of_mem _ hother)) (sequence + 1)
      (contentMac host sequence (contentOf host event) previous)
    rw [rowsFrom, verifyRows, if_neg (by simp [contentMac, contentOf])]
    simp only [h event List.mem_cons_self, ne_eq, not_true_eq_false, or_self, if_false, hrest,
      List.map_cons, headFrom, List.length_cons, Nat.add_assoc, Nat.add_comm 1]

/-- An accepted journal consists of the rows of its events. -/
theorem rows_of_verifyChain {maxEvents : ℕ} {journal : Journal μ} {outcome : ℕ × μ}
    (h : verifyChain host maxEvents journal = .ok outcome) :
    journal.rows = rowsOf host (journal.events host) ∧
      outcome = ((journal.events host).length, headOf host (journal.events host)) := by
  unfold verifyChain at h
  split at h
  · exact absurd h (by simp)
  · obtain ⟨events, hevents, hrows, houtcome⟩ := rows_of_verifyRows h
    obtain rfl : journal.events host = events := hevents
    refine ⟨hrows, ?_⟩
    rw [houtcome, Nat.add_sub_cancel_left]
    rfl

theorem verifyChain_of_rows {journal : Journal μ} {events : List AuditEvent}
    (hrows : journal.rows = rowsOf host events)
    (h : ∀ event ∈ events, decodeEvent host (encodeEvent host event) = some event)
    {maxEvents : ℕ} (hmax : journal.rows.length ≤ maxEvents) :
    ∃ outcome, verifyChain host maxEvents journal = .ok outcome := by
  rw [verifyChain, if_neg (not_lt.mpr hmax), hrows]
  exact ⟨_, verifyRows_rowsFrom h 1 host.zeroMac⟩

/-! Appending. -/

/-- An append verifies the journal and adds the row of its event. -/
theorem appendSync_cases {maxEvents : ℕ} {event : AuditEvent} {journal next : Journal μ}
    (h : appendSync host maxEvents event journal = .ok next) :
    ∃ outcome row, verifyChain host maxEvents journal = .ok outcome ∧
      row.sequence = journal.nextSequence ∧ row.eventId = event.fields.eventId ∧
      row.occurredAt = host.real event.fields.occurredAt.value ∧
      row.eventPayload = encodeEvent host event ∧ row.previousMac = outcome.2 ∧
      row.eventMac = contentMac host (outcome.1 + 1) (contentOf host event) outcome.2 ∧
      next = { rows := journal.rows ++ [row], counter := journal.nextSequence.toNat } := by
  unfold appendSync at h
  split at h
  · exact absurd h (by simp)
  · rename_i sequence previous hverified
    split at h
    · exact absurd h (by simp)
    · split at h
      · exact absurd h (by simp)
      · exact ⟨_, _, hverified, rfl, rfl, rfl, rfl, rfl, rfl, (Except.ok.inj h).symm⟩

/-- The journal is a chain that the next append can continue. -/
def Continuable (host : AuditHost μ) (journal : Journal μ) : Prop :=
  journal.rows = rowsOf host (journal.events host) ∧ journal.counter ≤ journal.rows.length

/-- An append continues the chain. -/
theorem Continuable.append {maxEvents : ℕ} {event : AuditEvent} {journal next : Journal μ}
    (h : Continuable host journal) (hexact : Exact host event) (hreads : ReadsBack host event)
    (happend : appendSync host maxEvents event journal = .ok next) :
    Continuable host next ∧ next.events host = journal.events host ++ [event] := by
  obtain ⟨outcome, row, hverified, hsequence, hid, htime, hpayload, hprevious, hmac, rfl⟩ :=
    appendSync_cases happend
  obtain ⟨hrows, rfl⟩ := rows_of_verifyChain hverified
  have hdecoded := decodeEvent_encodeEvent host hreads
  have hlength : journal.rows.length = (journal.events host).length := by
    conv_lhs => rw [hrows, rowsOf, length_rowsFrom]
  have hnext := nextSequence_rowsOf hrows
  have hcounter : journal.nextSequence = (journal.events host).length + 1 := by
    have hle := h.2
    omega
  have hevents : Journal.events host { rows := journal.rows ++ [row]
                                       counter := journal.nextSequence.toNat } =
      journal.events host ++ [event] := by
    simp only [Journal.events, List.filterMap_append, List.filterMap_cons, List.filterMap_nil,
      hpayload, hdecoded]
  refine ⟨⟨?_, ?_⟩, hevents⟩
  · rw [hevents, rowsOf, rowsFrom_append]
    have hrow : [row] = rowsFrom host (1 + (journal.events host).length)
        (headFrom (contentMac host) 1 host.zeroMac
          ((journal.events host).map (contentOf host))) [event] := by
      obtain ⟨rowSequence, eventId, occurredAt, payload, previousMac, mac⟩ := row
      simp only at hsequence hid htime hpayload hprevious hmac
      subst hid hpayload hprevious hmac
      simp only [rowsFrom, List.cons.injEq, and_true, AuditRow.mk.injEq, true_and]
      refine ⟨?_, ?_, rfl, ?_⟩
      · rw [hsequence, hcounter]
        push_cast
        omega
      · rw [htime]
        exact hexact
      · rw [Nat.add_comm 1]
        rfl
    exact congrArg₂ (· ++ ·) hrows hrow
  · simp only [List.length_append, List.length_singleton]
    omega

/-- An append that fits under the bound extends an accepted chain to an accepted one. -/
theorem Continuable.accepted {journal : Journal μ} (h : Continuable host journal) {maxEvents : ℕ}
    (hmax : journal.rows.length ≤ maxEvents) :
    ∃ outcome, verifyChain host maxEvents journal = .ok outcome :=
  verifyChain_of_rows h.1 (fun _ hevent => decoded_events hevent) hmax

/-! Runs. -/

/-- The events whose appends succeeded, in order. -/
def acknowledged (trace : List (AuditStep μ × Except String Unit)) : List AuditEvent :=
  trace.filterMap fun entry => match entry with
    | (.append _ event, .ok ()) => some event
    | _ => none

def AuditStep.isReplace : AuditStep μ → Bool
  | .append _ _ => false
  | .replace _ => true

/-- What the appends of a run leave behind. -/
structure Kept (host : AuditHost μ) (state : AuditState μ) : Prop where
  signed : ∀ row ∈ state.journal.rows, ∀ sequence content previous,
    row.eventMac = contentMac host sequence content previous →
      SignedIn host state.histories sequence content previous
  decoded : ∀ history ∈ state.histories, ∀ event ∈ history,
    decodeEvent host (encodeEvent host event) = some event
  closed : ∀ history event, history ++ [event] ∈ state.histories →
    history = [] ∨ history ∈ state.histories

/-- An accepted journal is empty or one of the histories. -/
theorem Kept.events_mem (hbinding : Binding (contentMac host)) {state : AuditState μ}
    (h : Kept host state) {maxEvents : ℕ} {outcome : ℕ × μ}
    (hverified : verifyChain host maxEvents state.journal = .ok outcome) :
    state.journal.events host = [] ∨ state.journal.events host ∈ state.histories := by
  obtain ⟨hrows, -⟩ := rows_of_verifyChain hverified
  rcases List.eq_nil_or_concat (state.journal.events host) with hnil | ⟨events, event, hevents⟩
  · exact Or.inl hnil
  · right
    rw [List.concat_eq_append] at hevents
    obtain ⟨row, hrow, hmac⟩ := @mem_rowsOf_append _ host events event
    have hsigned := h.signed row (by rw [hrows, hevents]; exact hrow) _ _ _ hmac
    have hlength : (events.map (contentOf host)).length + 1 = events.length + 1 := by
      rw [List.length_map]
    have hmem := mem_of_signed hbinding (hlength ▸ hsigned)
    obtain ⟨history, hhistory, hmap⟩ := hmem
    have heq : history = events ++ [event] := by
      apply eq_of_map_contentOf (h.decoded history hhistory)
      · intro other hother
        exact decoded_events (hevents ▸ hother)
      · rw [hmap, List.map_append, List.map_singleton]
    rw [hevents, ← heq]
    exact hhistory

/-- What a step of a run keeps. -/
theorem Kept.step (hbinding : Binding (contentMac host)) (state : AuditState μ)
    (step : AuditStep μ)
    (hsound : Unforged host state step ∧
      ∀ maxEvents event, step = .append maxEvents event → ReadsBack host event)
    (h : Kept host state) : Kept host (auditStep host state step).2 := by
  cases step with
  | replace journal => exact ⟨hsound.1, h.decoded, h.closed⟩
  | append maxEvents event =>
    have hreads := hsound.2 maxEvents event rfl
    simp only [auditStep]
    cases happend : appendSync host maxEvents event state.journal with
    | error message => exact h
    | ok next =>
      obtain ⟨outcome, row, hverified, -, -, -, -, -, hmac, rfl⟩ := appendSync_cases happend
      obtain ⟨-, rfl⟩ := rows_of_verifyChain hverified
      refine ⟨?_, ?_, ?_⟩
      · intro other hother sequence content previous heq
        rcases List.mem_append.mp hother with hold | hnew
        · exact (h.signed other hold sequence content previous heq).mono
        · rw [List.mem_singleton.mp hnew, hmac] at heq
          obtain ⟨rfl, rfl, rfl⟩ := hbinding _ _ _ _ _ _ heq
          refine ⟨(state.journal.events host).map (contentOf host), ⟨_,
            List.mem_append_right _ (List.mem_singleton_self _), ?_⟩, ?_, rfl⟩
          · rw [List.map_append, List.map_singleton]
          · rw [List.length_map]
      · intro history hhistory other hother
        rcases List.mem_append.mp hhistory with hold | hnew
        · exact h.decoded history hold other hother
        · rw [List.mem_singleton.mp hnew] at hother
          rcases List.mem_append.mp hother with hearlier | hlast
          · exact decoded_events hearlier
          · rw [List.mem_singleton.mp hlast]
            exact decodeEvent_encodeEvent host hreads
      · intro history last hmem
        rcases List.mem_append.mp hmem with hold | hnew
        · exact (h.closed history last hold).imp_right (List.mem_append_left _)
        · obtain ⟨rfl, -⟩ := List.append_inj' (List.mem_singleton.mp hnew) rfl
          exact (h.events_mem hbinding hverified).imp_right (List.mem_append_left _)

/-- Without edits the journal holds exactly the events whose appends succeeded. -/
theorem events_after (steps : List (AuditStep μ))
    (hreads : ∀ maxEvents event, .append maxEvents event ∈ steps → ReadsBack host event)
    (hedits : ∀ step ∈ steps, step.isReplace = false) :
    (after (auditStep host) {} steps).journal.events host =
      acknowledged (trace (auditStep host) {} steps) := by
  induction steps using List.reverseRecOn with
  | nil => rfl
  | append_singleton steps step ih =>
    have hprevious := ih (fun maxEvents event hmem => hreads maxEvents event
      (List.mem_append_left _ hmem)) (fun other hother => hedits other (List.mem_append_left _ hother))
    rw [after_append, trace_append, acknowledged, List.filterMap_append]
    rw [acknowledged] at hprevious
    rw [← hprevious]
    cases step with
    | replace journal => exact absurd (hedits (.replace journal) (by simp)) (by simp [AuditStep.isReplace])
    | append maxEvents event =>
      simp only [after, trace, auditStep]
      cases happend : appendSync host maxEvents event
          (after (auditStep host) {} steps).journal with
      | error message => simp
      | ok next =>
        obtain ⟨outcome, row, -, -, -, -, hpayload, -, -, rfl⟩ := appendSync_cases happend
        have hdecoded := decodeEvent_encodeEvent host (hreads maxEvents event (by simp))
        simp [Journal.events, List.filterMap_append, hpayload, hdecoded]

/-- Appends of times that the column holds keep the chain one that the next append continues. -/
theorem Continuable.appends {state : AuditState μ} (h : Continuable host state.journal)
    {appends : List (ℕ × AuditEvent)}
    (happends : ∀ entry ∈ appends, Exact host entry.2 ∧ ReadsBack host entry.2) :
    Continuable host (after (auditStep host) state
      (appends.map fun entry => AuditStep.append entry.1 entry.2)).journal := by
  induction appends generalizing state with
  | nil => exact h
  | cons entry rest ih =>
    have hrest := fun other hother => happends other (List.mem_cons_of_mem entry hother)
    obtain ⟨hexact, hreads⟩ := happends entry List.mem_cons_self
    rw [List.map_cons, after]
    apply ih _ hrest
    simp only [auditStep]
    cases happend : appendSync host entry.1 entry.2 state.journal with
    | error message => exact h
    | ok next => exact (h.append hexact hreads happend).1

/-- Along every run of appends by any processes and of edits without the key: an accepted journal
consists of the rows of its events, which were the whole journal after some append, and of all
acknowledged events if nothing was edited; what was a whole journal before its last append was one
too; and from an accepted journal whose counter is not past its rows, appends by any processes lead
to accepted journals. -/
theorem audit_chain_history (hsha : Function.Injective host.sha256) (hmacs : DistinctMacs host)
    (steps : List (AuditStep μ))
    (hreads : ∀ maxEvents event, .append maxEvents event ∈ steps → ReadsBack host event)
    (hunforged : Along (auditStep host) (Unforged host) {} steps) :
    let state := after (auditStep host) {} steps
    (∀ maxEvents outcome, verifyChain host maxEvents state.journal = .ok outcome →
      state.journal.rows = rowsOf host (state.journal.events host) ∧
      (state.journal.events host = [] ∨ state.journal.events host ∈ state.histories) ∧
      ((∀ step ∈ steps, step.isReplace = false) →
        state.journal.events host = acknowledged (trace (auditStep host) {} steps))) ∧
    (∀ history event, history ++ [event] ∈ state.histories →
      history = [] ∨ history ∈ state.histories) ∧
    (∀ maxEvents outcome, verifyChain host maxEvents state.journal = .ok outcome →
      state.journal.counter ≤ state.journal.rows.length →
      ∀ appends : List (ℕ × AuditEvent),
        (∀ entry ∈ appends, Exact host entry.2 ∧ ReadsBack host entry.2) →
        let next := (after (auditStep host) state
          (appends.map fun entry => .append entry.1 entry.2)).journal
        ∀ bound, next.rows.length ≤ bound →
          ∃ outcome, verifyChain host bound next = .ok outcome) := by
  intro state
  have hbinding := binding_contentMac hsha hmacs
  have hsound : Along (auditStep host) (fun state step => Unforged host state step ∧
      ∀ maxEvents event, step = .append maxEvents event → ReadsBack host event) {} steps :=
    hunforged.and_mem fun step hstep maxEvents event heq => hreads maxEvents event (heq ▸ hstep)
  have hkept : Kept host state := by
    apply hsound.invariant (P := Kept host) (Kept.step hbinding)
    exact ⟨fun row hrow => absurd hrow List.not_mem_nil,
      fun history hhistory => absurd hhistory List.not_mem_nil,
      fun history event hmem => absurd hmem List.not_mem_nil⟩
  refine ⟨?_, hkept.closed, ?_⟩
  · intro maxEvents outcome hverified
    exact ⟨(rows_of_verifyChain hverified).1, hkept.events_mem hbinding hverified,
      events_after steps hreads⟩
  · intro maxEvents outcome hverified hcounter appends happends next bound hbound
    have hcontinuable : Continuable host state.journal :=
      ⟨(rows_of_verifyChain hverified).1, hcounter⟩
    exact (hcontinuable.appends happends).accepted hbound

end Journal

/-! A host whose MACs are the authenticated materials themselves. -/

inductive Tag where
  | zero
  | of (sequence : ℕ) (eventId digest : String) (previous : Tag)
deriving DecidableEq

private def someDigest : String :=
  "0123456789abcdef0123456789abcdef0123456789abcdef0123456789abcdef"

private def startedEvent : AuditEvent where
  fields :=
    { lifecycle := .prepare, capabilityId := "capability.orders", status := none
      resultCategory := .started, packDigest := "sha256:" ++ someDigest
      principalDigest := someDigest, sessionDigest := none, eventId := someDigest
      occurredAt := .float 1, actionDigest := none, approvalDecisionId := none }
  valid := by decide

private def plainPrinter : Printer := { floatRepr := fun _ => "1.0" }

private def tagHost : AuditHost Tag where
  toPrinter := plainPrinter
  sha256 := id
  loads text :=
    if text = plainPrinter.dumps (.obj startedEvent.toDict) then some (.obj startedEvent.toDict)
    else none
  hmac := .of
  zeroMac := .zero
  real := id

private theorem tagHost_distinct : DistinctMacs tagHost := by
  intro sequence eventId digest previous sequence' eventId' digest' previous' heq
  exact Tag.of.inj heq

private theorem tagHost_reads : ReadsBack tagHost startedEvent := by
  refine ⟨startedEvent.toDict, ?_, List.Perm.refl _⟩
  simp only [encodeEvent, tagHost, if_true]

/-- One event is appended, then the database is rolled back to the empty one. -/
private def rolledBack : List (AuditStep Tag) := [.append 2 startedEvent, .replace {}]

theorem rolledBack_history :
    let state := after (auditStep tagHost) {} rolledBack
    verifyChain tagHost 2 state.journal = .ok (0, .zero) ∧ state.journal.counter = 0 ∧
    ∃ outcome, verifyChain tagHost 2 (after (auditStep tagHost) state
      [.append 2 startedEvent]).journal = .ok outcome := by
  have haccepted : verifyChain tagHost 2 (after (auditStep tagHost) {} rolledBack).journal =
      .ok (0, .zero) := rfl
  have happended := (audit_chain_history Function.injective_id tagHost_distinct rolledBack
    (by
      intro maxEvents event hmem
      rcases List.mem_pair.mp hmem with heq | heq
      · exact (AuditStep.append.inj heq).2 ▸ tagHost_reads
      · exact absurd heq (by simp))
    ⟨trivial, fun row hrow => absurd hrow List.not_mem_nil, trivial⟩).2.2 2 _ haccepted
    (Nat.le_refl 0) [(2, startedEvent)] (by
      intro entry hentry
      rw [List.mem_singleton.mp hentry]
      exact ⟨rfl, tagHost_reads⟩)
  refine ⟨haccepted, rfl, happended 2 ?_⟩
  decide

/-- Cutting off the last row leaves a journal that is accepted without it, and the number that the
table gives to the next row is then not the one that the chain expects. -/
theorem cut_tail_accepted :
    let state := after (auditStep tagHost) {}
      [.append 2 startedEvent, .replace { rows := [], counter := 1 }]
    Function.Injective tagHost.sha256 ∧ DistinctMacs tagHost ∧
    Along (auditStep tagHost) (Unforged tagHost) {}
      [.append 2 startedEvent, .replace { rows := [], counter := 1 }] ∧
    verifyChain tagHost 2 state.journal = .ok (0, .zero) ∧
    acknowledged (trace (auditStep tagHost) {} [.append 2 startedEvent]) = [startedEvent] ∧
    state.journal.events tagHost = [] ∧
    ∃ next, appendSync tagHost 2 startedEvent state.journal = .ok next ∧
      ∀ maxEvents, isOk (verifyChain tagHost maxEvents next) = false := by
  refine ⟨Function.injective_id, tagHost_distinct,
    ⟨trivial, fun row hrow => absurd hrow List.not_mem_nil, trivial⟩, rfl, ?_, rfl, _, rfl, ?_⟩
  · decide
  · intro maxEvents
    rw [verifyChain]
    split
    · rfl
    · rfl
end CapabilityCompiler.Actions
