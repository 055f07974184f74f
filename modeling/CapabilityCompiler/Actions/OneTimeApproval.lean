import CapabilityCompiler.Actions.ApprovalAuthority

/-! A decision is issued once and ends once. -/
namespace CapabilityCompiler.Actions.ApprovalAuthority
open Foundation

abbrev Entry := ApprovalCall × ApprovalAnswer

variable (host : AuthorityHost)

/-- The calls of a run from an empty authority with the answers to them. -/
abbrev history (calls : List ApprovalCall) : List Entry :=
  Machine.trace (answer host) {} calls

/-- The decisions after a run from an empty authority. -/
abbrev decisionsAfter (calls : List ApprovalCall) : Table String ApprovalDecisionRecord :=
  (Machine.after (answer host) {} calls).decisions

/-- The call has succeeded on the decision under a digest. -/
def concerns (digest : String) : Entry → Bool
  | (.issue _ _ _ _ _ generated, .issued _) => host.digest.sha256 generated = digest
  | (.verify handle _ _, .granted _) => host.digest.sha256 handle = digest
  | (.revoke handle _ _, .decided _) => host.digest.sha256 handle = digest
  | _ => false

/-- The call has issued this decision. -/
structure Issued (digest : String) (entry : Entry) (record : ApprovalDecisionRecord) : Prop where
  call : ∃ expiresInSeconds generated,
    entry = (.issue record.binding record.decisionId record.approverId expiresInSeconds
      record.approvedAt generated, .issued generated) ∧
    host.digest.sha256 generated = digest ∧
    record.expiresAt = host.later record.approvedAt expiresInSeconds.toNat

/-- What one call does to the decision under a digest. -/
inductive Moved (digest : String) :
    Entry → Option ApprovalDecisionRecord → Option ApprovalDecisionRecord → Prop
  | kept {entry row} (h : concerns host digest entry = false) : Moved digest entry row row
  | expired {entry record} (h : concerns host digest entry = false)
      (happroved : record.status = .approved) : Moved digest entry (some record) (some record.expire)
  | issued {entry record} (h : Issued host digest entry record)
      (happroved : record.status = .approved) : Moved digest entry none (some record)
  | consumed {handle now record} (hdigest : host.digest.sha256 handle = digest)
      (happroved : record.status = .approved) (hown : now < record.expiresAt)
      (haction : now < record.binding.actionExpiresAt) :
      Moved digest (.verify handle record.binding now, .granted (record.grant digest)) (some record)
        (some (record.consume now))
  | revoked {handle revokedBy now record} (hdigest : host.digest.sha256 handle = digest)
      (happroved : record.status = .approved) :
      Moved digest (.revoke handle revokedBy now, .decided (record.revoke now revokedBy))
        (some record) (some (record.revoke now revokedBy))

variable {host}

theorem auditIdentifier_eq {value fieldName checked : String}
    (h : auditIdentifier value fieldName = .ok checked) : checked = value := by
  simp only [auditIdentifier, exactIdentifier, bind, Except.bind, pure, Except.pure] at h
  split at h
  · exact absurd h (by simp)
  · rename_i result hresult
    split at hresult
    · exact absurd hresult (by simp)
    · split at hresult
      · exact absurd hresult (by simp)
      · split at h
        · exact absurd h (by simp)
        · rw [Except.ok.injEq] at h hresult
          rw [← h, hresult]

/-- Expiring the due decisions keeps a decision or ends an approved one. -/
theorem get?_expireDue (authority : ApprovalAuthority) (now : ℚ) (digest : String) :
    let row := Table.get? digest authority.decisions
    let row' := Table.get? digest (Table.mapValues (·.expireDue now) authority.decisions)
    row' = row ∨ ∃ record, row = some record ∧ record.status = .approved ∧
      row' = some record.expire := by
  intro row row'
  have hrow' : row' = row.map (·.expireDue now) := Table.get?_mapValues _ _ _
  rw [hrow']
  cases hrow : row with
  | none => exact .inl rfl
  | some record =>
    by_cases hdue : record.status = .approved ∧ record.expiresAt ≤ now
    · exact .inr ⟨record, rfl, hdue.1, by simp [ApprovalDecisionRecord.expireDue, hdue]⟩
    · exact .inl (by simp only [Option.map_some, ApprovalDecisionRecord.expireDue, if_neg hdue])

/-- A successful issue: the due decisions have expired and the new one stands under a fresh
digest. -/
theorem issue_eq_ok {authority authority' : ApprovalAuthority} {binding : ApprovalBinding}
    {decisionId approverId generated : String} {expiresInSeconds : ℤ} {now : ℚ}
    (h : authority.issue host binding decisionId approverId expiresInSeconds now generated =
      .ok authority') :
    ∃ record : ApprovalDecisionRecord,
      Issued host (host.digest.sha256 generated)
        (.issue binding decisionId approverId expiresInSeconds now generated,
          .issued generated) record ∧
      record.status = .approved ∧
      Table.get? (host.digest.sha256 generated)
        (Table.mapValues (·.expireDue now) authority.decisions) = none ∧
      authority'.decisions = Table.put (host.digest.sha256 generated) record
        (Table.mapValues (·.expireDue now) authority.decisions) := by
  simp only [issue, bind, Except.bind] at h
  cases hdecision : auditIdentifier decisionId "decision_id" with
  | error error => simp [hdecision] at h
  | ok decision =>
    cases happrover : auditIdentifier approverId "approver_id" with
    | error error => simp [hdecision, happrover] at h
    | ok approver =>
      obtain rfl := auditIdentifier_eq hdecision
      obtain rfl := auditIdentifier_eq happrover
      simp only [hdecision, happrover] at h
      split at h
      · exact absurd h (by simp)
      · split at h
        · exact absurd h (by simp)
        · split at h
          · split at h
            · exact absurd h (by simp)
            · unfold issueSync at h
              split at h
              · rename_i hlifetime
                simp only at h
                split at h
                · exact absurd h (by simp)
                · split at h
                  · exact absurd h (by simp)
                  · rename_i hunique
                    rw [not_or, Option.not_isSome_iff_eq_none] at hunique
                    rw [Except.ok.injEq] at h
                    subst h
                    exact ⟨_, ⟨_, _, rfl, rfl, rfl⟩, rfl, hunique.1, rfl⟩
              · exact absurd h (by simp)
          · exact absurd h (by simp)

theorem moved_of_issue (authority : ApprovalAuthority) (binding : ApprovalBinding)
    (decisionId approverId generated : String) (expiresInSeconds : ℤ) (now : ℚ) (digest : String) :
    let call := ApprovalCall.issue binding decisionId approverId expiresInSeconds now generated
    Moved host digest (call, (answer host authority call).1)
      (Table.get? digest authority.decisions)
      (Table.get? digest (answer host authority call).2.decisions) := by
  intro call
  cases hissue : authority.issue host binding decisionId approverId expiresInSeconds now generated with
  | error error =>
    simp only [call, answer, hissue]
    exact .kept rfl
  | ok authority' =>
    obtain ⟨record, hissued, happroved, hfresh, hdecisions⟩ := issue_eq_ok hissue
    simp only [call, answer, hissue, hdecisions, Table.get?_put]
    have hdue := get?_expireDue authority now digest
    split
    · rename_i hdigest
      rw [← hdigest] at hfresh hissued
      have hnone : Table.get? digest authority.decisions = none := by
        rcases hdue with heq | ⟨record, -, -, hexpired⟩
        · rw [← heq, hfresh]
        · exact absurd (hfresh.symm.trans hexpired) (by simp)
      rw [hnone]
      exact .issued hissued happroved
    · rename_i hdigest
      have hother : concerns host digest
          (.issue binding decisionId approverId expiresInSeconds now generated,
            .issued generated) = false := by
        simpa [concerns] using fun heq => hdigest heq.symm
      rcases hdue with heq | ⟨record, hrow, hstatus, hexpired⟩
      · rw [heq]
        exact .kept hother
      · rw [hexpired, hrow]
        exact .expired hother hstatus

variable (host) in
/-- A verification changes nothing, ends a due decision, or consumes a decision that is approved,
bound to what is expected and alive. -/
theorem verify_cases (authority : ApprovalAuthority) (handle : String) (expected : ApprovalBinding)
    (now : ℚ) :
    (∃ error, authority.verify host handle expected now = (.error error, authority)) ∨
    ∃ record, Table.get? (host.digest.sha256 handle) authority.decisions = some record ∧
      record.status = .approved ∧
      (authority.verify host handle expected now = (.error approvalExpired, { authority with
          decisions := Table.put (host.digest.sha256 handle) record.expire authority.decisions }) ∨
        record.binding = expected ∧ now < record.expiresAt ∧ now < record.binding.actionExpiresAt ∧
        authority.verify host handle expected now =
          (.ok (record.grant (host.digest.sha256 handle)), { authority with
            decisions := Table.put (host.digest.sha256 handle) (record.consume now)
              authority.decisions })) := by
  unfold verify approvalDigest ensureOpen
  by_cases hhandle : isHandle handle
  · by_cases hclosed : authority.closed
    · simp only [hhandle, hclosed, if_true]
      exact .inl ⟨_, rfl⟩
    · simp only [hhandle, hclosed, if_true, Bool.false_eq_true, if_false, verifySync]
      cases hrow : Table.get? (host.digest.sha256 handle) authority.decisions with
      | none => exact .inl ⟨_, rfl⟩
      | some record =>
        simp only
        by_cases hdue : record.status = .approved ∧
            (record.expiresAt ≤ now ∨ record.binding.actionExpiresAt ≤ now)
        · rw [if_pos hdue]
          exact .inr ⟨record, rfl, hdue.1, .inl rfl⟩
        · rw [if_neg hdue]
          by_cases hmatch : record.binding ≠ expected ∨ record.status ≠ .approved
          · rw [if_pos hmatch]
            exact .inl ⟨_, rfl⟩
          · rw [if_neg hmatch]
            rw [not_or, not_not, not_not] at hmatch
            have hlive : now < record.expiresAt ∧ now < record.binding.actionExpiresAt := by
              simpa [hmatch.2] using hdue
            exact .inr ⟨record, rfl, hmatch.2, .inr ⟨hmatch.1, hlive.1, hlive.2, rfl⟩⟩
  · simp only [hhandle, Bool.false_eq_true, if_false]
    exact .inl ⟨_, rfl⟩

theorem moved_of_verify (authority : ApprovalAuthority) (handle : String)
    (expected : ApprovalBinding) (now : ℚ) (digest : String) :
    let call := ApprovalCall.verify handle expected now
    Moved host digest (call, (answer host authority call).1)
      (Table.get? digest authority.decisions)
      (Table.get? digest (answer host authority call).2.decisions) := by
  intro call
  rcases verify_cases host authority handle expected now with
    ⟨error, hverify⟩ | ⟨record, hrow, happroved, hverify | ⟨rfl, hown, haction, hverify⟩⟩
  · simp only [call, answer, hverify]
    exact .kept rfl
  · simp only [call, answer, hverify, Table.get?_put]
    split
    · rename_i hdigest
      rw [hdigest, hrow]
      exact .expired rfl happroved
    · exact .kept rfl
  · simp only [call, answer, hverify, Table.get?_put]
    split
    · rename_i hdigest
      rw [hdigest, hrow]
      exact .consumed rfl happroved hown haction
    · rename_i hdigest
      refine .kept ?_
      simpa [concerns] using fun heq => hdigest heq.symm

theorem moved_of_revoke (authority : ApprovalAuthority) (handle revokedBy : String) (now : ℚ)
    (digest : String) :
    let call := ApprovalCall.revoke handle revokedBy now
    Moved host digest (call, (answer host authority call).1)
      (Table.get? digest authority.decisions)
      (Table.get? digest (answer host authority call).2.decisions) := by
  intro call
  simp only [call, answer]
  cases hrevoke : authority.revoke host handle revokedBy now with
  | error error => exact .kept rfl
  | ok revoked =>
    simp only [revoke, approvalDigest, ensureOpen, bind, Except.bind] at hrevoke
    split at hrevoke
    · exact absurd hrevoke (by simp)
    · rename_i found hfound
      have hdigest : found = host.digest.sha256 handle := by
        split at hfound
        · exact (Except.ok.inj hfound).symm
        · exact absurd hfound (by simp)
      subst hdigest
      cases hactor : auditIdentifier revokedBy "revoked_by" with
      | error error => simp [hactor] at hrevoke
      | ok actor =>
        obtain rfl := auditIdentifier_eq hactor
        simp only [hactor] at hrevoke
        split at hrevoke
        · exact absurd hrevoke (by simp)
        · simp only [revokeSync] at hrevoke
          cases hrow : Table.get? (host.digest.sha256 handle) authority.decisions with
          | none => simp [hrow] at hrevoke
          | some record =>
            simp only [hrow] at hrevoke
            split at hrevoke
            · exact absurd hrevoke (by simp)
            · rename_i happroved
              rw [not_not] at happroved
              rw [Except.ok.injEq] at hrevoke
              subst hrevoke
              simp only [Table.get?_put]
              split
              · rename_i hdigest
                subst hdigest
                rw [hrow]
                exact .revoked rfl happroved
              · rename_i hdigest
                refine .kept ?_
                simpa [concerns] using fun heq => hdigest heq.symm

variable (host) in
/-- What a call can do to a decision. -/
theorem moved_of_answer (authority : ApprovalAuthority) (call : ApprovalCall) (digest : String) :
    Moved host digest (call, (answer host authority call).1)
      (Table.get? digest authority.decisions)
      (Table.get? digest (answer host authority call).2.decisions) := by
  cases call with
  | issue binding decisionId approverId expiresInSeconds now generated =>
    exact moved_of_issue authority binding decisionId approverId generated expiresInSeconds now digest
  | verify handle expected now => exact moved_of_verify authority handle expected now digest
  | revoke handle revokedBy now => exact moved_of_revoke authority handle revokedBy now digest
  | decision decisionId =>
    simp only [answer]
    cases authority.decision decisionId with
    | ok record => exact .kept rfl
    | error error => exact .kept rfl
  | close => exact .kept rfl
  | restart => exact .kept rfl

/-! The life of a decision. -/

variable (host) in
/-- The successful calls on a decision, with the decision they have led to. -/
inductive Life (digest : String) : List Entry → Option ApprovalDecisionRecord → Prop
  | absent : Life digest [] none
  | approved {entry record} (hissued : Issued host digest entry record)
      (hstatus : record.status = .approved) : Life digest [entry] (some record)
  | expired {entry record} (hissued : Issued host digest entry record)
      (hstatus : record.status = .expired) : Life digest [entry] (some record)
  | consumed {entry handle expected now grant record} (hissued : Issued host digest entry record)
      (hstatus : record.status = .consumed) :
      Life digest [entry, (.verify handle expected now, .granted grant)] (some record)
  | revoked {entry handle revokedBy now ended record} (hissued : Issued host digest entry record)
      (hstatus : record.status = .revoked) :
      Life digest [entry, (.revoke handle revokedBy now, .decided ended)] (some record)

variable (host) in
/-- The successful calls on a decision. -/
def dealings (digest : String) (entries : List Entry) : List Entry :=
  entries.filter (concerns host digest)

theorem Issued.concerns {digest : String} {entry : Entry} {record : ApprovalDecisionRecord}
    (h : Issued host digest entry record) : concerns host digest entry = true := by
  obtain ⟨_, _, rfl, hdigest, -⟩ := h.call
  simpa [ApprovalAuthority.concerns] using hdigest

/-- Only an approved decision moves on. -/
theorem Life.of_approved {digest : String} {entries : List Entry}
    {record : ApprovalDecisionRecord} (h : Life host digest entries (some record))
    (happroved : record.status = .approved) :
    ∃ entry, entries = [entry] ∧ Issued host digest entry record := by
  cases h with
  | approved hissued _ => exact ⟨_, rfl, hissued⟩
  | expired _ hstatus => exact absurd (happroved.symm.trans hstatus) (by decide)
  | consumed _ hstatus => exact absurd (happroved.symm.trans hstatus) (by decide)
  | revoked _ hstatus => exact absurd (happroved.symm.trans hstatus) (by decide)

theorem Life.step {digest : String} {entries : List Entry} {entry : Entry}
    {row row' : Option ApprovalDecisionRecord} (h : Life host digest (dealings host digest entries) row)
    (hmoved : Moved host digest entry row row') :
    Life host digest (dealings host digest (entries ++ [entry])) row' := by
  have happend : dealings host digest (entries ++ [entry]) =
      dealings host digest entries ++ dealings host digest [entry] := List.filter_append ..
  rw [happend]
  cases hmoved with
  | kept hother =>
    have hnil : dealings host digest [entry] = [] := by simp [dealings, hother]
    rwa [hnil, List.append_nil]
  | expired hother happroved =>
    have hnil : dealings host digest [entry] = [] := by simp [dealings, hother]
    obtain ⟨first, hfirst, hissued⟩ := h.of_approved happroved
    rw [hnil, List.append_nil, hfirst]
    exact .expired ⟨hissued.call⟩ rfl
  | issued hissued happroved =>
    have hone : dealings host digest [entry] = [entry] := by simp [dealings, hissued.concerns]
    have hnil : dealings host digest entries = [] := by
      generalize dealings host digest entries = known at h
      cases h
      rfl
    rw [hone, hnil]
    exact .approved hissued happroved
  | @consumed handle now record hdigest happroved _ _ =>
    obtain ⟨first, hfirst, hissued⟩ := h.of_approved happroved
    have hone : dealings host digest
        [(.verify handle record.binding now, .granted (record.grant digest))] =
        [(.verify handle record.binding now, .granted (record.grant digest))] := by
      simp [dealings, concerns, hdigest]
    rw [hone, hfirst]
    exact .consumed ⟨hissued.call⟩ rfl
  | @revoked handle revokedBy now record hdigest happroved =>
    obtain ⟨first, hfirst, hissued⟩ := h.of_approved happroved
    have hone : dealings host digest
        [(.revoke handle revokedBy now, .decided (record.revoke now revokedBy))] =
        [(.revoke handle revokedBy now, .decided (record.revoke now revokedBy))] := by
      simp [dealings, concerns, hdigest]
    rw [hone, hfirst]
    exact .revoked ⟨hissued.call⟩ rfl

variable (host) in
/-- Every decision of a run has led such a life. -/
theorem life_of_run (calls : List ApprovalCall) (digest : String) :
    Life host digest (dealings host digest (history host calls))
      (Table.get? digest (decisionsAfter host calls)) := by
  refine Machine.trace_induction (P := fun entries (authority : ApprovalAuthority) =>
    Life host digest (dealings host digest entries) (Table.get? digest authority.decisions))
    .absent ?_ calls
  intro entries authority call h
  exact h.step (moved_of_answer host authority call digest)

/-- A decision that has ended stays as it is. -/
theorem ended_stays {digest : String} {record : ApprovalDecisionRecord}
    (hended : record.status ≠ .approved) {authority : ApprovalAuthority}
    (h : Table.get? digest authority.decisions = some record) (calls : List ApprovalCall) :
    Table.get? digest (Machine.after (answer host) authority calls).decisions = some record := by
  refine Machine.invariant (P := fun authority : ApprovalAuthority =>
    Table.get? digest authority.decisions = some record) ?_ h calls
  intro authority call hrow
  have hmoved := moved_of_answer host authority call digest
  rw [hrow] at hmoved
  generalize (call, (answer host authority call).1) = entry,
    Table.get? digest (answer host authority call).2.decisions = row' at hmoved
  cases hmoved with
  | kept _ => rfl
  | expired _ happroved => exact absurd happroved hended
  | consumed _ happroved _ _ => exact absurd happroved hended
  | revoked _ happroved => exact absurd happroved hended

/-- A handle verifies successfully. -/
def verified (handle : String) : Entry → Bool
  | (.verify used _ _, .granted _) => used = handle
  | _ => false

theorem verified_le_one (calls : List ApprovalCall) (handle : String) :
    ((history host calls).filter (verified handle)).length ≤ 1 := by
  have hdealings : (history host calls).filter (verified handle) =
      (dealings host (host.digest.sha256 handle) (history host calls)).filter (verified handle) := by
    rw [dealings, List.filter_filter]
    refine List.filter_congr fun entry _ => ?_
    rcases entry with ⟨call, given⟩
    cases call <;> cases given <;> simp [verified, concerns]
    rintro rfl
    rfl
  rw [hdealings]
  have hlife := life_of_run host calls (host.digest.sha256 handle)
  generalize dealings host (host.digest.sha256 handle) (history host calls) = known,
    Table.get? (host.digest.sha256 handle) (decisionsAfter host calls) = row at hlife
  have hissue : ∀ {entry : Entry} {record}, Issued host (host.digest.sha256 handle) entry record →
      verified handle entry = false := by
    intro entry record h
    obtain ⟨_, _, rfl, -, -⟩ := h.call
    rfl
  cases hlife with
  | absent => exact Nat.zero_le 1
  | approved hissued _ => simp [hissue hissued]
  | expired hissued _ => simp [hissue hissued]
  | consumed hissued _ =>
    simp only [List.filter_cons, hissue hissued, Bool.false_eq_true, if_false, List.filter_nil]
    split
    · exact Nat.le_refl 1
    · exact Nat.zero_le 1
  | @revoked _ used revokedBy now ended _ hissued _ =>
    have hrevoke : verified handle (.revoke used revokedBy now, .decided ended) = false := rfl
    simp [hissue hissued, hrevoke]

/-- A success consumes a live decision that was issued for this binding and not revoked. -/
theorem of_granted {calls : List ApprovalCall} {before rest : List Entry} {handle : String}
    {expected : ApprovalBinding} {now : ℚ} {grant : ApprovalGrant}
    (h : history host calls =
      before ++ (.verify handle expected now, .granted grant) :: rest) :
    ∃ record entry, grant = record.grant (host.digest.sha256 handle) ∧ record.binding = expected ∧
      now < record.expiresAt ∧ now < expected.actionExpiresAt ∧
      dealings host (host.digest.sha256 handle) before = [entry] ∧
      Issued host (host.digest.sha256 handle) entry record := by
  obtain ⟨first, hfirst, hanswer⟩ := Machine.exists_of_trace_eq h
  have hlife := life_of_run host first (host.digest.sha256 handle)
  rw [history, hfirst] at hlife
  simp only [answer] at hanswer
  rcases verify_cases host (Machine.after (answer host) {} first) handle expected now with
    ⟨error, hverify⟩ | ⟨record, hrow, happroved, hverify | ⟨hbinding, hown, haction, hverify⟩⟩
  · simp [hverify] at hanswer
  · simp [hverify] at hanswer
  · simp only [hverify, ApprovalAnswer.granted.injEq] at hanswer
    rw [decisionsAfter, hrow] at hlife
    obtain ⟨entry, hentry, hissued⟩ := hlife.of_approved happroved
    exact ⟨record, entry, hanswer, hbinding, hown, hbinding ▸ haction, hentry, hissued⟩

/-- Over every run of an authority a handle verifies at most once, only for the binding it was
issued for, before both expiries and not after it was revoked; a decision that has ended never
changes again. -/
theorem approvals_one_time_and_bound (host : AuthorityHost) (calls : List ApprovalCall) :
    (∀ handle, ((history host calls).filter (verified handle)).length ≤ 1) ∧
    (∀ before rest handle expected now grant,
      history host calls = before ++ (.verify handle expected now, .granted grant) :: rest →
      grant.binding = expected ∧ now < grant.expiresAt ∧ now < expected.actionExpiresAt ∧
      (∃ decisionId approverId expiresInSeconds issuedAt generated,
        (.issue expected decisionId approverId expiresInSeconds issuedAt generated,
          .issued generated) ∈ before ∧
        host.digest.sha256 generated = host.digest.sha256 handle ∧
        grant.expiresAt = host.later issuedAt expiresInSeconds.toNat) ∧
      (∀ binding decisionId approverId expiresInSeconds issuedAt generated,
        (.issue binding decisionId approverId expiresInSeconds issuedAt generated,
          .issued generated) ∈ before →
        host.digest.sha256 generated = host.digest.sha256 handle → binding = expected) ∧
      ∀ used revokedBy revokedAt ended,
        (.revoke used revokedBy revokedAt, .decided ended) ∈ before →
        host.digest.sha256 used ≠ host.digest.sha256 handle) ∧
    ∀ earlier later digest record, calls = earlier ++ later →
      Table.get? digest (decisionsAfter host earlier) = some record →
      record.status ≠ .approved → Table.get? digest (decisionsAfter host calls) = some record := by
  refine ⟨verified_le_one calls, ?_, ?_⟩
  · intro before rest handle expected now grant h
    obtain ⟨record, entry, rfl, rfl, hown, haction, hdealings, hissued⟩ := of_granted h
    obtain ⟨expiresInSeconds, generated, rfl, hdigest, hexpires⟩ := hissued.call
    have hbefore : ∀ {other}, other ∈ before → concerns host (host.digest.sha256 handle) other = true →
        other = (.issue record.binding record.decisionId record.approverId expiresInSeconds
          record.approvedAt generated, .issued generated) := by
      intro other hmem hconcerns
      have hkept : other ∈ dealings host (host.digest.sha256 handle) before :=
        List.mem_filter.mpr ⟨hmem, hconcerns⟩
      rw [hdealings] at hkept
      exact List.mem_singleton.mp hkept
    have hmem : (.issue record.binding record.decisionId record.approverId expiresInSeconds
        record.approvedAt generated, .issued generated) ∈ before := by
      have hkept := hdealings ▸ List.mem_singleton_self (α := Entry) _
      exact (List.mem_filter.mp hkept).1
    refine ⟨rfl, hown, haction, ⟨_, _, _, _, _, hmem, hdigest, hexpires⟩, ?_, ?_⟩
    · intro binding decisionId approverId seconds issuedAt other hother hsame
      have hentry := hbefore hother (by simpa [concerns] using hsame)
      simp only [Prod.mk.injEq, ApprovalCall.issue.injEq] at hentry
      exact hentry.1.1
    · intro used revokedBy revokedAt ended hrevoked hsame
      have hentry := hbefore hrevoked (by simpa [concerns] using hsame)
      simp at hentry
  · rintro earlier later digest record rfl hrecord hended
    rw [decisionsAfter, Machine.after_append]
    exact ended_stays hended hrecord later

example :
    let host : AuthorityHost := { Clockwork.plain with maxDecisions := 1 }
    let handle := "approval-handle-approval-handle-approval-01"
    let binding : ApprovalBinding :=
      ⟨"action", "order.submit", "alice", none, "sha256:00", "input", "preview", 60⟩
    ((history host [.issue binding "decision" "operator" 30 0 handle, .verify handle binding 10,
      .verify handle binding 11]).filter (verified handle)).length = 1 := by
  decide +kernel

end CapabilityCompiler.Actions.ApprovalAuthority
