import CapabilityCompiler.Gateway.VaultRefinement

/-! Every record in memory has its row: the operations of the vault keep this, whatever a look at the
clock has marked in memory only. -/
namespace CapabilityCompiler.Gateway
open Foundation

/-! Rows. -/

/-- The row is the record's, which may be marked in memory only. -/
def Backs (row : VaultRow) (record : GatewaySessionRecord) : Prop :=
  row.record = record ∨ row.record.marked = record

/-- Rows that the checks of the database and of the vault let through, under digests of tokens. -/
structure Tabled (host : VaultHost) (rows : List VaultRow) : Prop where
  digests : (rows.map (·.tokenDigest)).Nodup
  sessions : (rows.map (·.sessionDigest)).Nodup
  valid : ∀ row ∈ rows, rowValid host row = true
  minted : ∀ row ∈ rows, ∃ token, isToken token = true ∧ host.tokenDigest token = row.tokenDigest

/-- The rows with the record of this digest marked. -/
def markAt (digest : String) (rows : List VaultRow) : List VaultRow :=
  rows.map fun row => if row.tokenDigest = digest then { row with record := row.record.marked }
    else row

section Rows
variable {host : VaultHost} {rows : List VaultRow} {digest : String}

theorem Backs.sessionId {row : VaultRow} {record : GatewaySessionRecord} (h : Backs row record) :
    row.record.sessionId = record.sessionId := by
  rcases h with rfl | rfl
  · rfl
  · rfl

theorem Backs.marked {row : VaultRow} {record : GatewaySessionRecord} (h : Backs row record) :
    row.record.marked = record.marked := by
  rcases h with rfl | rfl
  · rfl
  · rfl

theorem Backs.of_active {row : VaultRow} {record : GatewaySessionRecord} (h : Backs row record)
    (hactive : record.status ≠ .reauthRequired) : row.record = record := by
  rcases h with hsame | rfl
  · exact hsame
  · exact absurd rfl hactive

theorem Tabled.eq_of_digest (h : Tabled host rows) {row other : VaultRow} (hrow : row ∈ rows)
    (hother : other ∈ rows) (hsame : row.tokenDigest = other.tokenDigest) : row = other :=
  List.inj_on_of_nodup_map h.digests hrow hother hsame

theorem Tabled.find?_digest (h : Tabled host rows) {row : VaultRow} (hrow : row ∈ rows) :
    rows.find? (·.tokenDigest = row.tokenDigest) = some row := by
  have hsome : (rows.find? (·.tokenDigest = row.tokenDigest)).isSome = true :=
    List.find?_isSome.mpr ⟨row, hrow, by simp⟩
  obtain ⟨other, hother⟩ := Option.isSome_iff_exists.mp hsome
  rw [hother]
  exact congrArg some (h.eq_of_digest (List.mem_of_find?_eq_some hother) hrow
    (by simpa using List.find?_some hother))

theorem mem_markAt (digest : String) {row : VaultRow} (hrow : row ∈ rows) :
    (if row.tokenDigest = digest then { row with record := row.record.marked } else row) ∈
      markAt digest rows :=
  List.mem_map.mpr ⟨row, hrow, rfl⟩

theorem Tabled.markAt (h : Tabled host rows) (digest : String) :
    Tabled host (markAt digest rows) where
  digests := by
    have hsame : (Gateway.markAt digest rows).map (·.tokenDigest) = rows.map (·.tokenDigest) := by
      rw [Gateway.markAt, List.map_map]
      refine List.map_congr_left fun row _ => ?_
      simp only [Function.comp_apply]
      split
      · rfl
      · rfl
    rw [hsame]
    exact h.digests
  sessions := by
    have hsame : (Gateway.markAt digest rows).map (·.sessionDigest) =
        rows.map (·.sessionDigest) := by
      rw [Gateway.markAt, List.map_map]
      refine List.map_congr_left fun row _ => ?_
      simp only [Function.comp_apply]
      split
      · rfl
      · rfl
    rw [hsame]
    exact h.sessions
  valid := by
    intro row hrow
    obtain ⟨row, hold, rfl⟩ := List.mem_map.mp hrow
    have hvalid := h.valid row hold
    split
    · exact hvalid
    · exact hvalid
  minted := by
    intro row hrow
    obtain ⟨row, hold, rfl⟩ := List.mem_map.mp hrow
    have hminted := h.minted row hold
    split
    · exact hminted
    · exact hminted

theorem Tabled.filter (h : Tabled host rows) (p : VaultRow → Bool) :
    Tabled host (rows.filter p) where
  digests := h.digests.sublist (List.filter_sublist.map _)
  sessions := h.sessions.sublist (List.filter_sublist.map _)
  valid := fun row hrow => h.valid row (List.mem_filter.mp hrow).1
  minted := fun row hrow => h.minted row (List.mem_filter.mp hrow).1

/-- A row is rewritten with its own record marked. -/
theorem Tabled.rewriteRecord (h : Tabled host rows) {row : VaultRow} (hrow : row ∈ rows) :
    rewriteRecord host row.record.marked rows = .ok (Gateway.markAt row.tokenDigest rows) := by
  have hvalid := h.valid row hrow
  have hdigest : row.record.marked.tokenDigest = row.tokenDigest := (rowValid_iff.mp hvalid).1
  rw [Gateway.rewriteRecord, hdigest, h.find?_digest hrow]
  simp only [decryptRow_of_valid hvalid]
  congr 1
  refine List.map_congr_left fun other hother => ?_
  split
  · rename_i hsame
    rw [h.eq_of_digest hother hrow hsame]
  · rfl

theorem Tabled.persistReauthDigest (h : Tabled host rows) (digest : String) :
    ∃ next, persistReauthDigest host digest rows = .ok next ∧
      (next = Gateway.markAt digest rows ∨
        next = rows ∧ ∀ row ∈ rows, row.tokenDigest = digest →
          row.record.status = .reauthRequired) := by
  rw [Gateway.persistReauthDigest]
  cases hfind : rows.find? (·.tokenDigest = digest) with
  | none =>
    refine ⟨rows, rfl, .inr ⟨rfl, fun row hrow hsame => ?_⟩⟩
    exact absurd (decide_eq_true hsame) (List.find?_eq_none.mp hfind row hrow)
  | some row =>
    have hrow := List.mem_of_find?_eq_some hfind
    have hdigest : row.tokenDigest = digest := by simpa using List.find?_some hfind
    simp only [decryptRow_of_valid (h.valid row hrow)]
    split
    · rename_i hstatus
      refine ⟨rows, rfl, .inr ⟨rfl, fun other hother hsame => ?_⟩⟩
      rw [h.eq_of_digest hother hrow (hsame.trans hdigest.symm)]
      exact hstatus
    · refine ⟨_, h.rewriteRecord hrow, .inl ?_⟩
      rw [hdigest]

theorem Tabled.persistReauthSession (h : Tabled host rows) {row : VaultRow} (hrow : row ∈ rows)
    {sessionId : String} (hsession : row.sessionDigest = host.sessionDigest sessionId) :
    persistReauthSession host sessionId rows =
      Gateway.persistReauthDigest host row.tokenDigest rows := by
  have hsome : (rows.find? (·.sessionDigest = host.sessionDigest sessionId)).isSome = true :=
    List.find?_isSome.mpr ⟨row, hrow, by simpa using hsession⟩
  obtain ⟨other, hother⟩ := Option.isSome_iff_exists.mp hsome
  have hsame : other.sessionDigest = row.sessionDigest := by
    rw [hsession]
    simpa using List.find?_some hother
  rw [Gateway.persistReauthSession, hother,
    List.inj_on_of_nodup_map h.sessions (List.mem_of_find?_eq_some hother) hrow hsame]

/-- A record is inserted under new digests. -/
theorem Tabled.insertRow (h : Tabled host rows) {record : GatewaySessionRecord}
    {authentication : AuthenticationResult} {next : List VaultRow}
    (hbinding : semanticBinding record authentication = true)
    (hminted : ∃ token, isToken token = true ∧ host.tokenDigest token = record.tokenDigest)
    (hinsert : insertRow host record authentication rows = some next) :
    Tabled host next ∧ (∀ row ∈ rows, row ∈ next) ∧
      ∃ row ∈ next, row.tokenDigest = record.tokenDigest ∧ row.record = record := by
  unfold Gateway.insertRow at hinsert
  simp only at hinsert
  split at hinsert
  · exact absurd hinsert (by simp)
  · rename_i hfresh
    obtain rfl := Option.some.inj hinsert
    simp only [List.any_eq_true, Bool.or_eq_true, decide_eq_true_eq, not_exists, not_and,
      not_or] at hfresh
    refine ⟨⟨?_, ?_, ?_, ?_⟩, fun row hrow => List.mem_append_left _ hrow,
      ⟨_, List.mem_append_right _ (List.mem_singleton_self _), rfl, rfl⟩⟩
    · rw [List.map_append, List.map_singleton]
      refine List.Nodup.append h.digests (List.nodup_singleton _) ?_
      rw [List.disjoint_singleton]
      intro hmem
      obtain ⟨row, hrow, hsame⟩ := List.mem_map.mp hmem
      exact (hfresh row hrow).1 hsame
    · rw [List.map_append, List.map_singleton]
      refine List.Nodup.append h.sessions (List.nodup_singleton _) ?_
      rw [List.disjoint_singleton]
      intro hmem
      obtain ⟨row, hrow, hsame⟩ := List.mem_map.mp hmem
      exact (hfresh row hrow).2 hsame
    · intro row hrow
      rcases List.mem_append.mp hrow with hold | hnew
      · exact h.valid row hold
      · rw [List.mem_singleton.mp hnew, rowValid_iff]
        exact ⟨rfl, rfl, hbinding⟩
    · intro row hrow
      rcases List.mem_append.mp hrow with hold | hnew
      · exact h.minted row hold
      · rw [List.mem_singleton.mp hnew]
        exact hminted

/-- Rows that the checks let through are those of a store. -/
theorem Tabled.filed (h : Tabled host rows) : Filed host rows where
  valid := h.valid
  minted := h.minted
  indexed := by
    have hkeyed : ∀ row ∈ rows, row.record.tokenDigest = row.tokenDigest := fun row hrow =>
      (rowValid_iff.mp (h.valid row hrow)).1
    refine ⟨?_, ?_, ?_⟩
    · simpa [storeOf, Table.Unique, Function.comp_def] using h.digests
    · intro digest record hfound
      obtain ⟨row, hrow, -, rfl, rfl⟩ := row_of_get? hfound
      exact hkeyed row hrow
    · intro digest sessionId
      rw [session_storeOf, Option.map_eq_some_iff]
      constructor
      · rintro ⟨record, hfound, rfl⟩
        obtain ⟨row, hrow, -, rfl, rfl⟩ := row_of_get? hfound
        have hsome : (rows.find? (·.record.sessionId = row.record.sessionId)).isSome = true :=
          List.find?_isSome.mpr ⟨row, hrow, by simp⟩
        obtain ⟨other, hother⟩ := Option.isSome_iff_exists.mp hsome
        have hmem := List.mem_of_find?_eq_some hother
        have hsame : other.record.sessionId = row.record.sessionId := by
          simpa using List.find?_some hother
        have hdigest : other.sessionDigest = row.sessionDigest := by
          rw [← (rowValid_iff.mp (h.valid other hmem)).2.1,
            ← (rowValid_iff.mp (h.valid row hrow)).2.1, hsame]
        exact ⟨other, hother, by rw [List.inj_on_of_nodup_map h.sessions hmem hrow hdigest]⟩
      · rintro ⟨row, hfind, rfl⟩
        have hrow := List.mem_of_find?_eq_some hfind
        refine ⟨row.record, ?_, by simpa using List.find?_some hfind⟩
        rw [get?_storeOf, h.find?_digest hrow]
        rfl

end Rows

/-! Vaults. -/

/-- The vault is open and each record in memory has its row. -/
structure Backed (host : VaultHost) (vault : Vault) : Prop where
  isOpen : vault.inner.closed = false
  indexed : Indexed vault.inner
  tabled : Tabled host vault.rows
  backed : ∀ digest record, vault.inner.byDigest.get? digest = some record →
    ∃ row ∈ vault.rows, row.tokenDigest = digest ∧ Backs row record

/-- The vault that is opened with these rows. -/
theorem Tabled.backed {host : VaultHost} {rows : List VaultRow} (h : Tabled host rows) :
    Backed host { inner := storeOf rows, rows } where
  isOpen := rfl
  indexed := h.filed.indexed
  tabled := h
  backed := by
    intro digest record hfound
    obtain ⟨row, hrow, -, hrecord, hdigest⟩ := row_of_get? hfound
    exact ⟨row, hrow, hdigest, .inl hrecord⟩

section Vaults
variable {settings : StoreSettings} {host : VaultHost} {vault : Vault} {reading : Reading}

/-- Records may be marked and removed in memory as long as the rows of those that stay are kept. -/
theorem Backed.next (h : Backed host vault) {inner : SessionStore} {rows : List VaultRow}
    (hopen : inner.closed = false) (hindexed : Indexed inner) (htabled : Tabled host rows)
    (horigin : ∀ digest record, inner.byDigest.get? digest = some record →
      ∃ r, vault.inner.byDigest.get? digest = some r ∧ (record = r ∨ record = r.marked) ∧
        ∀ row ∈ vault.rows, row.tokenDigest = digest → Backs row r → row ∈ rows) :
    Backed host { inner, rows } where
  isOpen := hopen
  indexed := hindexed
  tabled := htabled
  backed := by
    intro digest record hfound
    obtain ⟨r, hr, hrecord, hkept⟩ := horigin digest record hfound
    obtain ⟨row, hrow, hdigest, hbacks⟩ := h.backed digest r hr
    refine ⟨row, hkept row hrow hdigest hbacks, hdigest, ?_⟩
    rcases hrecord with rfl | rfl
    · exact hbacks
    · exact .inr hbacks.marked

/-- A record may be marked in memory, with its row or without. -/
theorem Backed.marked (h : Backed host vault) {digest : String} {record : GatewaySessionRecord}
    (hfound : vault.inner.byDigest.get? digest = some record) {rows : List VaultRow}
    (hrows : rows = vault.rows ∨ rows = markAt digest vault.rows) :
    Backed host
      { inner := { vault.inner with byDigest := vault.inner.byDigest.put digest record.marked }
        rows } where
  isOpen := h.isOpen
  indexed := h.indexed.put hfound rfl rfl
  tabled := by
    rcases hrows with rfl | rfl
    · exact h.tabled
    · exact h.tabled.markAt digest
  backed := by
    intro d r hr
    simp only [Table.get?_put] at hr
    split at hr
    · rename_i heq
      obtain rfl := Option.some.inj hr
      obtain ⟨row, hrow, hdigest, hbacks⟩ := h.backed digest record hfound
      rcases hrows with rfl | rfl
      · exact ⟨row, hrow, hdigest.trans heq.symm, .inr hbacks.marked⟩
      · refine ⟨_, mem_markAt digest hrow, ?_, ?_⟩
        · rw [if_pos hdigest]
          exact hdigest.trans heq.symm
        · rw [if_pos hdigest]
          exact .inl hbacks.marked
    · rename_i hne
      obtain ⟨row, hrow, hdigest, hbacks⟩ := h.backed d r hr
      rcases hrows with rfl | rfl
      · exact ⟨row, hrow, hdigest, hbacks⟩
      · refine ⟨_, mem_markAt digest hrow, ?_, ?_⟩
        · rw [if_neg (hdigest ▸ hne)]
          exact hdigest
        · rw [if_neg (hdigest ▸ hne)]
          exact hbacks

/-! Resolving. -/

/-- A resolution fails or finds a record that it leaves alone, or it finds one that requires
reauthentication and marks it. -/
theorem resolveDigest_cases (store : SessionStore) (digest : String) (now : ℚ) :
    (∃ failure, resolveDigest store digest now = (.failed failure, store) ∧
      (failure.kind = .expired ∨ failure.kind = .invalid)) ∨
    (∃ record, store.byDigest.get? digest = some record ∧ Resolvable now record ∧
      resolveDigest store digest now = (.resolved record, store)) ∨
    ∃ record reason, store.byDigest.get? digest = some record ∧ ¬ record.expiry < now ∧
      (record.status = .reauthRequired ∨ record.sourceReached now = true) ∧
      resolveDigest store digest now = (.failed ⟨.reauth, reason⟩,
        { store with byDigest := store.byDigest.put digest record.marked }) := by
  unfold resolveDigest
  cases hfound : store.byDigest.get? digest with
  | none => exact .inl ⟨_, rfl, .inr rfl⟩
  | some record =>
    simp only
    split
    · exact .inl ⟨_, rfl, .inl rfl⟩
    · rename_i hlate
      split
      · rename_i hstatus
        refine .inr (.inr ⟨record, "reauth_required", rfl, hlate, .inl hstatus, ?_⟩)
        rw [record.marked_of_status hstatus, Table.put_of_get? hfound]
      · rename_i hstatus
        split
        · rename_i hreached
          exact .inr (.inr ⟨record, _, rfl, hlate, .inr hreached, rfl⟩)
        · rename_i hreached
          split
          · exact .inl ⟨_, rfl, .inl rfl⟩
          · rename_i hearly
            exact .inr (.inl ⟨record, rfl, ⟨hstatus, by simpa using hreached,
              lt_of_not_ge hearly⟩, rfl⟩)

/-- A resolution of a digest keeps the vault, if it persists what it finds or nothing at all. -/
theorem Backed.resolved (h : Backed host vault)
    {persist : List VaultRow → Except SessionFailure (List VaultRow)} {digest : String}
    (hpersist : vault.inner.byDigest.get? digest ≠ none →
      persist vault.rows = persistReauthDigest host digest vault.rows) (now : ℚ) :
    Backed host (resolved vault persist (resolveDigest vault.inner digest now)).2 := by
  rcases resolveDigest_cases vault.inner digest now with ⟨failure, heq, hkind⟩ |
    ⟨record, -, -, heq⟩ | ⟨record, reason, hfound, -, -, heq⟩
  · have hother : failure.kind ≠ .reauth := by
      rcases hkind with hkind | hkind
      · rw [hkind]
        decide
      · rw [hkind]
        decide
    rw [heq]
    simp only [Gateway.resolved, if_neg hother]
    exact h
  · rw [heq]
    exact h
  · obtain ⟨next, hnext, hrows⟩ := h.tabled.persistReauthDigest digest
    rw [heq]
    simp only [Gateway.resolved, if_true, hpersist (by simp [hfound]), hnext]
    refine h.marked hfound ?_
    rcases hrows with rfl | ⟨rfl, -⟩
    · exact .inr rfl
    · exact .inl rfl

theorem Backed.resolveToken (h : Backed host vault) (token : String) :
    Backed host (Gateway.resolved vault (persistReauthDigest host (host.tokenDigest token))
      (Gateway.resolveToken host.toSessionHost vault.inner reading token)).2 := by
  unfold Gateway.resolveToken
  split
  · exact h
  · split
    · exact h
    · cases hnow : freshNow reading with
      | error failure =>
        simp only [Gateway.resolved, invalid_of_freshNow hnow, reduceCtorEq, if_false]
        exact h
      | ok now => exact h.resolved (fun _ => rfl) now

theorem Backed.row_of_session (h : Backed host vault) {sessionId digest : String}
    (hsession : vault.inner.digestBySessionId.get? sessionId = some digest) :
    ∃ record row, vault.inner.byDigest.get? digest = some record ∧ record.sessionId = sessionId ∧
      row ∈ vault.rows ∧ row.tokenDigest = digest ∧ Backs row record ∧
      row.sessionDigest = host.sessionDigest sessionId := by
  obtain ⟨record, hfound, hid⟩ := (h.indexed.inverse digest sessionId).mpr hsession
  obtain ⟨row, hrow, hdigest, hbacks⟩ := h.backed digest record hfound
  refine ⟨record, row, hfound, hid, hrow, hdigest, hbacks, ?_⟩
  rw [← (rowValid_iff.mp (h.tabled.valid row hrow)).2.1, hbacks.sessionId, hid]

theorem Backed.resolveSessionId (h : Backed host vault) (sessionId : String) :
    Backed host (Gateway.resolved vault (persistReauthSession host sessionId)
      (Gateway.resolveSessionId vault.inner reading sessionId)).2 := by
  unfold Gateway.resolveSessionId
  split
  · exact h
  · cases hsession : vault.inner.digestBySessionId.get? sessionId with
    | none => exact h
    | some digest =>
      cases hnow : freshNow reading with
      | error failure =>
        simp only [Gateway.resolved, invalid_of_freshNow hnow, reduceCtorEq, if_false]
        exact h
      | ok now =>
        refine h.resolved (fun _ => ?_) now
        obtain ⟨record, row, -, -, hrow, hdigest, -, hkeyed⟩ := h.row_of_session hsession
        rw [h.tabled.persistReauthSession hrow hkeyed, hdigest]

/-! Marking. -/

variable (reading) in
/-- The vault fails to mark a session, which a look may have marked in memory, or it marks the record
and its row. -/
theorem markDurable_cases (h : Backed host vault) (sessionId : String) :
    (∃ failure, markDurable host vault reading sessionId = (.answered (.failed failure), vault) ∧
      (failure.kind = .expired ∨ failure.kind = .invalid)) ∨
    (∃ now digest record reason, reading = .reads now ∧
      vault.inner.digestBySessionId.get? sessionId = some digest ∧
      vault.inner.byDigest.get? digest = some record ∧ ¬ record.expiry < now ∧
      (record.status = .reauthRequired ∨ record.sourceReached now = true) ∧
      markDurable host vault reading sessionId = (.answered (.failed ⟨.reauth, reason⟩),
        { vault with inner := { vault.inner with
            byDigest := vault.inner.byDigest.put digest record.marked } })) ∨
    ∃ digest record, vault.inner.digestBySessionId.get? sessionId = some digest ∧
      vault.inner.byDigest.get? digest = some record ∧
      markDurable host vault reading sessionId = (.answered (.marked record.marked),
        { inner := { vault.inner with byDigest := vault.inner.byDigest.put digest record.marked }
          rows := markAt digest vault.rows }) := by
  have hopen : ¬ vault.inner.closed = true := by rw [h.isOpen]; simp
  unfold markDurable resolveSessionId
  rw [if_neg hopen]
  cases hsession : vault.inner.digestBySessionId.get? sessionId with
  | none => exact .inl ⟨_, rfl, .inr rfl⟩
  | some digest =>
    cases hnow : freshNow reading with
    | error failure => exact .inl ⟨failure, rfl, .inr (invalid_of_freshNow hnow)⟩
    | ok now =>
      simp only
      rcases resolveDigest_cases vault.inner digest now with ⟨failure, heq, hkind⟩ |
        ⟨record, hfound, hlive, heq⟩ | ⟨record, reason, hfound, hlate, hreauth, heq⟩
      · rw [heq]
        exact .inl ⟨failure, rfl, hkind⟩
      · obtain ⟨row, hrow, hdigest, hbacks⟩ := h.backed digest record hfound
        have hrewritten := h.tabled.rewriteRecord hrow
        rw [hbacks.of_active hlive.authenticated, hdigest] at hrewritten
        have hearly : ¬ record.expiry < now := not_lt.mpr hlive.early.le
        refine .inr (.inr ⟨digest, record, rfl, hfound, ?_⟩)
        simp only [heq, hrewritten, Gateway.markReauthRequired, if_neg hopen, hsession, hnow,
          hfound, hearly, if_false]
      · rw [heq]
        exact .inr (.inl ⟨now, digest, record, reason, reads_of_freshNow hnow, rfl, hfound, hlate,
          hreauth, rfl⟩)

theorem Backed.markDurable (h : Backed host vault) (sessionId : String) :
    Backed host (markDurable host vault reading sessionId).2 := by
  rcases markDurable_cases reading h sessionId with ⟨failure, heq, -⟩ |
    ⟨now, digest, record, reason, -, -, hfound, -, -, heq⟩ | ⟨digest, record, -, hfound, heq⟩
  · rw [heq]
    exact h
  · rw [heq]
    exact h.marked hfound (.inl rfl)
  · rw [heq]
    exact h.marked hfound (.inr rfl)

/-! Removing. -/

theorem Backed.revokeSession (hinjective : Function.Injective host.sessionDigest)
    (h : Backed host vault) (sessionId : String) :
    Backed host { inner := (revokeSession vault.inner sessionId).2
                  rows := deleteSession host sessionId vault.rows } := by
  have hkept : ∀ row ∈ vault.rows, row.record.sessionId ≠ sessionId →
      row ∈ deleteSession host sessionId vault.rows := by
    intro row hrow hother
    refine List.mem_filter.mpr ⟨hrow, decide_eq_true ?_⟩
    rw [← (rowValid_iff.mp (h.tabled.valid row hrow)).2.1]
    exact hinjective.ne hother
  unfold Gateway.revokeSession
  cases hsession : vault.inner.digestBySessionId.get? sessionId with
  | none =>
    refine h.next h.isOpen h.indexed (h.tabled.filter _) fun digest record hfound => ?_
    refine ⟨record, hfound, .inl rfl, fun row hrow _ hbacks => hkept row hrow ?_⟩
    rw [hbacks.sessionId]
    intro hsame
    have hknown := h.indexed.session_of_get? hfound
    rw [hsame, hsession] at hknown
    exact absurd hknown (by simp)
  | some digest =>
    obtain ⟨record, hfound, hid⟩ := (h.indexed.inverse digest sessionId).mpr hsession
    have hdigest := h.indexed.keyed _ _ hfound
    have hindexed : Indexed (vault.inner.removeAll [record]) :=
      h.indexed.removeAll fun r hr => by rw [List.mem_singleton.mp hr, hdigest, hfound]
    simp only [SessionStore.removeAll, List.foldl_cons, List.foldl_nil, SessionStore.remove,
      hdigest, hid] at hindexed
    refine h.next h.isOpen hindexed (h.tabled.filter _) fun d r hr => ?_
    simp only at hr
    have hne : d ≠ digest := by
      rintro rfl
      rw [Table.get?_erase_self] at hr
      exact absurd hr (by simp)
    rw [Table.get?_erase_of_ne hne] at hr
    refine ⟨r, hr, .inl rfl, fun row hrow _ hbacks => hkept row hrow ?_⟩
    rw [hbacks.sessionId]
    intro hsame
    exact hne (h.indexed.eq_of_sessionId hr hfound (hsame.trans hid.symm)).1

theorem Backed.revokeToken (hinjective : Function.Injective host.tokenDigest)
    (h : Backed host vault) (token : String) :
    Backed host { inner := (revokeToken host.toSessionHost vault.inner token).2
                  rows := deleteDigests [host.tokenDigest token] vault.rows } := by
  have hkept : ∀ row ∈ vault.rows, row.tokenDigest ≠ host.tokenDigest token →
      row ∈ deleteDigests [host.tokenDigest token] vault.rows := by
    intro row hrow hother
    exact List.mem_filter.mpr ⟨hrow, decide_eq_true (by simpa using hother)⟩
  have hsame : (∀ record, vault.inner.byDigest.get? (host.tokenDigest token) ≠ some record) →
      Backed host
        { inner := vault.inner, rows := deleteDigests [host.tokenDigest token] vault.rows } := by
    intro hunknown
    refine h.next h.isOpen h.indexed (h.tabled.filter _) fun digest record hfound => ?_
    refine ⟨record, hfound, .inl rfl, fun row hrow hdigest _ => hkept row hrow ?_⟩
    rw [hdigest]
    rintro rfl
    exact hunknown record hfound
  unfold Gateway.revokeToken
  split
  · rename_i hshape
    refine hsame fun record hfound => ?_
    obtain ⟨row, hrow, hrowDigest, -⟩ := h.backed _ record hfound
    obtain ⟨minted, hminted, hdigest⟩ := h.tabled.minted row hrow
    rw [hinjective (hdigest.trans hrowDigest)] at hminted
    exact absurd hminted (by simpa using hshape)
  · cases hfound : vault.inner.byDigest.get? (host.tokenDigest token) with
    | none => exact hsame (by simp [hfound])
    | some record =>
      have hdigest := h.indexed.keyed _ _ hfound
      have hindexed : Indexed (vault.inner.removeAll [record]) :=
        h.indexed.removeAll fun r hr => by rw [List.mem_singleton.mp hr, hdigest, hfound]
      simp only [SessionStore.removeAll, List.foldl_cons, List.foldl_nil, SessionStore.remove,
        hdigest] at hindexed
      refine h.next h.isOpen hindexed (h.tabled.filter _) fun d r hr => ?_
      simp only at hr
      have hne : d ≠ host.tokenDigest token := by
        rintro rfl
        rw [Table.get?_erase_self] at hr
        exact absurd hr (by simp)
      rw [Table.get?_erase_of_ne hne] at hr
      refine ⟨r, hr, .inl rfl, fun row hrow hrowDigest _ => hkept row hrow ?_⟩
      rw [hrowDigest]
      exact hne

variable (reading) in
theorem purgeDurable_cases (h : Backed host vault) :
    (∃ failure, freshNow reading = .error failure ∧
      purgeDurable vault reading = (.answered (.failed failure), vault)) ∨
    ∃ now, reading = .reads now ∧ purgeDurable vault reading =
      (.answered (.removed (vault.inner.expiredRecords now)),
        { inner := (vault.inner.looked now).removeAll (vault.inner.expiredRecords now)
          rows := deleteDigests ((vault.inner.expiredRecords now).map (·.tokenDigest))
            vault.rows }) := by
  have hopen : ¬ vault.inner.closed = true := by rw [h.isOpen]; simp
  unfold purgeDurable purgeExpired
  rw [if_neg hopen]
  cases hnow : freshNow reading with
  | error failure => exact .inl ⟨failure, rfl, rfl⟩
  | ok now => exact .inr ⟨now, reads_of_freshNow hnow, rfl⟩

theorem Backed.purgeDurable (h : Backed host vault) :
    Backed host (purgeDurable vault reading).2 := by
  rcases purgeDurable_cases reading h with ⟨failure, -, heq⟩ | ⟨now, -, heq⟩
  · rw [heq]
    exact h
  · rw [heq]
    have htouched : Touched vault.inner (vault.inner.looked now) := .looked now
    refine h.next ?_ ((htouched.indexed h.indexed).removeAll (expired_stored h.indexed now))
      (h.tabled.filter _) fun digest record hfound => ?_
    · rw [SessionStore.removeAll_closed]
      exact h.isOpen
    · rw [SessionStore.get?_removeAll] at hfound
      split at hfound
      · exact absurd hfound (by simp)
      · rename_i hkept
        obtain ⟨r, hr, hrecord⟩ := htouched.origin hfound
        refine ⟨r, hr, hrecord, fun row hrow hdigest _ => ?_⟩
        exact List.mem_filter.mpr ⟨hrow, decide_eq_true (hdigest ▸ hkept)⟩

/-! Creating. -/

/-- A record that is new in memory may be inserted with a row of its own. -/
theorem Backed.insert (h : Backed host vault) {record : GatewaySessionRecord} {rows : List VaultRow}
    (hindexed : Indexed (vault.inner.insert record))
    (htabled : Tabled host rows) (hkept : ∀ row ∈ vault.rows, row ∈ rows)
    (hnew : ∃ row ∈ rows, row.tokenDigest = record.tokenDigest ∧ row.record = record) :
    Backed host { inner := vault.inner.insert record, rows } where
  isOpen := h.isOpen
  indexed := hindexed
  tabled := htabled
  backed := by
    intro digest r hr
    simp only [SessionStore.insert, SessionStore.put, Table.get?_put] at hr
    split at hr
    · rename_i heq
      obtain ⟨row, hrow, hdigest, hrecord⟩ := hnew
      exact ⟨row, hrow, hdigest.trans heq.symm, .inl (hrecord.trans (Option.some.inj hr))⟩
    · obtain ⟨row, hrow, hdigest, hbacks⟩ := h.backed digest r hr
      exact ⟨row, hkept row hrow, hdigest, hbacks⟩

/-- A record that is inserted and revoked at once leaves what was there. -/
theorem get?_revoked_insert {store : SessionStore} {record r : GatewaySessionRecord}
    {digest : String}
    (h : (Gateway.revokeSession (store.insert record) record.sessionId).2.byDigest.get? digest =
      some r) : store.byDigest.get? digest = some r := by
  simp only [Gateway.revokeSession, SessionStore.insert, SessionStore.put,
    Table.get?_put_self] at h
  have hne : digest ≠ record.tokenDigest := by
    rintro rfl
    rw [Table.get?_erase_self] at h
    exact absurd h (by simp)
  rwa [Table.get?_erase_of_ne hne, Table.get?_put_of_ne hne] at h

theorem Backed.createDurable (h : Backed host vault) {request : SessionRequest}
    {generated : Option String} {authentication : AuthenticationResult}
    (hbinding : requestBinding request authentication = true) :
    Backed host (createDurable settings host vault reading request generated
      (some authentication)).2 := by
  have hmoves : Moves vault.inner _
      (create settings host.toSessionHost vault.inner reading request generated).2 :=
    moves_create h.indexed request generated
  rcases create_cases settings host.toSessionHost vault.inner reading request generated with
    ⟨failure, heq⟩ | ⟨now, boundaries, -, -, hboundaries, ⟨failure, heq⟩ |
      ⟨token, record, -, hpublishes, heq⟩⟩
  · simp only [Gateway.createDurable, heq]
    exact h
  · simp only [Gateway.createDurable, heq]
    have htouched : Touched vault.inner (vault.inner.looked now) := .looked now
    refine h.next h.isOpen (htouched.indexed h.indexed) h.tabled fun digest record hfound => ?_
    obtain ⟨r, hr, hrecord⟩ := htouched.origin hfound
    exact ⟨r, hr, hrecord, fun row hrow _ _ => hrow⟩
  · obtain ⟨hid, hdigest, -⟩ := GatewaySessionRecord.of_build? hpublishes.built
    have hindexed := hmoves.indexed h.indexed
    rw [heq] at hindexed
    have htouched : Touched vault.inner (vault.inner.looked now) := .looked now
    have hstored := expired_stored h.indexed now
    -- The expired records leave the memory, and their rows stay.
    have hbase : Backed host
        { inner := (vault.inner.looked now).removeAll (vault.inner.expiredRecords now)
          rows := vault.rows } := by
      refine h.next ?_ ((htouched.indexed h.indexed).removeAll hstored) h.tabled
        fun digest r hr => ?_
      · rw [SessionStore.removeAll_closed]
        exact h.isOpen
      · rw [SessionStore.get?_removeAll] at hr
        split at hr
        · exact absurd hr (by simp)
        · obtain ⟨old, hold, hsame⟩ := htouched.origin hr
          exact ⟨old, hold, hsame, fun row hrow _ _ => hrow⟩
    cases hinsert : insertRow host record authentication vault.rows with
    | some rows =>
      simp only [Gateway.createDurable, heq, hinsert]
      obtain ⟨htabled, hkept, hnew⟩ := h.tabled.insertRow
        (semanticBinding_published hboundaries hpublishes hbinding)
        ⟨token, hpublishes.shaped, hdigest.symm⟩ hinsert
      exact hbase.insert hindexed htabled hkept hnew
    | none =>
      simp only [Gateway.createDurable, heq, hinsert]
      rw [← hid]
      refine hbase.next ?_ ?_ h.tabled fun digest r hr => ?_
      · simp only [Gateway.revokeSession, SessionStore.insert, SessionStore.put,
          Table.get?_put_self]
        exact hbase.isOpen
      · have hrevoked : Moves (_ : SessionStore)
            ((.revokeSession record.sessionId, reading), _) _ :=
          moves_revokeSession hindexed record.sessionId
        exact hrevoked.indexed hindexed
      · exact ⟨r, get?_revoked_insert hr, .inl rfl, fun row hrow _ _ => hrow⟩

/-! Restarting. -/

theorem Backed.restartVault (h : Backed host vault) :
    Backed host (restartVault host vault reading).2 := by
  have hvalid : vault.rows.all (rowValid host) = true := List.all_eq_true.mpr h.tabled.valid
  unfold Gateway.restartVault loadRows
  cases freshNow reading with
  | error failure => exact h
  | ok now =>
    have hkept := h.tabled.filter fun row => now < row.record.expiry
    have hrestored := restoreRows_storeOf [] _ (by simpa using hkept.filed)
    simp only [hvalid, if_true]
    have hempty : storeOf [] = {} := rfl
    rw [hempty] at hrestored
    rw [hrestored]
    exact hkept.backed

/-- Every operation keeps the rows of the records in memory, if it creates a session with the
authentication of the session only. -/
theorem Backed.step (hsession : Function.Injective host.sessionDigest)
    (htoken : Function.Injective host.tokenDigest) (h : Backed host vault)
    {operation : VaultOperation}
    (hbinding : ∀ request generated authentication,
      operation = .create request generated (some authentication) →
        requestBinding request authentication = true) :
    Backed host (vaultStep settings host vault (operation, reading)).2 := by
  cases operation with
  | create request generated authentication =>
    cases authentication with
    | none => exact h
    | some authentication => exact h.createDurable (hbinding request generated authentication rfl)
  | resolveToken token => exact h.resolveToken token
  | resolveSessionId sessionId => exact h.resolveSessionId sessionId
  | revoke sessionId => exact h.revokeSession hsession sessionId
  | revokeSession sessionId => exact h.revokeSession hsession sessionId
  | revokeToken token => exact h.revokeToken htoken token
  | markReauthRequired sessionId => exact h.markDurable sessionId
  | purgeExpired => exact h.purgeDurable
  | popExpiredRecords => exact h.purgeDurable
  | restart => exact h.restartVault

end Vaults

end CapabilityCompiler.Gateway
