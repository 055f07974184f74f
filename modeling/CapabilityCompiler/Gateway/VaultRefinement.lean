import CapabilityCompiler.Gateway.SessionLifecycle
import CapabilityCompiler.Gateway.Vault

/-! The vault refines the store in memory, under conditions on the operations. -/
namespace CapabilityCompiler.Gateway
open Foundation

/-! The store that rows stand for. -/

def storeOf (rows : List VaultRow) : SessionStore where
  byDigest := rows.map fun row => (row.tokenDigest, row.record)
  digestBySessionId := rows.map fun row => (row.record.sessionId, row.tokenDigest)

theorem eq_of_maps {store other : SessionStore} (hdigests : store.byDigest = other.byDigest)
    (hsessions : store.digestBySessionId = other.digestBySessionId)
    (hclosed : store.closed = other.closed) : store = other := by
  cases store
  cases other
  simp only at hdigests hsessions hclosed
  rw [hdigests, hsessions, hclosed]

section Rows
variable {host : VaultHost} {rows : List VaultRow}

theorem find?_eq_of_mem {p q : VaultRow → Bool} (h : ∀ row ∈ rows, p row = q row) :
    rows.find? p = rows.find? q := by
  induction rows with
  | nil => rfl
  | cons row rest ih =>
    rw [List.find?_cons, List.find?_cons, h row List.mem_cons_self,
      ih fun other hother => h other (List.mem_cons_of_mem _ hother)]

theorem get?_storeOf (rows : List VaultRow) (digest : String) :
    (storeOf rows).byDigest.get? digest =
      (rows.find? (·.tokenDigest = digest)).map (·.record) := by
  induction rows with
  | nil => rfl
  | cons row rest ih =>
    simp only [storeOf, List.map_cons, Table.get?_cons] at ih ⊢
    by_cases hdigest : row.tokenDigest = digest
    · simp [hdigest]
    · rw [if_neg hdigest, List.find?_cons_of_neg (by simpa using hdigest)]
      exact ih

theorem session_storeOf (rows : List VaultRow) (sessionId : String) :
    (storeOf rows).digestBySessionId.get? sessionId =
      (rows.find? (·.record.sessionId = sessionId)).map (·.tokenDigest) := by
  induction rows with
  | nil => rfl
  | cons row rest ih =>
    simp only [storeOf, List.map_cons, Table.get?_cons] at ih ⊢
    by_cases hsession : row.record.sessionId = sessionId
    · simp [hsession]
    · rw [if_neg hsession, List.find?_cons_of_neg (by simpa using hsession)]
      exact ih

/-- A stored record has its row. -/
theorem row_of_get? {digest : String} {record : GatewaySessionRecord}
    (h : (storeOf rows).byDigest.get? digest = some record) :
    ∃ row ∈ rows, rows.find? (·.tokenDigest = digest) = some row ∧ row.record = record ∧
      row.tokenDigest = digest := by
  rw [get?_storeOf] at h
  obtain ⟨row, hrow, rfl⟩ := Option.map_eq_some_iff.mp h
  exact ⟨row, List.mem_of_find?_eq_some hrow, hrow, rfl, by simpa using List.find?_some hrow⟩

/-- The rows of a vault are valid, and each is under the digest of a token. -/
structure Filed (host : VaultHost) (rows : List VaultRow) : Prop where
  valid : ∀ row ∈ rows, rowValid host row = true
  minted : ∀ row ∈ rows, ∃ token, isToken token = true ∧ host.tokenDigest token = row.tokenDigest
  indexed : Indexed (storeOf rows)

theorem Filed.get?_of_mem (h : Filed host rows) {row : VaultRow} (hrow : row ∈ rows) :
    (storeOf rows).byDigest.get? row.tokenDigest = some row.record :=
  Table.get?_of_mem h.indexed.unique (List.mem_map.mpr ⟨row, hrow, rfl⟩)

theorem rowValid_iff {row : VaultRow} : rowValid host row = true ↔
    row.record.tokenDigest = row.tokenDigest ∧
      host.sessionDigest row.record.sessionId = row.sessionDigest ∧
      semanticBinding row.record row.authentication = true := by
  simp [rowValid, and_assoc]

theorem Filed.sessionDigest (h : Filed host rows) {row : VaultRow} (hrow : row ∈ rows) :
    host.sessionDigest row.record.sessionId = row.sessionDigest :=
  (rowValid_iff.mp (h.valid row hrow)).2.1

theorem decryptRow_of_valid {row : VaultRow} (h : rowValid host row = true) :
    decryptRow host row = .ok (row.record, row.authentication) := by
  rw [decryptRow, if_pos h]

/-! Removing. -/

/-- Deleting rows removes their records from the store. -/
theorem storeOf_filter (h : Filed host rows) {records : List GatewaySessionRecord}
    (hstored : ∀ r ∈ records, (storeOf rows).byDigest.get? r.tokenDigest = some r)
    {p : VaultRow → Bool}
    (hp : ∀ row ∈ rows, p row = decide (row.tokenDigest ∉ records.map (·.tokenDigest))) :
    storeOf (rows.filter p) = (storeOf rows).removeAll records := by
  have hdigests : (storeOf (rows.filter p)).byDigest = ((storeOf rows).removeAll records).byDigest := by
    rw [SessionStore.removeAll_byDigest]
    simp only [storeOf, List.filter_map]
    congr 1
    exact List.filter_congr fun row hrow => hp row hrow
  have hsessions : (storeOf (rows.filter p)).digestBySessionId =
      ((storeOf rows).removeAll records).digestBySessionId := by
    rw [SessionStore.removeAll_digestBySessionId]
    simp only [storeOf, List.filter_map]
    congr 1
    refine List.filter_congr fun row hrow => ?_
    rw [hp row hrow]
    exact decide_eq_decide.mpr (not_congr (h.indexed.removed_iff hstored (h.get?_of_mem hrow)))
  exact eq_of_maps hdigests hsessions ((storeOf rows).removeAll_closed records).symm

theorem Filed.filter (h : Filed host rows) {records : List GatewaySessionRecord}
    (hstored : ∀ r ∈ records, (storeOf rows).byDigest.get? r.tokenDigest = some r)
    {p : VaultRow → Bool}
    (hp : ∀ row ∈ rows, p row = decide (row.tokenDigest ∉ records.map (·.tokenDigest))) :
    Filed host (rows.filter p) where
  valid := fun row hrow => h.valid row (List.mem_filter.mp hrow).1
  minted := fun row hrow => h.minted row (List.mem_filter.mp hrow).1
  indexed := by
    rw [storeOf_filter h hstored hp]
    exact h.indexed.removeAll hstored

/-! Marking. -/

/-- The rows with the record under this digest marked. -/
def markRows (digest : String) (record : GatewaySessionRecord) (rows : List VaultRow) :
    List VaultRow :=
  rows.map fun row => if row.tokenDigest = digest then { row with record } else row

theorem storeOf_markRows (h : Filed host rows) {digest : String} {record : GatewaySessionRecord}
    (hfound : (storeOf rows).byDigest.get? digest = some record) :
    storeOf (markRows digest record.marked rows) =
      { storeOf rows with byDigest := (storeOf rows).byDigest.put digest record.marked } := by
  have hput : ∀ table : Table String GatewaySessionRecord, table.Unique →
      (table.get? digest).isSome = true →
      table.map (fun entry => if entry.1 = digest then (entry.1, record.marked) else entry) =
        table.put digest record.marked := by
    intro table hunique hbound
    induction table with
    | nil => exact absurd hbound (by simp)
    | cons entry rest ih =>
      obtain ⟨key, value⟩ := entry
      obtain ⟨hfresh, hrest⟩ := List.nodup_cons.mp hunique
      rw [List.map_cons, Table.put]
      by_cases hkey : key = digest
      · subst hkey
        rw [if_pos rfl, if_pos rfl]
        congr 1
        refine (List.map_congr_left fun other hother => ?_).trans (List.map_id rest)
        rw [if_neg]
        · rfl
        · intro hsame
          exact hfresh (List.mem_map.mpr ⟨other, hother, hsame⟩)
      · rw [if_neg hkey, if_neg hkey]
        rw [Table.get?_cons, if_neg hkey] at hbound
        rw [ih hrest hbound]
  have hdigests : (storeOf (markRows digest record.marked rows)).byDigest =
      (storeOf rows).byDigest.put digest record.marked := by
    rw [← hput _ h.indexed.unique (by rw [hfound]; rfl)]
    simp only [storeOf, markRows, List.map_map]
    refine List.map_congr_left fun row _ => ?_
    simp only [Function.comp_apply]
    split
    · rfl
    · rfl
  have hsessions : (storeOf (markRows digest record.marked rows)).digestBySessionId =
      (storeOf rows).digestBySessionId := by
    simp only [storeOf, markRows, List.map_map]
    refine List.map_congr_left fun row hrow => ?_
    simp only [Function.comp_apply]
    split
    · rename_i hdigest
      have hrecord := h.get?_of_mem hrow
      rw [hdigest, hfound] at hrecord
      rw [← Option.some.inj hrecord]
      rfl
    · rfl
  exact eq_of_maps hdigests hsessions rfl

theorem Filed.markRows (h : Filed host rows) {digest : String} {record : GatewaySessionRecord}
    (hfound : (storeOf rows).byDigest.get? digest = some record) :
    Filed host (markRows digest record.marked rows) where
  valid := by
    intro row hrow
    obtain ⟨row, hold, rfl⟩ := List.mem_map.mp hrow
    have hvalid := h.valid row hold
    split
    · rename_i hdigest
      have hrecord := h.get?_of_mem hold
      rw [hdigest, hfound] at hrecord
      obtain rfl := Option.some.inj hrecord
      exact hvalid
    · exact hvalid
  minted := by
    intro row hrow
    obtain ⟨row, hold, rfl⟩ := List.mem_map.mp hrow
    have hminted := h.minted row hold
    split
    · exact hminted
    · exact hminted
  indexed := by
    rw [storeOf_markRows h hfound]
    exact h.indexed.put hfound rfl rfl

/-- The row of a stored record is rewritten. -/
theorem rewriteRecord_marked (h : Filed host rows) {digest : String}
    {record : GatewaySessionRecord} (hfound : (storeOf rows).byDigest.get? digest = some record) :
    rewriteRecord host record.marked rows = .ok (Gateway.markRows digest record.marked rows) := by
  obtain ⟨row, hrow, hfind, -, -⟩ := row_of_get? hfound
  have hdigest : record.tokenDigest = digest := h.indexed.keyed _ _ hfound
  rw [rewriteRecord, GatewaySessionRecord.marked_tokenDigest, hdigest, hfind]
  simp only [decryptRow_of_valid (h.valid row hrow)]
  rfl

/-- Persisting that a session requires reauthentication marks its record. -/
theorem persistReauthDigest_marked (h : Filed host rows) {digest : String}
    {record : GatewaySessionRecord} (hfound : (storeOf rows).byDigest.get? digest = some record) :
    persistReauthDigest host digest rows = .ok (if record.status = .reauthRequired then rows
      else Gateway.markRows digest record.marked rows) := by
  obtain ⟨row, hrow, hfind, rfl, -⟩ := row_of_get? hfound
  rw [persistReauthDigest, hfind]
  simp only [decryptRow_of_valid (h.valid row hrow)]
  split
  · rfl
  · exact rewriteRecord_marked h hfound

theorem persistReauthSession_digest (hinjective : Function.Injective host.sessionDigest)
    (h : Filed host rows) {digest sessionId : String}
    (hsession : (storeOf rows).digestBySessionId.get? sessionId = some digest) :
    persistReauthSession host sessionId rows = persistReauthDigest host digest rows := by
  rw [session_storeOf] at hsession
  obtain ⟨row, hfind, rfl⟩ := Option.map_eq_some_iff.mp hsession
  have hkeyed : rows.find? (fun row => row.sessionDigest = host.sessionDigest sessionId) =
      some row := by
    rw [← hfind]
    refine find?_eq_of_mem fun other hother => ?_
    rw [← h.sessionDigest hother]
    exact decide_eq_decide.mpr hinjective.eq_iff
  rw [persistReauthSession, hkeyed]

/-! Inserting. -/

theorem storeOf_append {row : VaultRow}
    (hdigest : (storeOf rows).byDigest.get? row.record.tokenDigest = none)
    (hsession : (storeOf rows).digestBySessionId.get? row.record.sessionId = none)
    (hrow : row.record.tokenDigest = row.tokenDigest) :
    storeOf (rows ++ [row]) = (storeOf rows).insert row.record := by
  rw [SessionStore.insert, SessionStore.put, Table.put_of_get?_none hdigest,
    Table.put_of_get?_none hsession]
  simp only [storeOf, List.map_append, List.map_singleton, hrow]

theorem Filed.append (h : Filed host rows) {row : VaultRow}
    (hdigest : (storeOf rows).byDigest.get? row.record.tokenDigest = none)
    (hsession : (storeOf rows).digestBySessionId.get? row.record.sessionId = none)
    (hvalid : rowValid host row = true)
    (hminted : ∃ token, isToken token = true ∧ host.tokenDigest token = row.tokenDigest) :
    Filed host (rows ++ [row]) where
  valid := by
    intro other hother
    rcases List.mem_append.mp hother with hold | hlast
    · exact h.valid other hold
    · rw [List.mem_singleton.mp hlast]
      exact hvalid
  minted := by
    intro other hother
    rcases List.mem_append.mp hother with hold | hlast
    · exact h.minted other hold
    · rw [List.mem_singleton.mp hlast]
      exact hminted
  indexed := by
    rw [storeOf_append hdigest hsession (rowValid_iff.mp hvalid).1]
    exact h.indexed.insert hdigest hsession

end Rows
/-! Conditions. -/

/-- Every record that has reached a source boundary before its expiry is marked already. -/
def Quiet (store : SessionStore) (now : ℚ) : Prop :=
  ∀ record ∈ store.byDigest.map Prod.snd, ¬ record.expiry < now → record.sourceReached now = true →
    record.status = .reauthRequired

/-- The operation on the store in memory, which is not restarted. -/
def memoryStep (settings : StoreSettings) (host : SessionHost) (store : SessionStore)
    (input : VaultOperation × Reading) : SessionAnswer × SessionStore :=
  match input.1.memory? with
  | some operation => sessionStep settings host store (operation, input.2)
  | none => (.restored, store)

/-- When an operation on the vault has the effect of the one in memory: a session is created with its
own authentication, while every record that has reached a source boundary is marked and, if the
record is published, none is expired; a session is marked past its expiry or while it can be
resolved; records are purged while every one that has reached a source boundary is marked; and the
vault is restarted before any record expires. -/
def StepMeets (settings : StoreSettings) (host : SessionHost) (store : SessionStore) :
    VaultOperation × Reading → Prop
  | (.create request generated authentication, reading) =>
    (∃ result, authentication = some result ∧ requestBinding request result = true) ∧
    ∀ now boundaries, reading = .reads now → sourceBoundaries now request = .ok boundaries →
      Quiet store now ∧ ∀ token record, generated = some token →
        Publishes settings host store now boundaries request token record →
          store.expiredRecords now = []
  | (.markReauthRequired sessionId, reading) => ∀ now digest record, reading = .reads now →
      store.digestBySessionId.get? sessionId = some digest →
      store.byDigest.get? digest = some record → record.expiry < now ∨ Resolvable now record
  | (.purgeExpired, reading) | (.popExpiredRecords, reading) =>
    ∀ now, reading = .reads now → Quiet store now
  | (.restart, reading) => ∃ now, reading = .reads now ∧
      ∀ record ∈ store.byDigest.map Prod.snd, now < record.expiry
  | _ => True

/-- The answer is the one in memory, and the rows are those of the store in memory. -/
def Refined (host : VaultHost) (result : VaultAnswer × Vault)
    (expected : SessionAnswer × SessionStore) : Prop :=
  ∃ rows, Filed host rows ∧ result = (.answered expected.1, { inner := storeOf rows, rows }) ∧
    expected.2 = storeOf rows

section Steps
variable {settings : StoreSettings} {host : VaultHost} {rows : List VaultRow} {reading : Reading}

theorem looked_of_quiet {store : SessionStore} {now : ℚ} (h : Quiet store now) :
    store.looked now = store := by
  refine eq_of_maps ?_ rfl rfl
  refine (List.map_congr_left fun entry hentry => ?_).trans (List.map_id store.byDigest)
  have hrecord : entry.2 ∈ store.byDigest.map Prod.snd := List.mem_map_of_mem hentry
  have hlook : SessionStore.afterLook now entry.2 = entry.2 := by
    unfold SessionStore.afterLook
    split
    · rfl
    · rename_i hlate
      split
      · rename_i hreached
        exact GatewaySessionRecord.marked_of_status _ (h entry.2 hrecord hlate hreached)
      · rfl
  rw [hlook]
  rfl

theorem refined_same (h : Filed host rows) (answer : SessionAnswer) :
    Refined host (.answered answer, { inner := storeOf rows, rows }) (answer, storeOf rows) :=
  ⟨rows, h, rfl, rfl⟩

/-- A resolution persists the reauthentication that it finds. -/
theorem refined_resolveDigest (h : Filed host rows) {digest : String}
    {persist : List VaultRow → Except SessionFailure (List VaultRow)}
    (hpersist : (storeOf rows).byDigest.get? digest ≠ none →
      persist rows = persistReauthDigest host digest rows) (now : ℚ) :
    Refined host (resolved { inner := storeOf rows, rows } persist
      (resolveDigest (storeOf rows) digest now)) (resolveDigest (storeOf rows) digest now) := by
  unfold resolveDigest
  cases hfound : (storeOf rows).byDigest.get? digest with
  | none => exact refined_same h _
  | some record =>
    have hpersisted := (hpersist (by simp [hfound])).trans (persistReauthDigest_marked h hfound)
    simp only
    split
    · exact refined_same h _
    · split
      · rename_i hstatus
        rw [if_pos hstatus] at hpersisted
        simp only [resolved, if_true, hpersisted]
        exact refined_same h _
      · rename_i hstatus
        rw [if_neg hstatus] at hpersisted
        split
        · simp only [resolved, if_true, hpersisted]
          exact ⟨_, h.markRows hfound, by rw [storeOf_markRows h hfound],
            (storeOf_markRows h hfound).symm⟩
        · split
          · exact refined_same h _
          · exact refined_same h _

theorem refined_resolveToken (h : Filed host rows) (token : String) :
    Refined host (resolved { inner := storeOf rows, rows }
      (persistReauthDigest host (host.tokenDigest token))
      (resolveToken host.toSessionHost (storeOf rows) reading token))
      (resolveToken host.toSessionHost (storeOf rows) reading token) := by
  unfold resolveToken
  split
  · exact refined_same h _
  · split
    · exact refined_same h _
    · cases hnow : freshNow reading with
      | error failure =>
        have hkind := invalid_of_freshNow hnow
        simp only [resolved, hkind, reduceCtorEq, if_false]
        exact refined_same h _
      | ok now => exact refined_resolveDigest h (fun _ => rfl) now

theorem refined_resolveSessionId (hinjective : Function.Injective host.sessionDigest)
    (h : Filed host rows) (sessionId : String) :
    Refined host (resolved { inner := storeOf rows, rows } (persistReauthSession host sessionId)
      (resolveSessionId (storeOf rows) reading sessionId))
      (resolveSessionId (storeOf rows) reading sessionId) := by
  unfold resolveSessionId
  split
  · exact refined_same h _
  · cases hsession : (storeOf rows).digestBySessionId.get? sessionId with
    | none => exact refined_same h _
    | some digest =>
      cases hnow : freshNow reading with
      | error failure =>
        have hkind := invalid_of_freshNow hnow
        simp only [resolved, hkind, reduceCtorEq, if_false]
        exact refined_same h _
      | ok now =>
        exact refined_resolveDigest h (fun _ => persistReauthSession_digest hinjective h hsession) now

/-- Deleting the row of a record removes the record. -/
theorem refined_remove (h : Filed host rows) {digest : String} {record : GatewaySessionRecord}
    (hfound : (storeOf rows).byDigest.get? digest = some record) {p : VaultRow → Bool}
    (hp : ∀ row ∈ rows, p row = decide (row.tokenDigest ≠ digest)) (answer : SessionAnswer) :
    Refined host (.answered answer,
        { inner := (storeOf rows).remove record, rows := rows.filter p })
      (answer, (storeOf rows).remove record) := by
  have hdigest := h.indexed.keyed _ _ hfound
  have hstored : ∀ r ∈ [record], (storeOf rows).byDigest.get? r.tokenDigest = some r := by
    intro r hr
    rw [List.mem_singleton.mp hr, hdigest, hfound]
  have hpredicate : ∀ row ∈ rows,
      p row = decide (row.tokenDigest ∉ [record].map (·.tokenDigest)) := by
    intro row hrow
    rw [hp row hrow, List.map_singleton, hdigest]
    exact decide_eq_decide.mpr (not_congr List.mem_singleton.symm)
  have hremoved : (storeOf rows).remove record = storeOf (rows.filter p) :=
    (storeOf_filter h hstored hpredicate).symm
  exact ⟨_, h.filter hstored hpredicate, by rw [hremoved], hremoved⟩

/-- A session that is known has its record. -/
theorem record_of_session (h : Filed host rows) {sessionId digest : String}
    (hsession : (storeOf rows).digestBySessionId.get? sessionId = some digest) :
    ∃ record, (storeOf rows).byDigest.get? digest = some record ∧ record.sessionId = sessionId ∧
      record.tokenDigest = digest := by
  obtain ⟨record, hfound, hid⟩ := (h.indexed.inverse digest sessionId).mpr hsession
  exact ⟨record, hfound, hid, h.indexed.keyed _ _ hfound⟩

theorem refined_revokeSession (hinjective : Function.Injective host.sessionDigest)
    (h : Filed host rows) (sessionId : String) :
    Refined host (.answered (revokeSession (storeOf rows) sessionId).1,
        { inner := (revokeSession (storeOf rows) sessionId).2
          rows := deleteSession host sessionId rows })
      (revokeSession (storeOf rows) sessionId) := by
  have hkeyed : ∀ row ∈ rows, (row.sessionDigest ≠ host.sessionDigest sessionId) =
      (row.record.sessionId ≠ sessionId) := by
    intro row hrow
    rw [← h.sessionDigest hrow]
    exact propext (not_congr hinjective.eq_iff)
  unfold revokeSession
  cases hsession : (storeOf rows).digestBySessionId.get? sessionId with
  | none =>
    have hrows : deleteSession host sessionId rows = rows := by
      refine List.filter_eq_self.mpr fun row hrow => ?_
      simp only [hkeyed row hrow, decide_eq_true_eq]
      intro hid
      have hknown := h.indexed.session_of_get? (h.get?_of_mem hrow)
      rw [hid, hsession] at hknown
      exact absurd hknown (by simp)
    rw [hrows]
    exact refined_same h _
  | some digest =>
    obtain ⟨record, hfound, hid, hdigest⟩ := record_of_session h hsession
    have hpredicate : ∀ row ∈ rows, decide (row.sessionDigest ≠ host.sessionDigest sessionId) =
        decide (row.tokenDigest ≠ digest) := by
      intro row hrow
      have hrecord := h.get?_of_mem hrow
      have hiff : row.record.sessionId = sessionId ↔ row.tokenDigest = digest := by
        constructor
        · intro hsame
          exact (h.indexed.eq_of_sessionId hrecord hfound (hsame.trans hid.symm)).1
        · intro hsame
          rw [hsame, hfound] at hrecord
          rw [← Option.some.inj hrecord, hid]
      simp only [hkeyed row hrow, ne_eq, hiff]
    have hremoved := refined_remove h hfound hpredicate (.revoked (some record))
    simp only [SessionStore.remove, hdigest, hid] at hremoved
    rw [deleteSession]
    simpa only [hfound] using hremoved

theorem revoke_eq_revokeSession {store : SessionStore} (h : Indexed store) (sessionId : String) :
    revoke store sessionId = revokeSession store sessionId := by
  unfold revoke revokeSession
  cases hsession : store.digestBySessionId.get? sessionId with
  | none => rfl
  | some digest =>
    obtain ⟨record, hfound, hid⟩ := (h.inverse digest sessionId).mpr hsession
    simp only [hfound, SessionStore.remove, h.keyed _ _ hfound, hid]

theorem refined_revokeToken (hinjective : Function.Injective host.tokenDigest)
    (h : Filed host rows) (token : String) :
    Refined host (.answered (revokeToken host.toSessionHost (storeOf rows) token).1,
        { inner := (revokeToken host.toSessionHost (storeOf rows) token).2
          rows := deleteDigests [host.tokenDigest token] rows })
      (revokeToken host.toSessionHost (storeOf rows) token) := by
  have hpredicate : ∀ row ∈ rows, decide (row.tokenDigest ∉ [host.tokenDigest token]) =
      decide (row.tokenDigest ≠ host.tokenDigest token) := by
    intro row _
    exact decide_eq_decide.mpr (not_congr List.mem_singleton)
  have hkept : (∀ row ∈ rows, row.tokenDigest ≠ host.tokenDigest token) →
      deleteDigests [host.tokenDigest token] rows = rows := by
    intro hnone
    refine List.filter_eq_self.mpr fun row hrow => ?_
    rw [hpredicate row hrow, decide_eq_true_eq]
    exact hnone row hrow
  unfold revokeToken
  split
  · rename_i hshape
    rw [hkept]
    · exact refined_same h _
    · intro row hrow hsame
      obtain ⟨minted, hminted, hdigest⟩ := h.minted row hrow
      rw [hinjective (hdigest.trans hsame)] at hminted
      exact absurd hminted (by simpa using hshape)
  · cases hfound : (storeOf rows).byDigest.get? (host.tokenDigest token) with
    | none =>
      rw [hkept]
      · exact refined_same h _
      · intro row hrow hsame
        have hrecord := h.get?_of_mem hrow
        rw [hsame, hfound] at hrecord
        exact absurd hrecord (by simp)
    | some record =>
      have hdigest := h.indexed.keyed _ _ hfound
      have hremoved := refined_remove h hfound hpredicate (.revoked (some record))
      rw [deleteDigests]
      simpa only [SessionStore.remove, hdigest] using hremoved

theorem refined_purge (h : Filed host rows)
    (hmeets : ∀ now, reading = .reads now → Quiet (storeOf rows) now) :
    Refined host (purgeDurable { inner := storeOf rows, rows } reading)
      (purgeExpired (storeOf rows) reading) := by
  unfold purgeDurable purgeExpired
  have hopen : (storeOf rows).closed = false := rfl
  simp only [hopen, Bool.false_eq_true, if_false]
  cases hnow : freshNow reading with
  | error failure => exact refined_same h _
  | ok now =>
    have hlooked := looked_of_quiet (hmeets now (reads_of_freshNow hnow))
    have hstored := expired_stored h.indexed now
    rw [hlooked] at hstored
    simp only [collectExpired, hlooked]
    have hremoved := storeOf_filter h hstored (p := fun row => decide (row.tokenDigest ∉
      ((storeOf rows).expiredRecords now).map (·.tokenDigest))) (fun _ _ => rfl)
    exact ⟨_, h.filter hstored (fun _ _ => rfl), by rw [deleteDigests, hremoved], hremoved.symm⟩

theorem refined_mark (h : Filed host rows) {sessionId : String}
    (hmeets : ∀ now digest record, reading = .reads now →
      (storeOf rows).digestBySessionId.get? sessionId = some digest →
      (storeOf rows).byDigest.get? digest = some record →
        record.expiry < now ∨ Resolvable now record) :
    Refined host (markDurable host { inner := storeOf rows, rows } reading sessionId)
      (markReauthRequired (storeOf rows) reading sessionId) := by
  have hopen : (storeOf rows).closed = false := rfl
  unfold markDurable markReauthRequired resolveSessionId
  simp only [hopen, Bool.false_eq_true, if_false]
  cases hsession : (storeOf rows).digestBySessionId.get? sessionId with
  | none => exact refined_same h _
  | some digest =>
    obtain ⟨record, hfound, hid, hdigest⟩ := record_of_session h hsession
    cases hnow : freshNow reading with
    | error failure => exact refined_same h _
    | ok now =>
      rcases hmeets now digest record (reads_of_freshNow hnow) hsession hfound with hlate | hlive
      · simp only [resolveDigest, hfound, hlate, if_true]
        exact refined_same h _
      · have hearly : ¬ record.expiry < now := not_lt.mpr hlive.early.le
        have hbefore : ¬ record.expiry ≤ now := not_le.mpr hlive.early
        have hresolved : resolveDigest (storeOf rows) digest now = (.resolved record, storeOf rows) := by
          simp only [resolveDigest, hfound, hearly, if_false, hlive.authenticated, hlive.unreached,
            Bool.false_eq_true, hbefore]
        simp only [hresolved, rewriteRecord_marked h hfound, hopen, Bool.false_eq_true, if_false,
          hsession, hfound, hearly]
        have hmarked := storeOf_markRows h hfound
        exact ⟨_, h.markRows hfound, by rw [hmarked]; rfl, hmarked.symm⟩

theorem sourceBoundaries_eq {now : ℚ} {request : SessionRequest} {boundaries : Option ℚ × Option ℚ}
    (h : sourceBoundaries now request = .ok boundaries) :
    boundaries = (request.sourceExpiresAt.join, request.sourceRefreshAt.join) := by
  unfold sourceBoundaries at h
  split at h
  · exact absurd h (by simp)
  · exact absurd h (by simp)
  · simp only at h
    repeat' split at h
    all_goals first
      | exact (Except.ok.inj h).symm
      | exact absurd h (by simp)

/-- A published record belongs to the authentication of its request. -/
theorem semanticBinding_published {store : SessionStore} {now : ℚ}
    {boundaries : Option ℚ × Option ℚ} {request : SessionRequest} {token : String}
    {record : GatewaySessionRecord} {authentication : AuthenticationResult}
    (hboundaries : sourceBoundaries now request = .ok boundaries)
    (hpublishes : Publishes settings host.toSessionHost store now boundaries request token record)
    (hbinding : requestBinding request authentication = true) :
    semanticBinding record authentication = true := by
  obtain ⟨-, -, hcontext, -, -, -, hexpires, hrefresh, -⟩ :=
    GatewaySessionRecord.of_build? hpublishes.built
  rw [sourceBoundaries_eq hboundaries] at hexpires hrefresh
  simp only [semanticBinding, hcontext, hexpires, hrefresh]
  exact hbinding

/-- A record is published under digests that no row has, and its row is valid. -/
theorem insertRow_published (hinjective : Function.Injective host.sessionDigest)
    (h : Filed host rows) {now : ℚ} {boundaries : Option ℚ × Option ℚ} {request : SessionRequest}
    {token : String} {record : GatewaySessionRecord} {authentication : AuthenticationResult}
    (hquiet : Quiet (storeOf rows) now) (hexpired : (storeOf rows).expiredRecords now = [])
    (hboundaries : sourceBoundaries now request = .ok boundaries)
    (hpublishes : Publishes settings host.toSessionHost (storeOf rows) now boundaries request token
      record)
    (hbinding : requestBinding request authentication = true) :
    ∃ next, insertRow host record authentication rows = some next ∧ Filed host next ∧
      storeOf next = (storeOf rows).insert record := by
  obtain ⟨hid, hdigest, -⟩ := GatewaySessionRecord.of_build? hpublishes.built
  have hnew : (storeOf rows).byDigest.get? record.tokenDigest = none := by
    have hlooked := hpublishes.new
    rwa [looked_of_quiet hquiet, ← hdigest] at hlooked
  have hfree : (storeOf rows).digestBySessionId.get? record.sessionId = none := by
    rw [Option.eq_none_iff_forall_ne_some]
    intro digest hfound
    rw [hid] at hfound
    have hmem := hpublishes.free digest (by rw [looked_of_quiet hquiet]; exact hfound)
    rw [hexpired] at hmem
    exact absurd hmem List.not_mem_nil
  let row : VaultRow :=
    { tokenDigest := record.tokenDigest, sessionDigest := host.sessionDigest record.sessionId
      record, authentication }
  have hfresh : (rows.any fun row => row.tokenDigest = record.tokenDigest ||
      row.sessionDigest = host.sessionDigest record.sessionId) = false := by
    refine List.any_eq_false.mpr fun other hother => ?_
    have hfound := h.get?_of_mem hother
    simp only [Bool.or_eq_true, decide_eq_true_eq, not_or]
    constructor
    · intro hsame
      rw [hsame, hnew] at hfound
      exact absurd hfound (by simp)
    · intro hsame
      rw [← h.sessionDigest hother] at hsame
      have hknown := h.indexed.session_of_get? hfound
      rw [hinjective hsame, hfree] at hknown
      exact absurd hknown (by simp)
  have hvalid : rowValid host row = true := by
    rw [rowValid_iff]
    exact ⟨rfl, rfl, semanticBinding_published hboundaries hpublishes hbinding⟩
  refine ⟨rows ++ [row], ?_, ?_, storeOf_append hnew hfree rfl⟩
  · rw [insertRow, hfresh]
    rfl
  · exact h.append hnew hfree hvalid ⟨token, hpublishes.shaped, hdigest.symm⟩

theorem refined_create (hinjective : Function.Injective host.sessionDigest) (h : Filed host rows)
    {request : SessionRequest} {generated : Option String}
    {authentication : AuthenticationResult} (hbinding : requestBinding request authentication = true)
    (hmeets : ∀ now boundaries, reading = .reads now →
      sourceBoundaries now request = .ok boundaries →
        Quiet (storeOf rows) now ∧ ∀ token record, generated = some token →
          Publishes settings host.toSessionHost (storeOf rows) now boundaries request token record →
            (storeOf rows).expiredRecords now = []) :
    Refined host
      (createDurable settings host { inner := storeOf rows, rows } reading request generated
        (some authentication))
      (create settings host.toSessionHost (storeOf rows) reading request generated) := by
  rcases create_cases settings host.toSessionHost (storeOf rows) reading request generated with
    ⟨failure, heq⟩ | ⟨now, boundaries, hreading, -, hboundaries, hcases⟩
  · simp only [createDurable, heq]
    exact refined_same h _
  · obtain ⟨hquiet, hnone⟩ := hmeets now boundaries hreading hboundaries
    rcases hcases with ⟨failure, heq⟩ | ⟨token, record, hgenerated, hpublishes, heq⟩
    · rw [looked_of_quiet hquiet] at heq
      simp only [createDurable, heq]
      exact refined_same h _
    · have hexpired := hnone token record hgenerated hpublishes
      obtain ⟨next, hinsert, hfiled, hstore⟩ :=
        insertRow_published hinjective h hquiet hexpired hboundaries hpublishes hbinding
      rw [looked_of_quiet hquiet, hexpired] at heq
      simp only [createDurable, heq, hinsert]
      exact ⟨next, hfiled, by rw [hstore]; rfl, hstore.symm⟩

/-! Restarting. -/

/-- The rows are restored one after the other. -/
theorem restoreRows_storeOf (done rest : List VaultRow) (h : Filed host (done ++ rest)) :
    restoreRows (storeOf done) rest = (.restored, storeOf (done ++ rest)) := by
  induction rest generalizing done with
  | nil => rw [restoreRows, List.append_nil]
  | cons row rest ih =>
    have hdigests := h.indexed.unique
    have hkey : row.record.tokenDigest = row.tokenDigest :=
      (rowValid_iff.mp (h.valid row (by simp))).1
    have hnew : (storeOf done).byDigest.get? row.record.tokenDigest = none := by
      rw [get?_storeOf, Option.map_eq_none_iff, List.find?_eq_none]
      intro other hother hsame
      have hsplit : (done.map (·.tokenDigest) ++ (row :: rest).map (·.tokenDigest)).Nodup := by
        simpa [storeOf, Table.Unique, Function.comp_def] using hdigests
      refine (List.nodup_append.mp hsplit).2.2 _ (List.mem_map_of_mem hother) _
        (List.mem_map_of_mem List.mem_cons_self) ?_
      simpa [hkey] using hsame
    have hfree : (storeOf done).digestBySessionId.get? row.record.sessionId = none := by
      rw [session_storeOf, Option.map_eq_none_iff, List.find?_eq_none]
      intro other hother hsame
      have hold := h.get?_of_mem (List.mem_append_left _ hother)
      have hrow := h.get?_of_mem (List.mem_append_right done List.mem_cons_self)
      have hdigest := (h.indexed.eq_of_sessionId hold hrow (by simpa using hsame)).1
      rw [get?_storeOf, Option.map_eq_none_iff, List.find?_eq_none] at hnew
      exact hnew other hother (by simpa [hkey] using hdigest)
    have hrestored : restore (storeOf done) row.record = (.restored, storeOf (done ++ [row])) := by
      rw [restore, hnew, hfree, storeOf_append hnew hfree hkey]
      rfl
    rw [restoreRows, hrestored]
    simp only
    rw [ih (done ++ [row]) (by simpa using h), List.append_assoc, List.singleton_append]

theorem refined_restart (h : Filed host rows) {now : ℚ}
    (hmeets : ∀ record ∈ (storeOf rows).byDigest.map Prod.snd, now < record.expiry) :
    Refined host (restartVault host { inner := storeOf rows, rows } (.reads now))
      (.restored, storeOf rows) := by
  have hvalid : rows.all (rowValid host) = true := List.all_eq_true.mpr h.valid
  have hkept : rows.filter (fun row => now < row.record.expiry) = rows := by
    refine List.filter_eq_self.mpr fun row hrow => decide_eq_true ?_
    exact hmeets row.record
      (List.mem_map.mpr ⟨(row.tokenDigest, row.record), List.mem_map.mpr ⟨row, hrow, rfl⟩, rfl⟩)
  have hrestored : restoreRows {} rows = (.restored, storeOf rows) :=
    restoreRows_storeOf [] rows (by simpa using h)
  simp only [restartVault, loadRows, freshNow, hvalid, if_true, hkept, hrestored]
  exact refined_same h _

theorem refined_step (hsession : Function.Injective host.sessionDigest)
    (htoken : Function.Injective host.tokenDigest) (h : Filed host rows)
    {input : VaultOperation × Reading}
    (hmeets : StepMeets settings host.toSessionHost (storeOf rows) input) :
    Refined host (vaultStep settings host { inner := storeOf rows, rows } input)
      (memoryStep settings host.toSessionHost (storeOf rows) input) := by
  obtain ⟨operation, reading⟩ := input
  cases operation with
  | create request generated authentication =>
    obtain ⟨⟨result, rfl, hbinding⟩, hquiet⟩ := hmeets
    exact refined_create hsession h hbinding hquiet
  | resolveToken token => exact refined_resolveToken h token
  | resolveSessionId sessionId => exact refined_resolveSessionId hsession h sessionId
  | revoke sessionId =>
    have hrevoked := refined_revokeSession hsession h sessionId
    rw [← revoke_eq_revokeSession h.indexed sessionId] at hrevoked
    simp only [memoryStep, VaultOperation.memory?, sessionStep, vaultStep,
      ← revoke_eq_revokeSession h.indexed sessionId]
    exact hrevoked
  | revokeSession sessionId => exact refined_revokeSession hsession h sessionId
  | revokeToken token => exact refined_revokeToken htoken h token
  | markReauthRequired sessionId => exact refined_mark h hmeets
  | purgeExpired => exact refined_purge h hmeets
  | popExpiredRecords => exact refined_purge h hmeets
  | restart =>
    obtain ⟨now, rfl, hlive⟩ := hmeets
    exact refined_restart h hlive

/-! Runs. -/

theorem Filed.nil : Filed host [] where
  valid := fun _ hrow => absurd hrow List.not_mem_nil
  minted := fun _ hrow => absurd hrow List.not_mem_nil
  indexed := Indexed.empty

/-- A run that starts from filed rows. -/
theorem refined_run (hsession : Function.Injective host.sessionDigest)
    (htoken : Function.Injective host.tokenDigest) (h : Filed host rows)
    {inputs : List (VaultOperation × Reading)}
    (hrun : Machine.Along (memoryStep settings host.toSessionHost)
      (StepMeets settings host.toSessionHost) (storeOf rows) inputs) :
    Machine.trace (vaultStep settings host) { inner := storeOf rows, rows } inputs =
      (Machine.trace (memoryStep settings host.toSessionHost) (storeOf rows) inputs).map
        (fun entry => (entry.1, .answered entry.2)) ∧
    ∃ final, Filed host final ∧
      Machine.after (vaultStep settings host) { inner := storeOf rows, rows } inputs =
        { inner := storeOf final, rows := final } ∧
      Machine.after (memoryStep settings host.toSessionHost) (storeOf rows) inputs =
        storeOf final := by
  induction inputs generalizing rows with
  | nil => exact ⟨rfl, rows, h, rfl, rfl⟩
  | cons input rest ih =>
    obtain ⟨next, hnext, hresult, hstore⟩ := refined_step hsession htoken h hrun.1
    have hrest := hrun.2
    rw [hstore] at hrest
    obtain ⟨htrace, final, hfinal, hvault, hmemory⟩ := ih hnext hrest
    refine ⟨?_, final, hfinal, ?_, ?_⟩
    · simp only [Machine.trace, List.map_cons, hresult, hstore, htrace]
    · rw [Machine.after, hresult]
      exact hvault
    · rw [Machine.after, hstore]
      exact hmemory

end Steps

/-- While the digests do not collide, the vault answers as the store in memory in every run whose
steps meet the condition, and its rows decode to the records in memory. -/
theorem vault_refines_memory (settings : StoreSettings) (host : VaultHost)
    (hsession : Function.Injective host.sessionDigest)
    (htoken : Function.Injective host.tokenDigest) (inputs : List (VaultOperation × Reading))
    (hrun : Machine.Along (memoryStep settings host.toSessionHost)
      (StepMeets settings host.toSessionHost) {} inputs) :
    Machine.trace (vaultStep settings host) {} inputs =
      (Machine.trace (memoryStep settings host.toSessionHost) {} inputs).map
        (fun entry => (entry.1, .answered entry.2)) ∧
    (Machine.after (vaultStep settings host) {} inputs).inner =
      Machine.after (memoryStep settings host.toSessionHost) {} inputs ∧
    storeOf (Machine.after (vaultStep settings host) {} inputs).rows =
      Machine.after (memoryStep settings host.toSessionHost) {} inputs ∧
    ∀ row ∈ (Machine.after (vaultStep settings host) {} inputs).rows,
      decryptRow host row = .ok (row.record, row.authentication) := by
  have hempty : Filed host [] := Filed.nil
  obtain ⟨htrace, final, hfinal, hvault, hmemory⟩ := refined_run hsession htoken hempty hrun
  refine ⟨htrace, ?_, ?_, ?_⟩
  · exact (congrArg Vault.inner hvault).trans hmemory.symm
  · exact (congrArg (fun vault => storeOf vault.rows) hvault).trans hmemory.symm
  · intro row hrow
    have hrows : (Machine.after (vaultStep settings host) {} inputs).rows = final :=
      congrArg Vault.rows hvault
    rw [hrows] at hrow
    exact decryptRow_of_valid (hfinal.valid row hrow)

/-! A session that is marked and, marked already, marked again. -/

section Example

private def durableSettings : StoreSettings := .brief 1 Nat.one_pos

private def keyedHost : VaultHost where
  tokenDigest := id
  later := fun now ttl => now + ttl
  sessionDigest := id

private def durableRequest : SessionRequest where
  sessionId := "s1"
  principalContext :=
    { principalId := "user"
      gatewaySessionId := some "s1"
      targetSystemId := "target"
      sourceScopes := none
      deploymentScopeCeiling := {"read"}
      effectiveScopes := {"read"}
      tenantContext := none
      authStateHandle := "handle" }
  sourceExpiresAt := some (some 9)
  sourceRefreshAt := some (some 5)

private def durableLogin : AuthenticationResult where
  token := some "source-token"
  tokenType := some "Bearer"
  principalId := some "user"
  sourceScopes := none
  tenantContext := none
  expiresAt := some 9
  refreshAt := some 5
  paired := rfl

private def durableStep (store : SessionStore) (input : VaultOperation × Reading) :
    SessionAnswer × SessionStore :=
  memoryStep durableSettings keyedHost.toSessionHost store input

private def markedRun : List (VaultOperation × Reading) :=
  [(.create durableRequest (some "AAAAAAAAAAAAAAAAAAAAAAAAAAAAAAAAAAAAAAAAAAA")
      (some durableLogin), .reads 1),
    (.markReauthRequired "s1", .reads 2), (.restart, .reads 3), (.resolveSessionId "s1", .reads 4)]

private theorem markedRun_meets :
    Machine.Along durableStep (StepMeets durableSettings keyedHost.toSessionHost) {} markedRun := by
  refine ⟨⟨⟨durableLogin, rfl, by decide⟩, ?_⟩, ?_, ?_, trivial, trivial⟩
  · intro now boundaries _ _
    exact ⟨fun record hrecord => absurd hrecord List.not_mem_nil, fun _ _ _ _ => rfl⟩
  · intro now digest record hreading _ hfound
    obtain rfl := Reading.reads.inj hreading
    have hall : ((Machine.after durableStep {} (markedRun.take 1)).byDigest.all fun entry =>
        entry.2.status ≠ .reauthRequired && !entry.2.sourceReached 2 && 2 < entry.2.expiry) =
          true := by
      decide +kernel
    have hentry := List.all_eq_true.mp hall _ (Table.mem_of_get? hfound)
    simp only [Bool.and_eq_true, decide_eq_true_eq, Bool.not_eq_true'] at hentry
    exact .inr ⟨hentry.1.1, hentry.1.2, hentry.2⟩
  · refine ⟨3, rfl, fun record hrecord => ?_⟩
    have hall : ((Machine.after durableStep {} (markedRun.take 2)).byDigest.all fun entry =>
        3 < entry.2.expiry) = true := by
      decide +kernel
    obtain ⟨entry, hentry, rfl⟩ := List.mem_map.mp hrecord
    exact of_decide_eq_true (List.all_eq_true.mp hall entry hentry)

theorem vault_refines_memory_marked :
    (Machine.after (vaultStep durableSettings keyedHost) {} markedRun).rows.length = 1 ∧
    Machine.trace (vaultStep durableSettings keyedHost) {} markedRun =
      (Machine.trace durableStep {} markedRun).map (fun entry => (entry.1, .answered entry.2)) :=
  ⟨by decide +kernel, (vault_refines_memory durableSettings keyedHost Function.injective_id
    Function.injective_id markedRun markedRun_meets).1⟩

private def markedTwice : List (VaultOperation × Reading) :=
  markedRun.take 2 ++ [(.markReauthRequired "s1", .reads 3)]

/-- The store in memory marks a marked session again; the vault has to resolve it first. -/
theorem marked_twice_differs :
    (Machine.trace (vaultStep durableSettings keyedHost) {} markedTwice).map Prod.snd ≠
      (Machine.trace durableStep {} markedTwice).map (fun entry => .answered entry.2) := by
  decide +kernel

end Example

end CapabilityCompiler.Gateway
