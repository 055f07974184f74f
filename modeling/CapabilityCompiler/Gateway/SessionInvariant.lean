import CapabilityCompiler.Gateway.Sessions

/-! The indexes of the session store are inverse to each other in every reachable state. -/
namespace CapabilityCompiler.Gateway
open Foundation

/-- The two maps are inverse to each other over the same records. -/
structure Indexed (store : SessionStore) : Prop where
  unique : store.byDigest.Unique
  keyed : ∀ digest record, store.byDigest.get? digest = some record → record.tokenDigest = digest
  inverse : ∀ digest sessionId, (∃ record, store.byDigest.get? digest = some record ∧
    record.sessionId = sessionId) ↔ store.digestBySessionId.get? sessionId = some digest

namespace Indexed
variable {store : SessionStore}

theorem empty : Indexed {} where
  unique := List.nodup_nil
  keyed := by simp
  inverse := by simp

/-- The records of the store are found under their own digests. -/
theorem get?_of_mem (h : Indexed store) {record : GatewaySessionRecord}
    (hmem : record ∈ store.byDigest.map Prod.snd) :
    store.byDigest.get? record.tokenDigest = some record := by
  obtain ⟨⟨digest, record⟩, hentry, rfl⟩ := List.mem_map.mp hmem
  have hfound := Table.get?_of_mem h.unique hentry
  rw [h.keyed digest record hfound]
  exact hfound

theorem mem_of_get? {digest : String} {record : GatewaySessionRecord}
    (h : store.byDigest.get? digest = some record) : record ∈ store.byDigest.map Prod.snd :=
  List.mem_map.mpr ⟨(digest, record), Table.mem_of_get? h, rfl⟩

theorem session_of_get? (h : Indexed store) {digest : String} {record : GatewaySessionRecord}
    (hfound : store.byDigest.get? digest = some record) :
    store.digestBySessionId.get? record.sessionId = some digest :=
  (h.inverse digest record.sessionId).mp ⟨record, hfound, rfl⟩

/-- No two records share their session. -/
theorem eq_of_sessionId (h : Indexed store) {d d' : String} {r r' : GatewaySessionRecord}
    (hr : store.byDigest.get? d = some r) (hr' : store.byDigest.get? d' = some r')
    (hsame : r.sessionId = r'.sessionId) : d = d' ∧ r = r' := by
  have hd := h.session_of_get? hr
  have hd' := h.session_of_get? hr'
  rw [hsame, hd', Option.some.injEq] at hd
  subst hd
  exact ⟨rfl, Option.some.inj (hr.symm.trans hr')⟩

/-- A change of the records that keeps their names keeps the indexes. -/
theorem mapValues (h : Indexed store) {f : GatewaySessionRecord → GatewaySessionRecord}
    (htoken : ∀ r, (f r).tokenDigest = r.tokenDigest) (hsession : ∀ r, (f r).sessionId = r.sessionId) :
    Indexed { store with byDigest := store.byDigest.mapValues f } where
  unique := h.unique.mapValues f
  keyed := by
    intro digest record hfound
    rw [Table.get?_mapValues] at hfound
    obtain ⟨r, hr, rfl⟩ := Option.map_eq_some_iff.mp hfound
    rw [htoken]
    exact h.keyed digest r hr
  inverse := by
    intro digest sessionId
    rw [← h.inverse digest sessionId]
    simp only [Table.get?_mapValues]
    constructor
    · rintro ⟨record, hfound, rfl⟩
      obtain ⟨r, hr, rfl⟩ := Option.map_eq_some_iff.mp hfound
      exact ⟨r, hr, (hsession r).symm⟩
    · rintro ⟨r, hr, rfl⟩
      exact ⟨f r, by rw [hr, Option.map_some], hsession r⟩

/-- A record may be replaced by one of the same names. -/
theorem put (h : Indexed store) {digest : String} {record other : GatewaySessionRecord}
    (hfound : store.byDigest.get? digest = some record)
    (htoken : other.tokenDigest = record.tokenDigest) (hsession : other.sessionId = record.sessionId) :
    Indexed { store with byDigest := store.byDigest.put digest other } where
  unique := h.unique.put digest other
  keyed := by
    intro d r hr
    rw [Table.get?_put] at hr
    split at hr
    · rename_i hd
      rw [← Option.some.inj hr, htoken, hd]
      exact h.keyed digest record hfound
    · exact h.keyed d r hr
  inverse := by
    intro d s
    rw [← h.inverse d s]
    simp only [Table.get?_put]
    by_cases hd : d = digest
    · subst hd
      simp only [if_true, Option.some.injEq, exists_eq_left', hfound, hsession]
    · simp only [hd, if_false]

end Indexed

/-! Removing and inserting. -/

namespace SessionStore
variable (store : SessionStore)

theorem removeAll_byDigest (records : List GatewaySessionRecord) :
    (store.removeAll records).byDigest =
      store.byDigest.filter fun entry => decide (entry.1 ∉ records.map (·.tokenDigest)) := by
  induction records generalizing store with
  | nil => simp [removeAll]
  | cons record rest ih =>
    have hrest := ih (store.remove record)
    simp only [removeAll, List.foldl_cons] at hrest ⊢
    rw [hrest]
    exact Table.filter_erase record.tokenDigest _ store.byDigest

theorem removeAll_digestBySessionId (records : List GatewaySessionRecord) :
    (store.removeAll records).digestBySessionId =
      store.digestBySessionId.filter fun entry => decide (entry.1 ∉ records.map (·.sessionId)) := by
  induction records generalizing store with
  | nil => simp [removeAll]
  | cons record rest ih =>
    have hrest := ih (store.remove record)
    simp only [removeAll, List.foldl_cons] at hrest ⊢
    rw [hrest]
    exact Table.filter_erase record.sessionId _ store.digestBySessionId

theorem removeAll_closed (records : List GatewaySessionRecord) :
    (store.removeAll records).closed = store.closed := by
  induction records generalizing store with
  | nil => rfl
  | cons record rest ih => exact ih _

theorem get?_removeAll (records : List GatewaySessionRecord) (digest : String) :
    (store.removeAll records).byDigest.get? digest =
      if digest ∈ records.map (·.tokenDigest) then none else store.byDigest.get? digest := by
  rw [removeAll_byDigest, Table.get?_filter (fun d => decide (d ∉ records.map (·.tokenDigest)))]
  simp only [decide_eq_true_eq, ite_not]

theorem session_removeAll (records : List GatewaySessionRecord) (sessionId : String) :
    (store.removeAll records).digestBySessionId.get? sessionId =
      if sessionId ∈ records.map (·.sessionId) then none
      else store.digestBySessionId.get? sessionId := by
  rw [removeAll_digestBySessionId,
    Table.get?_filter (fun s => decide (s ∉ records.map (·.sessionId)))]
  simp only [decide_eq_true_eq, ite_not]

end SessionStore

namespace Indexed
variable {store : SessionStore}

/-- The digest of a stored record is among those of removed records as its session is. -/
theorem removed_iff (h : Indexed store) {records : List GatewaySessionRecord}
    (hstored : ∀ r ∈ records, store.byDigest.get? r.tokenDigest = some r) {digest : String}
    {record : GatewaySessionRecord} (hfound : store.byDigest.get? digest = some record) :
    digest ∈ records.map (·.tokenDigest) ↔ record.sessionId ∈ records.map (·.sessionId) := by
  constructor
  · intro hmem
    obtain ⟨r, hr, rfl⟩ := List.mem_map.mp hmem
    obtain rfl := Option.some.inj ((hstored r hr).symm.trans hfound)
    exact List.mem_map_of_mem hr
  · intro hmem
    obtain ⟨r, hr, hsession⟩ := List.mem_map.mp hmem
    obtain ⟨rfl, rfl⟩ := h.eq_of_sessionId (hstored r hr) hfound hsession
    exact List.mem_map_of_mem hr

theorem removeAll (h : Indexed store) {records : List GatewaySessionRecord}
    (hstored : ∀ r ∈ records, store.byDigest.get? r.tokenDigest = some r) :
    Indexed (store.removeAll records) where
  unique := by
    rw [SessionStore.removeAll_byDigest]
    exact h.unique.filter _
  keyed := by
    intro digest record hfound
    rw [SessionStore.get?_removeAll] at hfound
    split at hfound
    · exact absurd hfound (by simp)
    · exact h.keyed digest record hfound
  inverse := by
    intro digest sessionId
    rw [SessionStore.session_removeAll, SessionStore.get?_removeAll]
    constructor
    · rintro ⟨record, hfound, rfl⟩
      split at hfound
      · exact absurd hfound (by simp)
      · rename_i hkept
        rw [h.removed_iff hstored hfound] at hkept
        rw [if_neg hkept]
        exact h.session_of_get? hfound
    · intro hsession
      split at hsession
      · exact absurd hsession (by simp)
      · rename_i hkept
        obtain ⟨record, hfound, rfl⟩ := (h.inverse digest sessionId).mpr hsession
        rw [← h.removed_iff hstored hfound] at hkept
        exact ⟨record, by rw [if_neg hkept, hfound], rfl⟩

theorem insert (h : Indexed store) {record : GatewaySessionRecord}
    (hdigest : store.byDigest.get? record.tokenDigest = none)
    (hsession : store.digestBySessionId.get? record.sessionId = none) :
    Indexed (store.insert record) where
  unique := h.unique.put record.tokenDigest record
  keyed := by
    intro digest r hr
    simp only [SessionStore.insert, SessionStore.put, Table.get?_put] at hr
    split at hr
    · rename_i heq
      rw [← Option.some.inj hr, heq]
    · exact h.keyed digest r hr
  inverse := by
    intro digest sessionId
    simp only [SessionStore.insert, SessionStore.put, Table.get?_put]
    by_cases hd : digest = record.tokenDigest
    · subst hd
      by_cases hs : sessionId = record.sessionId
      · simp [hs]
      · have hnone : store.digestBySessionId.get? sessionId ≠ some record.tokenDigest := by
          intro hfound
          obtain ⟨r, hr, -⟩ := (h.inverse _ _).mpr hfound
          rw [hdigest] at hr
          exact absurd hr (by simp)
        simp [hs, Ne.symm hs, hnone]
    · by_cases hs : sessionId = record.sessionId
      · subst hs
        have hnone : ¬ ∃ r, store.byDigest.get? digest = some r ∧ r.sessionId = record.sessionId := by
          rw [h.inverse, hsession]
          simp
        simp only [hd, if_false, if_true, Option.some.injEq, hnone, Ne.symm hd]
      · simp only [hd, if_false, hs]
        exact h.inverse digest sessionId

end Indexed

/-! What a creation does. -/

theorem reads_of_freshNow {reading : Reading} {now : ℚ} (h : freshNow reading = .ok now) :
    reading = .reads now := by
  cases reading with
  | reads t => rw [Except.ok.inj h]
  | failed | invalid => exact absurd h (by simp [freshNow])

section Creating
variable {settings : StoreSettings} {host : SessionHost} {store : SessionStore}
  {reading : Reading} {request : SessionRequest} {generated : Option String}

/-- The creation has room, its session is free once the expired ones are removed, its token is new,
and its record is valid. -/
structure Publishes (settings : StoreSettings) (host : SessionHost) (store : SessionStore) (now : ℚ)
    (boundaries : Option ℚ × Option ℚ) (request : SessionRequest) (token : String)
    (record : GatewaySessionRecord) : Prop where
  room : (store.looked now).byDigest.length - (store.expiredRecords now).length <
    settings.maxSessions
  free : ∀ digest, (store.looked now).digestBySessionId.get? request.sessionId = some digest →
    digest ∈ (store.expiredRecords now).map (·.tokenDigest)
  shaped : isToken token = true
  new : (store.looked now).byDigest.get? (host.tokenDigest token) = none
  built : GatewaySessionRecord.build? request.sessionId (host.tokenDigest token)
    request.principalContext now
    ((boundaries.1.toList ++ boundaries.2.toList).foldl min (host.later now settings.ttlSeconds))
    (some (host.later now settings.ttlSeconds)) boundaries.1 boundaries.2 .active = some record

/-- A creation fails before or after it looked through the records, or it publishes a record. -/
theorem create_cases (settings : StoreSettings) (host : SessionHost) (store : SessionStore)
    (reading : Reading) (request : SessionRequest) (generated : Option String) :
    (∃ failure, create settings host store reading request generated = (.failed failure, store)) ∨
      ∃ now boundaries, reading = .reads now ∧ store.closed = false ∧
        sourceBoundaries now request = .ok boundaries ∧
        ((∃ failure, create settings host store reading request generated =
            (.failed failure, store.looked now)) ∨
          ∃ token record, generated = some token ∧
            Publishes settings host store now boundaries request token record ∧
            create settings host store reading request generated =
              (.created token record (store.expiredRecords now),
                ((store.looked now).removeAll (store.expiredRecords now)).insert record)) := by
  unfold create
  split
  · exact .inl ⟨_, rfl⟩
  · rename_i hopen
    split
    · exact .inl ⟨_, rfl⟩
    · rename_i now hnow
      split
      · exact .inl ⟨_, rfl⟩
      · rename_i boundaries hboundaries
        refine .inr ⟨now, boundaries, reads_of_freshNow hnow, by simpa using hopen, hboundaries, ?_⟩
        simp only
        split
        · exact .inl ⟨_, rfl⟩
        · rename_i hroom
          split
          · exact .inl ⟨_, rfl⟩
          · rename_i hfree
            unfold publish
            split
            · exact .inl ⟨_, rfl⟩
            · rename_i token
              split
              · exact .inl ⟨_, rfl⟩
              · rename_i htoken
                simp only
                split
                · exact .inl ⟨_, rfl⟩
                · rename_i hnew
                  split
                  · exact .inl ⟨_, rfl⟩
                  · rename_i record hbuilt
                    refine .inr ⟨token, record, rfl, ⟨by omega, ?_, by simpa using htoken,
                      by simpa using hnew, hbuilt⟩, rfl⟩
                    intro digest hdigest
                    rw [hdigest, Option.any_some] at hfree
                    simpa using hfree

end Creating

/-! What an operation can do to the records. -/

abbrev SessionEntry := (SessionOperation × Reading) × SessionAnswer

/-- The operation starts a session of this record. -/
def Inserts (entry : SessionEntry) (record : GatewaySessionRecord) : Prop :=
  (∃ token removed, entry.2 = .created token record removed) ∨
    entry.1.1 = .restore record ∧ entry.2 = .restored

/-- The records are as they were, looked through, or one of them is marked. -/
inductive Touched (store : SessionStore) : SessionStore → Prop
  | same : Touched store store
  | looked (now : ℚ) : Touched store (store.looked now)
  | marked (digest : String) (record : GatewaySessionRecord)
      (h : store.byDigest.get? digest = some record) :
      Touched store { store with byDigest := store.byDigest.put digest record.marked }

/-- Both stores have the same maps. -/
def SameMaps (store other : SessionStore) : Prop :=
  store.byDigest = other.byDigest ∧ store.digestBySessionId = other.digestBySessionId

/-- The records that an answer says are removed. -/
def removedBy : SessionAnswer → List GatewaySessionRecord
  | .created _ _ removed => removed
  | .revoked (some record) => [record]
  | .removed records => records
  | _ => []

/-- The records are touched, then those of the answer are removed, and then at most one is
inserted. -/
def Moves (store : SessionStore) (entry : SessionEntry) (next : SessionStore) : Prop :=
  ∃ base, Touched store base ∧
    (∀ r ∈ removedBy entry.2, base.byDigest.get? r.tokenDigest = some r) ∧
      (SameMaps next (base.removeAll (removedBy entry.2)) ∨
        ∃ record, Inserts entry record ∧
          (base.removeAll (removedBy entry.2)).byDigest.get? record.tokenDigest = none ∧
          (base.removeAll (removedBy entry.2)).digestBySessionId.get? record.sessionId = none ∧
          next = (base.removeAll (removedBy entry.2)).insert record)

section Moves
variable {store : SessionStore} {entry : SessionEntry}

theorem moves_touched {base : SessionStore} (h : Touched store base)
    (hremoved : removedBy entry.2 = []) : Moves store entry base := by
  refine ⟨base, h, ?_, .inl ?_⟩
  · rw [hremoved]
    simp
  · rw [hremoved]
    exact ⟨rfl, rfl⟩

theorem moves_same (hremoved : removedBy entry.2 = []) : Moves store entry store :=
  moves_touched .same hremoved

theorem moves_removed {record : GatewaySessionRecord}
    (h : store.byDigest.get? record.tokenDigest = some record)
    (hremoved : removedBy entry.2 = [record]) : Moves store entry (store.remove record) := by
  refine ⟨store, .same, ?_, .inl ?_⟩
  · rw [hremoved]
    simpa using h
  · rw [hremoved]
    exact ⟨rfl, rfl⟩

theorem isExpired_afterLook (now : ℚ) (record : GatewaySessionRecord) :
    SessionStore.isExpired now (SessionStore.afterLook now record) =
      SessionStore.isExpired now record := by
  unfold SessionStore.afterLook
  split
  · rfl
  · rename_i hlate
    split
    · rename_i hreached
      simp [SessionStore.isExpired, hlate, hreached]
    · rfl

theorem afterLook_of_isExpired {now : ℚ} {record : GatewaySessionRecord}
    (h : SessionStore.isExpired now record = true) :
    SessionStore.afterLook now record = record := by
  unfold SessionStore.isExpired at h
  unfold SessionStore.afterLook
  split
  · rfl
  · rename_i hlate
    rw [if_neg hlate] at h
    split at h
    · exact absurd h (by simp)
    · rename_i hkept
      have hreached : ¬ record.sourceReached now = true := by
        intro hreached
        exact hkept (by simp [hreached])
      rw [if_neg hreached]

theorem isExpired_of_mem {now : ℚ} {record : GatewaySessionRecord}
    (h : record ∈ store.expiredRecords now) :
    record ∈ store.byDigest.map Prod.snd ∧ SessionStore.isExpired now record = true :=
  List.mem_filter.mp h

theorem expired_stored (h : Indexed store) (now : ℚ) :
    ∀ r ∈ store.expiredRecords now, (store.looked now).byDigest.get? r.tokenDigest = some r := by
  intro r hr
  obtain ⟨hmem, hexpired⟩ := isExpired_of_mem hr
  rw [SessionStore.looked, Table.get?_mapValues, h.get?_of_mem hmem, Option.map_some,
    afterLook_of_isExpired hexpired]

theorem afterLook_names (now : ℚ) (r : GatewaySessionRecord) :
    (SessionStore.afterLook now r).tokenDigest = r.tokenDigest ∧
      (SessionStore.afterLook now r).sessionId = r.sessionId := by
  unfold SessionStore.afterLook
  split
  · exact ⟨rfl, rfl⟩
  · split <;> exact ⟨rfl, rfl⟩

theorem afterLook_eq (now : ℚ) (r : GatewaySessionRecord) :
    SessionStore.afterLook now r = r ∨ SessionStore.afterLook now r = r.marked := by
  unfold SessionStore.afterLook
  split
  · exact .inl rfl
  · split
    · exact .inr rfl
    · exact .inl rfl

theorem Touched.indexed {base : SessionStore} (ht : Touched store base) (h : Indexed store) :
    Indexed base := by
  cases ht with
  | same => exact h
  | looked now =>
    exact h.mapValues (fun r => (afterLook_names now r).1) fun r => (afterLook_names now r).2
  | marked digest record hfound => exact h.put hfound rfl rfl

/-- A touched record is a record or a marked one. -/
theorem Touched.origin {base : SessionStore} (ht : Touched store base) {digest : String}
    {record : GatewaySessionRecord} (hfound : base.byDigest.get? digest = some record) :
    ∃ r, store.byDigest.get? digest = some r ∧ (record = r ∨ record = r.marked) := by
  cases ht with
  | same => exact ⟨record, hfound, .inl rfl⟩
  | looked now =>
    rw [SessionStore.looked, Table.get?_mapValues] at hfound
    obtain ⟨r, hr, rfl⟩ := Option.map_eq_some_iff.mp hfound
    exact ⟨r, hr, afterLook_eq now r⟩
  | marked other r hr =>
    rw [Table.get?_put] at hfound
    split at hfound
    · rename_i heq
      exact ⟨r, heq ▸ hr, .inr (Option.some.inj hfound).symm⟩
    · exact ⟨record, hfound, .inl rfl⟩

theorem SameMaps.indexed {next other : SessionStore} (hsame : SameMaps next other)
    (h : Indexed other) : Indexed next where
  unique := by rw [hsame.1]; exact h.unique
  keyed := by rw [hsame.1]; exact h.keyed
  inverse := by rw [hsame.1, hsame.2]; exact h.inverse

theorem Moves.indexed {next : SessionStore} (hm : Moves store entry next) (h : Indexed store) :
    Indexed next := by
  obtain ⟨base, htouched, hstored, hsame | ⟨record, -, hdigest, hsession, rfl⟩⟩ := hm
  · exact hsame.indexed ((htouched.indexed h).removeAll hstored)
  · exact ((htouched.indexed h).removeAll hstored).insert hdigest hsession

/-- A record of the next state was inserted, or it is a record or a marked record of this one. -/
theorem Moves.origin {next : SessionStore} (hm : Moves store entry next) {digest : String}
    {record : GatewaySessionRecord} (hfound : next.byDigest.get? digest = some record) :
    Inserts entry record ∨
      ∃ r, store.byDigest.get? digest = some r ∧ (record = r ∨ record = r.marked) := by
  obtain ⟨base, htouched, -, hnext⟩ := hm
  have hkept : (base.removeAll (removedBy entry.2)).byDigest.get? digest = some record →
      ∃ r, store.byDigest.get? digest = some r ∧ (record = r ∨ record = r.marked) := by
    intro hbase
    rw [SessionStore.get?_removeAll] at hbase
    split at hbase
    · exact absurd hbase (by simp)
    · exact htouched.origin hbase
  rcases hnext with hsame | ⟨inserted, hinserts, -, -, rfl⟩
  · rw [hsame.1] at hfound
    exact .inr (hkept hfound)
  · simp only [SessionStore.insert, SessionStore.put, Table.get?_put] at hfound
    split at hfound
    · rw [← Option.some.inj hfound]
      exact .inl hinserts
    · exact .inr (hkept hfound)

end Moves

/-! The operations. -/

section Operations
variable {settings : StoreSettings} {host : SessionHost} {store : SessionStore}
  {input : SessionOperation × Reading} {reading : Reading}

theorem moves_resolveDigest (digest : String) (now : ℚ) :
    Moves store (input, (resolveDigest store digest now).1)
      (resolveDigest store digest now).2 := by
  unfold resolveDigest
  split
  · exact moves_same rfl
  · rename_i record hfound
    split
    · exact moves_same rfl
    · split
      · exact moves_same rfl
      · split
        · exact moves_touched (.marked digest record hfound) rfl
        · split <;> exact moves_same rfl

theorem moves_collectExpired (h : Indexed store) (now : ℚ) :
    Moves store (input, (collectExpired store now).1) (collectExpired store now).2 :=
  ⟨store.looked now, .looked now, expired_stored h now, .inl ⟨rfl, rfl⟩⟩

theorem moves_create (h : Indexed store) (request : SessionRequest) (generated : Option String) :
    Moves store ((.create request generated, reading),
        (create settings host store reading request generated).1)
      (create settings host store reading request generated).2 := by
  rcases create_cases settings host store reading request generated with ⟨failure, heq⟩ |
    ⟨now, boundaries, -, -, -, ⟨failure, heq⟩ | ⟨token, record, -, hpublishes, heq⟩⟩
  · rw [heq]
    exact moves_same rfl
  · rw [heq]
    exact moves_touched (.looked now) rfl
  · rw [heq]
    obtain ⟨hsessionId, htokenDigest, -⟩ := GatewaySessionRecord.of_build? hpublishes.built
    refine ⟨store.looked now, .looked now, expired_stored h now,
      .inr ⟨record, .inl ⟨token, _, rfl⟩, ?_, ?_, rfl⟩⟩
    · rw [SessionStore.get?_removeAll, htokenDigest, hpublishes.new, ite_self]
    · rw [SessionStore.session_removeAll, hsessionId]
      split
      · rfl
      · rename_i hkept
        -- A session of the same name would be an expired one.
        cases hfound : (store.looked now).digestBySessionId.get? request.sessionId with
        | none => rfl
        | some digest =>
          have hexpired := hpublishes.free digest hfound
          have hindexed : Indexed (store.looked now) := (Touched.looked now).indexed h
          obtain ⟨r, hr, hsession⟩ := (hindexed.inverse _ _).mpr hfound
          rw [hindexed.removed_iff (expired_stored h now) hr, hsession] at hexpired
          exact absurd hexpired hkept

theorem moves_restore (record : GatewaySessionRecord) :
    Moves store ((.restore record, reading), (restore store record).1) (restore store record).2 := by
  unfold restore
  split
  · exact moves_same rfl
  · rename_i hfree
    simp only [Bool.or_eq_true, not_or, Option.isSome_iff_ne_none, ne_eq, not_not] at hfree
    exact ⟨store, .same, by simp [removedBy],
      .inr ⟨record, .inr ⟨rfl, rfl⟩, hfree.1.2, hfree.2, rfl⟩⟩

theorem moves_revoke (h : Indexed store) (sessionId : String) :
    Moves store (input, (revoke store sessionId).1) (revoke store sessionId).2 := by
  unfold revoke
  split
  · exact moves_same rfl
  · split
    · exact moves_same rfl
    · rename_i digest _ record hfound
      exact moves_removed (h.get?_of_mem (Indexed.mem_of_get? hfound)) rfl

theorem moves_revokeSession (h : Indexed store) (sessionId : String) :
    Moves store (input, (revokeSession store sessionId).1) (revokeSession store sessionId).2 := by
  unfold revokeSession
  split
  · exact moves_same rfl
  · rename_i digest hsession
    obtain ⟨record, hfound, rfl⟩ := (h.inverse _ _).mpr hsession
    have hremoved : Moves store (input, .revoked (some record)) (store.remove record) :=
      moves_removed (h.get?_of_mem (Indexed.mem_of_get? hfound)) rfl
    unfold SessionStore.remove at hremoved
    rw [h.keyed digest record hfound] at hremoved
    rwa [hfound]

theorem moves_revokeToken (h : Indexed store) (token : String) :
    Moves store (input, (revokeToken host store token).1) (revokeToken host store token).2 := by
  unfold revokeToken
  split
  · exact moves_same rfl
  · split
    · exact moves_same rfl
    · rename_i record hfound
      have hremoved : Moves store (input, .revoked (some record)) (store.remove record) :=
        moves_removed (h.get?_of_mem (Indexed.mem_of_get? hfound)) rfl
      unfold SessionStore.remove at hremoved
      rwa [h.keyed _ record hfound] at hremoved

theorem moves_markReauthRequired (sessionId : String) :
    Moves store (input, (markReauthRequired store reading sessionId).1)
      (markReauthRequired store reading sessionId).2 := by
  unfold markReauthRequired
  split
  · exact moves_same rfl
  · split
    · exact moves_same rfl
    · split
      · exact moves_same rfl
      · split
        · exact moves_same rfl
        · rename_i record hfound
          split
          · exact moves_same rfl
          · exact moves_touched (.marked _ record hfound) rfl

theorem moves_close (h : Indexed store) :
    Moves store (input, (close store).1) (close store).2 := by
  unfold close
  split
  · exact moves_same rfl
  · refine ⟨store, .same, fun r hr => h.get?_of_mem hr, .inl ?_⟩
    constructor
    · simp only [SessionStore.removeAll_byDigest, removedBy]
    · simp only [SessionStore.removeAll_digestBySessionId, removedBy]

/-- Every operation touches the records, removes some and inserts at most one. -/
theorem step_moves (settings : StoreSettings) (host : SessionHost) (h : Indexed store)
    (input : SessionOperation × Reading) :
    Moves store (input, (sessionStep settings host store input).1)
      (sessionStep settings host store input).2 := by
  obtain ⟨operation, reading⟩ := input
  cases operation with
  | create request generated => exact moves_create h request generated
  | restore record => exact moves_restore record
  | resolveToken token =>
    simp only [sessionStep, resolveToken]
    split
    · exact moves_same rfl
    · split
      · exact moves_same rfl
      · split
        · exact moves_same rfl
        · exact moves_resolveDigest _ _
  | resolveSessionId sessionId =>
    simp only [sessionStep, resolveSessionId]
    split
    · exact moves_same rfl
    · split
      · exact moves_same rfl
      · split
        · exact moves_same rfl
        · exact moves_resolveDigest _ _
  | revoke sessionId => exact moves_revoke h sessionId
  | revokeSession sessionId => exact moves_revokeSession h sessionId
  | revokeToken token => exact moves_revokeToken h token
  | markReauthRequired sessionId => exact moves_markReauthRequired sessionId
  | purgeExpired =>
    simp only [sessionStep, purgeExpired]
    split
    · exact moves_same rfl
    · split
      · exact moves_same rfl
      · exact moves_collectExpired h _
  | popExpiredRecords =>
    simp only [sessionStep, popExpiredRecords]
    split
    · exact moves_same rfl
    · split
      · exact moves_same rfl
      · exact moves_collectExpired h _
  | close => exact moves_close h

end Operations

/-- The two maps are inverse to each other in every reachable state. -/
theorem indexed_after (settings : StoreSettings) (host : SessionHost)
    (inputs : List (SessionOperation × Reading)) :
    Indexed (Machine.after (sessionStep settings host) {} inputs) :=
  Machine.invariant (P := Indexed)
    (fun _ input h => (step_moves settings host h input).indexed h) Indexed.empty inputs

end CapabilityCompiler.Gateway
