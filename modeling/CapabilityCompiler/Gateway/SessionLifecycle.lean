import CapabilityCompiler.Gateway.SessionInvariant

/-! Sessions that have ended are not resolved again. -/
namespace CapabilityCompiler.Gateway
open Foundation

/-! Resolving. -/

section Resolving
variable {settings : StoreSettings} {host : SessionHost} {store : SessionStore}
  {record : GatewaySessionRecord}

/-- A record can be resolved at this time. -/
structure Resolvable (now : ℚ) (record : GatewaySessionRecord) : Prop where
  authenticated : record.status ≠ .reauthRequired
  unreached : record.sourceReached now = false
  early : now < record.expiry

theorem resolved_of_resolveDigest {digest : String} {now : ℚ}
    (h : (resolveDigest store digest now).1 = .resolved record) :
    store.byDigest.get? digest = some record ∧ Resolvable now record := by
  unfold resolveDigest at h
  split at h
  · exact absurd h (by simp)
  · rename_i found hfound
    split at h
    · exact absurd h (by simp)
    · split at h
      · exact absurd h (by simp)
      · rename_i hstatus
        split at h
        · exact absurd h (by simp)
        · rename_i hsource
          split at h
          · exact absurd h (by simp)
          · rename_i hearly
            obtain rfl : found = record := by simpa using h
            exact ⟨hfound, hstatus, by simpa using hsource, lt_of_not_ge hearly⟩

theorem invalid_of_freshNow {reading : Reading} {failure : SessionFailure}
    (h : freshNow reading = .error failure) : failure.kind = .invalid := by
  cases reading with
  | reads t => exact absurd h (by simp [freshNow])
  | failed | invalid => rw [← Except.error.inj h]; rfl

/-- What is resolved is stored and can be resolved at the time the clock gives. -/
theorem resolved_of_step {input : SessionOperation × Reading}
    (h : (sessionStep settings host store input).1 = .resolved record) :
    ∃ now digest, input.2 = .reads now ∧ store.byDigest.get? digest = some record ∧
      Resolvable now record := by
  obtain ⟨operation, reading⟩ := input
  cases operation with
  | resolveToken token =>
    simp only [sessionStep, resolveToken] at h
    split at h
    · exact absurd h (by simp)
    · split at h
      · exact absurd h (by simp)
      · split at h
        · exact absurd h (by simp)
        · rename_i now hnow
          exact ⟨now, _, reads_of_freshNow hnow, resolved_of_resolveDigest h⟩
  | resolveSessionId sessionId =>
    simp only [sessionStep, resolveSessionId] at h
    split at h
    · exact absurd h (by simp)
    · split at h
      · exact absurd h (by simp)
      · split at h
        · exact absurd h (by simp)
        · rename_i digest _ _ now hnow
          exact ⟨now, _, reads_of_freshNow hnow, resolved_of_resolveDigest h⟩
  | create request generated =>
    simp only [sessionStep, create, publish] at h
    repeat' split at h
    all_goals exact absurd h (by simp)
  | restore restored =>
    simp only [sessionStep, restore] at h
    split at h <;> exact absurd h (by simp)
  | revoke sessionId =>
    simp only [sessionStep, revoke] at h
    repeat' split at h
    all_goals exact absurd h (by simp)
  | revokeSession sessionId =>
    simp only [sessionStep, revokeSession] at h
    split at h <;> exact absurd h (by simp)
  | revokeToken token =>
    simp only [sessionStep, revokeToken] at h
    repeat' split at h
    all_goals exact absurd h (by simp)
  | markReauthRequired sessionId =>
    simp only [sessionStep, markReauthRequired] at h
    repeat' split at h
    all_goals exact absurd h (by simp)
  | purgeExpired =>
    simp only [sessionStep, purgeExpired, collectExpired] at h
    repeat' split at h
    all_goals exact absurd h (by simp)
  | popExpiredRecords =>
    simp only [sessionStep, popExpiredRecords, collectExpired] at h
    repeat' split at h
    all_goals exact absurd h (by simp)
  | close =>
    simp only [sessionStep, close] at h
    split at h <;> exact absurd h (by simp)

/-- A mark is refused, or it finds its record, which is past its expiry or marked. -/
theorem markReauthRequired_cases (store : SessionStore) (reading : Reading) (sessionId : String) :
    (∃ failure, failure.kind = .invalid ∧
        markReauthRequired store reading sessionId = (.failed failure, store)) ∨
      ∃ now digest found, reading = .reads now ∧ store.closed = false ∧
        store.digestBySessionId.get? sessionId = some digest ∧
        store.byDigest.get? digest = some found ∧
        (found.expiry < now ∧ markReauthRequired store reading sessionId =
            (.failed ⟨.expired, "session_expired"⟩, store) ∨
          ¬ found.expiry < now ∧ markReauthRequired store reading sessionId =
            (.marked found.marked,
              { store with byDigest := store.byDigest.put digest found.marked })) := by
  unfold markReauthRequired
  split
  · exact .inl ⟨_, rfl, rfl⟩
  · rename_i hopen
    split
    · exact .inl ⟨_, rfl, rfl⟩
    · rename_i digest hsession
      split
      · rename_i failure hfresh
        exact .inl ⟨failure, invalid_of_freshNow hfresh, rfl⟩
      · rename_i now hfresh
        split
        · exact .inl ⟨_, rfl, rfl⟩
        · rename_i found hfound
          refine .inr ⟨now, digest, found, reads_of_freshNow hfresh, by simpa using hopen, hsession,
            hfound, ?_⟩
          split
          · rename_i hlate
            exact .inl ⟨hlate, rfl⟩
          · rename_i hlate
            exact .inr ⟨hlate, rfl⟩

end Resolving

/-! Capacity. -/

section Capacity
variable {settings : StoreSettings} {host : SessionHost} {store : SessionStore} {reading : Reading}

/-- Of the records looked through exactly the expired ones are removed. -/
theorem length_removeAll_expired (h : Indexed store) (now : ℚ) :
    ((store.looked now).removeAll (store.expiredRecords now)).byDigest.length +
        (store.expiredRecords now).length = (store.looked now).byDigest.length := by
  have hindexed : Indexed (store.looked now) := (Touched.looked now).indexed h
  have hkept : ((store.looked now).removeAll (store.expiredRecords now)).byDigest =
      (store.looked now).byDigest.filter fun entry => !SessionStore.isExpired now entry.2 := by
    rw [SessionStore.removeAll_byDigest]
    refine List.filter_congr fun entry hentry => ?_
    obtain ⟨r, hr, hlooked⟩ : ∃ r, store.byDigest.get? entry.1 = some r ∧
        SessionStore.afterLook now r = entry.2 := by
      have hfound := Table.get?_of_mem hindexed.unique hentry
      rw [SessionStore.looked, Table.get?_mapValues] at hfound
      exact Option.map_eq_some_iff.mp hfound
    rw [← hlooked, isExpired_afterLook]
    have hdigest := h.keyed entry.1 r hr
    by_cases hexpired : SessionStore.isExpired now r = true
    · have hmem : r ∈ store.expiredRecords now :=
        List.mem_filter.mpr ⟨Indexed.mem_of_get? hr, hexpired⟩
      have hremoved : entry.1 ∈ (store.expiredRecords now).map (·.tokenDigest) := by
        rw [← hdigest]
        exact List.mem_map_of_mem hmem
      simp [hexpired, hremoved]
    · have hkeeps : entry.1 ∉ (store.expiredRecords now).map (·.tokenDigest) := by
        intro hremoved
        obtain ⟨other, hother, hsame⟩ := List.mem_map.mp hremoved
        obtain ⟨hmem, hother⟩ := isExpired_of_mem hother
        have hfound := h.get?_of_mem hmem
        rw [hsame, hr, Option.some.injEq] at hfound
        exact hexpired (hfound ▸ hother)
      simp [hexpired, hkeeps]
  have hexpired : (store.expiredRecords now).length =
      ((store.looked now).byDigest.filter fun entry => SessionStore.isExpired now entry.2).length := by
    simp only [SessionStore.expiredRecords, SessionStore.looked, Table.mapValues, List.filter_map,
      List.length_map]
    congr 1
    refine List.filter_congr fun entry _ => ?_
    simp only [Function.comp_apply, isExpired_afterLook]
  rw [hkept, hexpired, Nat.add_comm, ← List.countP_eq_length_filter, ← List.countP_eq_length_filter]
  rw [List.length_eq_countP_add_countP fun entry => SessionStore.isExpired now entry.2]
  congr 1
  exact List.countP_congr fun entry _ => by simp

theorem length_of_created (h : Indexed store) {request : SessionRequest}
    {generated : Option String} {token : String} {record : GatewaySessionRecord}
    {removed : List GatewaySessionRecord}
    (hcreated : (create settings host store reading request generated).1 =
      .created token record removed) :
    (create settings host store reading request generated).2.byDigest.length ≤
      settings.maxSessions ∧ record.status = .active := by
  rcases create_cases settings host store reading request generated with ⟨failure, heq⟩ |
    ⟨now, boundaries, -, -, -, ⟨failure, heq⟩ | ⟨token', published, -, hpublishes, heq⟩⟩
  · exact absurd (heq ▸ hcreated) (by simp)
  · exact absurd (heq ▸ hcreated) (by simp)
  · rw [heq] at hcreated ⊢
    obtain ⟨-, rfl, -⟩ : _ ∧ published = record ∧ _ := by simpa using hcreated
    obtain ⟨-, -, -, -, -, -, -, -, hstatus⟩ := GatewaySessionRecord.of_build? hpublishes.built
    refine ⟨?_, hstatus⟩
    have hroom := length_removeAll_expired h now
    have hput := Table.length_put_le published.tokenDigest published
      ((store.looked now).removeAll (store.expiredRecords now)).byDigest
    have hfits := hpublishes.room
    simp only [SessionStore.insert, SessionStore.put]
    omega

end Capacity

/-! Sessions that have ended. -/

/-- A session is known by the digest of its token and by its identifier. -/
inductive SessionName where
  | token (digest : String)
  | session (sessionId : String)

def SessionName.Names : SessionName → GatewaySessionRecord → Prop
  | .token digest, record => record.tokenDigest = digest
  | .session sessionId, record => record.sessionId = sessionId

/-- The operation ends the session of this name: it is revoked, removed or marked for
reauthentication, or it is refused as expired or as requiring reauthentication. -/
inductive Ends (host : SessionHost) : SessionEntry → SessionName → Prop
  | removed {input : SessionOperation × Reading} {answer : SessionAnswer}
      {record : GatewaySessionRecord} {name : SessionName} (hremoved : record ∈ removedBy answer)
      (hname : name.Names record) : Ends host (input, answer) name
  | marked {sessionId : String} {reading : Reading} {record : GatewaySessionRecord}
      {name : SessionName} (hname : name.Names record) :
      Ends host ((.markReauthRequired sessionId, reading), .marked record) name
  | refusedToken {token : String} {reading : Reading} {failure : SessionFailure}
      (hkind : failure.kind = .expired ∨ failure.kind = .reauth) :
      Ends host ((.resolveToken token, reading), .failed failure) (.token (host.tokenDigest token))
  | refusedSession {sessionId : String} {reading : Reading} {failure : SessionFailure}
      (hkind : failure.kind = .expired ∨ failure.kind = .reauth) :
      Ends host ((.resolveSessionId sessionId, reading), .failed failure) (.session sessionId)
  | refusedMark {sessionId : String} {reading : Reading} {failure : SessionFailure}
      (hkind : failure.kind = .expired) :
      Ends host ((.markReauthRequired sessionId, reading), .failed failure) (.session sessionId)

/-- No stored record of this name can be resolved at this time. -/
def Gone (now : ℚ) (name : SessionName) (store : SessionStore) : Prop :=
  ∀ digest record, store.byDigest.get? digest = some record → name.Names record →
    ¬ Resolvable now record

section Ended
variable {host : SessionHost} {store : SessionStore} {now : ℚ} {name : SessionName}
  {reading : Reading}

theorem not_resolvable_marked (record : GatewaySessionRecord) : ¬ Resolvable now record.marked :=
  fun h => h.authenticated rfl

theorem names_marked {record : GatewaySessionRecord} :
    name.Names record.marked ↔ name.Names record := by
  cases name <;> rfl

theorem Resolvable.earlier {earlier : ℚ} {record : GatewaySessionRecord}
    (h : Resolvable now record) (hle : earlier ≤ now) : Resolvable earlier record where
  authenticated := h.authenticated
  unreached := by
    have hnow := h.unreached
    simp only [GatewaySessionRecord.sourceReached, Bool.or_eq_false_iff, Option.any_eq_false,
      decide_eq_false_iff_not, not_le] at hnow ⊢
    exact ⟨fun t ht => lt_of_le_of_lt hle (hnow.1 t ht), fun t ht => lt_of_le_of_lt hle (hnow.2 t ht)⟩
  early := lt_of_le_of_lt hle h.early

theorem Gone.later {earlier : ℚ} (h : Gone earlier name store) (hle : earlier ≤ now) :
    Gone now name store :=
  fun digest record hfound hname hresolvable =>
    h digest record hfound hname (hresolvable.earlier hle)

/-- A name that is gone stays so until a session of this name is started. -/
theorem Gone.step {entry : SessionEntry} {next : SessionStore} (hm : Moves store entry next)
    (h : Gone now name store)
    (hfresh : ∀ record, Inserts entry record → ¬ name.Names record) : Gone now name next := by
  intro digest record hfound hname
  rcases hm.origin hfound with hinserts | ⟨r, hr, rfl | rfl⟩
  · exact absurd hname (hfresh record hinserts)
  · exact h digest record hr hname
  · exact not_resolvable_marked r

/-- A record with the name of a stored one is that record. -/
theorem eq_of_names (h : Indexed store) {d d' : String} {r r' : GatewaySessionRecord}
    (hr : store.byDigest.get? d = some r) (hr' : store.byDigest.get? d' = some r')
    (hname : name.Names r) (hname' : name.Names r') : r = r' := by
  cases name with
  | token digest =>
    have hd : d = d' := by
      rw [← h.keyed d r hr, ← h.keyed d' r' hr']
      exact Eq.trans hname (Eq.symm hname')
    subst hd
    exact Option.some.inj (hr.symm.trans hr')
  | session sessionId =>
    have hsame : r.sessionId = r'.sessionId := Eq.trans hname (Eq.symm hname')
    exact (h.eq_of_sessionId hr hr' hsame).2

/-- One record of the name that cannot be resolved is enough. -/
theorem gone_of_record (h : Indexed store) {digest : String} {record : GatewaySessionRecord}
    (hfound : store.byDigest.get? digest = some record) (hname : name.Names record)
    (hended : ¬ Resolvable now record) : Gone now name store := by
  intro d r hr hnamed
  rw [eq_of_names h hr hfound hnamed hname]
  exact hended

/-- Nothing is left of a name under which a record was removed, unless it is started again. -/
theorem gone_of_removed {entry : SessionEntry} {next : SessionStore} (h : Indexed store)
    (hm : Moves store entry next) {record : GatewaySessionRecord}
    (hremoved : record ∈ removedBy entry.2) (hname : name.Names record) :
    (∃ r, Inserts entry r ∧ name.Names r) ∨ Gone now name next := by
  obtain ⟨base, htouched, hstored, hnext⟩ := hm
  have hindexed := htouched.indexed h
  have hgone : ∀ d r, (base.removeAll (removedBy entry.2)).byDigest.get? d = some r →
      ¬ name.Names r := by
    intro d r hr hnamed
    rw [SessionStore.get?_removeAll] at hr
    split at hr
    · exact absurd hr (by simp)
    · rename_i hkept
      obtain rfl := eq_of_names hindexed (hstored record hremoved) hr hname hnamed
      have hdigest := hindexed.keyed d record hr
      exact hkept (hdigest ▸ List.mem_map_of_mem hremoved)
  rcases hnext with hsame | ⟨inserted, hinserts, -, -, rfl⟩
  · right
    intro d r hr hnamed
    rw [hsame.1] at hr
    exact absurd hnamed (hgone d r hr)
  · by_cases hnamed : name.Names inserted
    · exact .inl ⟨inserted, hinserts, hnamed⟩
    · right
      intro d r hr hnamedRecord
      simp only [SessionStore.insert, SessionStore.put, Table.get?_put] at hr
      split at hr
      · rw [← Option.some.inj hr] at hnamedRecord
        exact absurd hnamedRecord hnamed
      · exact absurd hnamedRecord (hgone d r hr)

/-- A refusal names the record that is refused. -/
theorem gone_of_resolveDigest (h : Indexed store) {digest : String} {failure : SessionFailure}
    (hfailed : (resolveDigest store digest now).1 = .failed failure)
    (hkind : failure.kind = .expired ∨ failure.kind = .reauth)
    (hname : ∀ record, store.byDigest.get? digest = some record → name.Names record) :
    Gone now name (resolveDigest store digest now).2 := by
  unfold resolveDigest at hfailed ⊢
  split at hfailed
  · rw [← SessionAnswer.failed.inj hfailed] at hkind
    exact absurd hkind (by simp [invalid])
  · rename_i record hfound
    have hnamed := hname record hfound
    split
    · rename_i hlate
      exact gone_of_record h hfound hnamed fun hresolvable => lt_asymm hlate hresolvable.early
    · split
      · rename_i hstatus
        exact gone_of_record h hfound hnamed fun hresolvable =>
          hresolvable.authenticated hstatus
      · split
        · exact gone_of_record ((Touched.marked digest record hfound).indexed h)
            (Table.get?_put_self digest record.marked store.byDigest) (names_marked.mpr hnamed)
            (not_resolvable_marked record)
        · split
          · rename_i hlate
            exact gone_of_record h hfound hnamed fun hresolvable =>
              absurd hresolvable.early (not_lt.mpr hlate)
          · rename_i hlate hstatus hsource hearly
            rw [if_neg hlate, if_neg hstatus, if_neg hsource, if_neg hearly] at hfailed
            exact absurd hfailed (by simp)

/-- What an operation ends is gone, unless it starts a session of the same name. -/
theorem gone_of_ends (settings : StoreSettings) (h : Indexed store)
    {input : SessionOperation × Reading}
    (hends : Ends host (input, (sessionStep settings host store input).1) name)
    (hclock : ∀ t, input.2 = .reads t → t ≤ now) :
    (∃ r, Inserts (input, (sessionStep settings host store input).1) r ∧ name.Names r) ∨
      Gone now name (sessionStep settings host store input).2 := by
  have hmoves := step_moves settings host h input
  generalize hstep : sessionStep settings host store input = outcome at hends hmoves ⊢
  obtain ⟨answer, next⟩ := outcome
  simp only at hends hmoves ⊢
  cases hends with
  | removed hremoved hname => exact gone_of_removed h hmoves hremoved hname
  | @marked sessionId reading record _ hname =>
    right
    simp only [sessionStep] at hstep
    rcases markReauthRequired_cases store reading sessionId with
      ⟨failure, -, hfailed⟩ | ⟨t, digest, found, -, -, -, hfound, ⟨-, hlate⟩ | ⟨-, hmarked⟩⟩
    · rw [hstep] at hfailed
      exact absurd (Prod.mk.inj hfailed).1 (by simp)
    · rw [hstep] at hlate
      exact absurd (Prod.mk.inj hlate).1 (by simp)
    · rw [hstep] at hmarked
      obtain ⟨hanswer, rfl⟩ := Prod.mk.inj hmarked
      rw [SessionAnswer.marked.inj hanswer] at hname
      exact gone_of_record ((Touched.marked digest found hfound).indexed h)
        (Table.get?_put_self digest found.marked store.byDigest) hname
        (not_resolvable_marked found)
  | @refusedToken token reading failure hkind =>
    right
    simp only [sessionStep, resolveToken] at hstep
    split at hstep
    · obtain ⟨hanswer, -⟩ := Prod.mk.inj hstep
      rw [← SessionAnswer.failed.inj hanswer] at hkind
      exact absurd hkind (by simp [invalid])
    · split at hstep
      · obtain ⟨hanswer, -⟩ := Prod.mk.inj hstep
        rw [← SessionAnswer.failed.inj hanswer] at hkind
        exact absurd hkind (by simp [invalid])
      · split at hstep
        · rename_i refusal hfresh
          obtain ⟨hanswer, -⟩ := Prod.mk.inj hstep
          rw [← SessionAnswer.failed.inj hanswer] at hkind
          rw [invalid_of_freshNow hfresh] at hkind
          exact absurd hkind (by simp)
        · rename_i t hfresh
          have hnamed : ∀ record, store.byDigest.get? (host.tokenDigest token) = some record →
              (SessionName.token (host.tokenDigest token)).Names record :=
            fun record hfound => h.keyed _ record hfound
          have hgone := gone_of_resolveDigest h (by rw [hstep]) hkind hnamed
          rw [hstep] at hgone
          exact hgone.later (hclock t (reads_of_freshNow hfresh))
  | @refusedSession sessionId reading failure hkind =>
    right
    simp only [sessionStep, resolveSessionId] at hstep
    split at hstep
    · obtain ⟨hanswer, -⟩ := Prod.mk.inj hstep
      rw [← SessionAnswer.failed.inj hanswer] at hkind
      exact absurd hkind (by simp [invalid])
    · split at hstep
      · obtain ⟨hanswer, -⟩ := Prod.mk.inj hstep
        rw [← SessionAnswer.failed.inj hanswer] at hkind
        exact absurd hkind (by simp [invalid])
      · rename_i digest hsession
        split at hstep
        · rename_i refusal hfresh
          obtain ⟨hanswer, -⟩ := Prod.mk.inj hstep
          rw [← SessionAnswer.failed.inj hanswer] at hkind
          rw [invalid_of_freshNow hfresh] at hkind
          exact absurd hkind (by simp)
        · rename_i t hfresh
          have hnamed : ∀ record, store.byDigest.get? digest = some record →
              (SessionName.session sessionId).Names record := by
            intro record hfound
            obtain ⟨other, hother, hsame⟩ := (h.inverse _ _).mpr hsession
            rw [hfound, Option.some.injEq] at hother
            exact hother ▸ hsame
          have hgone := gone_of_resolveDigest h (by rw [hstep]) hkind hnamed
          rw [hstep] at hgone
          exact hgone.later (hclock t (reads_of_freshNow hfresh))
  | @refusedMark sessionId reading failure hkind =>
    right
    simp only [sessionStep] at hstep
    rcases markReauthRequired_cases store reading sessionId with
      ⟨refusal, hinvalid, hfailed⟩ |
        ⟨t, digest, found, hreading, -, hsession, hfound, ⟨hlate, hfailed⟩ | ⟨-, hmarked⟩⟩
    · rw [hstep] at hfailed
      rw [SessionAnswer.failed.inj (Prod.mk.inj hfailed).1, hinvalid] at hkind
      exact absurd hkind (by simp)
    · rw [hstep] at hfailed
      rw [(Prod.mk.inj hfailed).2]
      obtain ⟨other, hother, hsame⟩ := (h.inverse _ _).mpr hsession
      obtain rfl := Option.some.inj (hother.symm.trans hfound)
      have hgone : Gone t (.session sessionId) store :=
        gone_of_record h hfound hsame fun hresolvable => lt_asymm hlate hresolvable.early
      exact hgone.later (hclock t hreading)
    · rw [hstep] at hmarked
      exact absurd (Prod.mk.inj hmarked).1 (by simp)

end Ended

/-! Whole runs. -/

/-- The entry creates a session of this name. -/
def Creates (entry : SessionEntry) (name : SessionName) : Prop :=
  ∃ token record removed, entry.2 = .created token record removed ∧ name.Names record

/-- The clock does not go back between two readings. -/
def Nondecreasing (inputs : List (SessionOperation × Reading)) : Prop :=
  inputs.Pairwise fun first second =>
    ∀ t now, first.2 = .reads t → second.2 = .reads now → t ≤ now

/-- A restored record is active or requires reauthentication, and its session has not ended
before in the run. -/
def RestoresLive (host : SessionHost) (trace : List SessionEntry) : Prop :=
  ∀ before record reading answer rest,
    trace = before ++ ((.restore record, reading), answer) :: rest →
      (record.status = .active ∨ record.status = .reauthRequired) ∧
        ∀ entry ∈ before, ∀ name, Ends host entry name → ¬ name.Names record

/-- Only these two statuses are stored. -/
def Known (store : SessionStore) : Prop :=
  ∀ digest record, store.byDigest.get? digest = some record →
    record.status = .active ∨ record.status = .reauthRequired

section Runs
variable {settings : StoreSettings} {host : SessionHost} {store : SessionStore}

theorem RestoresLive.init {trace : List SessionEntry} {last : SessionEntry}
    (h : RestoresLive host (trace ++ [last])) : RestoresLive host trace := by
  intro before record reading answer rest heq
  refine h before record reading answer (rest ++ [last]) ?_
  rw [heq, List.append_assoc, List.cons_append]

theorem resolveDigest_ne_created {digest token : String} {now : ℚ} {record : GatewaySessionRecord}
    {removed : List GatewaySessionRecord} :
    (resolveDigest store digest now).1 ≠ .created token record removed := by
  unfold resolveDigest
  repeat' split
  all_goals simp

/-- What is created is active, and there is room for it. -/
theorem of_created (h : Indexed store) {input : SessionOperation × Reading} {token : String}
    {record : GatewaySessionRecord} {removed : List GatewaySessionRecord}
    (hcreated : (sessionStep settings host store input).1 = .created token record removed) :
    (sessionStep settings host store input).2.byDigest.length ≤ settings.maxSessions ∧
      record.status = .active := by
  obtain ⟨operation, reading⟩ := input
  cases operation with
  | create request generated => exact length_of_created h hcreated
  | restore restored =>
    simp only [sessionStep, restore] at hcreated
    split at hcreated <;> exact absurd hcreated (by simp)
  | resolveToken presented =>
    simp only [sessionStep, resolveToken] at hcreated
    repeat' split at hcreated
    all_goals first | exact absurd hcreated (by simp) | exact absurd hcreated resolveDigest_ne_created
  | resolveSessionId sessionId =>
    simp only [sessionStep, resolveSessionId] at hcreated
    repeat' split at hcreated
    all_goals first | exact absurd hcreated (by simp) | exact absurd hcreated resolveDigest_ne_created
  | revoke sessionId =>
    simp only [sessionStep, revoke] at hcreated
    repeat' split at hcreated
    all_goals exact absurd hcreated (by simp)
  | revokeSession sessionId =>
    simp only [sessionStep, revokeSession] at hcreated
    split at hcreated <;> exact absurd hcreated (by simp)
  | revokeToken presented =>
    simp only [sessionStep, revokeToken] at hcreated
    repeat' split at hcreated
    all_goals exact absurd hcreated (by simp)
  | markReauthRequired sessionId =>
    simp only [sessionStep, markReauthRequired] at hcreated
    repeat' split at hcreated
    all_goals exact absurd hcreated (by simp)
  | purgeExpired =>
    simp only [sessionStep, purgeExpired, collectExpired] at hcreated
    repeat' split at hcreated
    all_goals exact absurd hcreated (by simp)
  | popExpiredRecords =>
    simp only [sessionStep, popExpiredRecords, collectExpired] at hcreated
    repeat' split at hcreated
    all_goals exact absurd hcreated (by simp)
  | close =>
    simp only [sessionStep, close] at hcreated
    split at hcreated <;> exact absurd hcreated (by simp)

theorem known_step (hindexed : Indexed store) (h : Known store)
    (input : SessionOperation × Reading)
    (hrestore : ∀ record, input.1 = .restore record →
      record.status = .active ∨ record.status = .reauthRequired) :
    Known (sessionStep settings host store input).2 := by
  intro digest record hfound
  rcases (step_moves settings host hindexed input).origin hfound with
    (⟨token, removed, hcreated⟩ | ⟨hrestored, -⟩) | ⟨r, hr, rfl | rfl⟩
  · exact .inl (of_created hindexed hcreated).2
  · exact hrestore record hrestored
  · exact h digest record hr
  · exact .inr rfl

theorem known_after (inputs : List (SessionOperation × Reading))
    (h : RestoresLive host (Machine.trace (sessionStep settings host) {} inputs)) :
    Known (Machine.after (sessionStep settings host) {} inputs) := by
  have hrun := @Machine.trace_induction _ _ _ (sessionStep settings host)
    (fun trace store => Indexed store ∧ (RestoresLive host trace → Known store)) {}
    ⟨Indexed.empty, fun _ _ _ hfound => absurd hfound (by simp)⟩
    (fun trace store input hstore => by
      refine ⟨(step_moves settings host hstore.1 input).indexed hstore.1, fun hrestores => ?_⟩
      refine known_step hstore.1 (hstore.2 hrestores.init) input fun record hrestored => ?_
      obtain ⟨operation, reading⟩ := input
      subst hrestored
      exact (hrestores trace record reading _ [] rfl).1)
    inputs
  exact hrun.2 h

/-- Without restored records there are never more sessions than allowed. -/
theorem length_step (hindexed : Indexed store) (h : store.byDigest.length ≤ settings.maxSessions)
    (input : SessionOperation × Reading) (hrestore : ∀ record, input.1 ≠ .restore record) :
    (sessionStep settings host store input).2.byDigest.length ≤ settings.maxSessions := by
  have hkept : ∀ base, Touched store base → ∀ records,
      (base.removeAll records).byDigest.length ≤ store.byDigest.length := by
    intro base htouched records
    rw [SessionStore.removeAll_byDigest]
    refine le_trans (List.length_filter_le _ _) ?_
    cases htouched with
    | same => exact le_rfl
    | looked now => exact le_of_eq (List.length_map _)
    | marked digest record hfound => exact le_of_eq (Table.length_put_of_get? hfound record.marked)
  obtain ⟨base, htouched, -, hsame | ⟨record, hinserts, -⟩⟩ := step_moves settings host hindexed input
  · rw [hsame.1]
    exact le_trans (hkept base htouched _) h
  · rcases hinserts with ⟨token, removed, hcreated⟩ | ⟨hrestored, -⟩
    · exact (of_created hindexed hcreated).1
    · exact absurd hrestored (hrestore record)

theorem length_after (hindexed : Indexed store) (h : store.byDigest.length ≤ settings.maxSessions)
    (inputs : List (SessionOperation × Reading))
    (hrestore : ∀ input ∈ inputs, ∀ record, input.1 ≠ .restore record) :
    (Machine.after (sessionStep settings host) store inputs).byDigest.length ≤
      settings.maxSessions := by
  induction inputs generalizing store with
  | nil => exact h
  | cons input rest ih =>
    refine ih ((step_moves settings host hindexed input).indexed hindexed) ?_ fun other hother => ?_
    · exact length_step hindexed h input (hrestore input List.mem_cons_self)
    · exact hrestore other (List.mem_cons_of_mem _ hother)

/-- A name that is gone stays so as long as no session of it is started. -/
theorem gone_along {now : ℚ} {name : SessionName} (hindexed : Indexed store)
    (h : Gone now name store) (inputs : List (SessionOperation × Reading))
    (hfresh : ∀ entry ∈ Machine.trace (sessionStep settings host) store inputs,
      ∀ record, Inserts entry record → ¬ name.Names record) :
    Gone now name (Machine.after (sessionStep settings host) store inputs) := by
  induction inputs generalizing store with
  | nil => exact h
  | cons input rest ih =>
    have hmoves := step_moves settings host hindexed input
    refine ih (hmoves.indexed hindexed) (h.step hmoves ?_) fun entry hentry => ?_
    · exact hfresh _ List.mem_cons_self
    · exact hfresh entry (List.mem_cons_of_mem _ hentry)

/-- A session that has ended is resolved again only if it has been created again. -/
theorem created_since (inputs : List (SessionOperation × Reading))
    (input : SessionOperation × Reading) (hclock : Nondecreasing (inputs ++ [input]))
    (hrestores : RestoresLive host (Machine.trace (sessionStep settings host) {} inputs))
    {record : GatewaySessionRecord} {now : ℚ} (hreading : input.2 = .reads now) {digest : String}
    (hfound : (Machine.after (sessionStep settings host) {} inputs).byDigest.get? digest =
      some record)
    (hresolvable : Resolvable now record) {before rest : List SessionEntry} {entry : SessionEntry}
    (heq : Machine.trace (sessionStep settings host) {} inputs = before ++ entry :: rest)
    {name : SessionName} (hends : Ends host entry name) (hname : name.Names record) :
    ∃ started ∈ entry :: rest, Creates started name := by
  by_contra hnone
  have hfresh : ∀ started ∈ entry :: rest, ∀ r, Inserts started r → ¬ name.Names r := by
    intro started hstarted r hinserts hnamed
    rcases hinserts with ⟨token, removed, hcreated⟩ | ⟨hrestored, hanswer⟩
    · exact hnone ⟨started, hstarted, token, r, removed, hcreated, hnamed⟩
    · obtain ⟨⟨operation, reading⟩, answer⟩ := started
      subst hrestored hanswer
      rcases List.mem_cons.mp hstarted with rfl | hlater
      · cases hends with
        | removed hremoved _ => exact absurd hremoved (by simp [removedBy])
      · obtain ⟨middle, others, rfl⟩ := List.append_of_mem hlater
        have hsplit : Machine.trace (sessionStep settings host) {} inputs =
            (before ++ entry :: middle) ++ ((.restore r, reading), .restored) :: others := by
          rw [heq, List.append_assoc, List.cons_append]
        exact (hrestores _ r reading .restored others hsplit).2 entry (by simp) name hends hnamed
  obtain ⟨first, others, rfl, -, hanswer, hrest⟩ := Machine.split_of_trace_eq heq
  have hindexed := indexed_after settings host first
  have hearlier : ∀ t, entry.1.2 = .reads t → t ≤ now := by
    intro t ht
    have hpair := (List.pairwise_append.mp hclock).2.2 entry.1 (by simp) input (by simp)
    exact hpair t now ht hreading
  obtain ⟨entryInput, answer⟩ := entry
  simp only at hanswer hrest hearlier
  subst hanswer
  have hgone := gone_of_ends settings hindexed hends hearlier
  rcases hgone with ⟨r, hinserts, hnamed⟩ | hgone
  · exact hfresh _ List.mem_cons_self r hinserts hnamed
  · have hnext := (step_moves settings host hindexed entryInput).indexed hindexed
    have hlast := @gone_along settings host _ now name hnext hgone others (by
      rw [hrest]
      exact fun started hstarted => hfresh started (List.mem_cons_of_mem _ hstarted))
    rw [Machine.after_append, Machine.after] at hfound
    exact hlast digest record hfound hname hresolvable

end Runs

/-! A session that is created, resolved and revoked. -/

section Example

private def oneSession : StoreSettings := .brief 1 Nat.one_pos

private def plainHost : SessionHost where
  tokenDigest := id
  later := fun now ttl => now + ttl

private def localPrincipal : PrincipalContext where
  principalId := "user"
  gatewaySessionId := some "s1"
  targetSystemId := "target"
  sourceScopes := none
  deploymentScopeCeiling := {"read"}
  effectiveScopes := {"read"}
  tenantContext := none
  authStateHandle := "handle"

private def someToken : String := "AAAAAAAAAAAAAAAAAAAAAAAAAAAAAAAAAAAAAAAAAAA"

private def oneRun : List (SessionOperation × Reading) :=
  [(.create ⟨"s1", localPrincipal, some (some 9), some (some 5)⟩ (some someToken), .reads 1)]

private def oneRecord : Option GatewaySessionRecord :=
  GatewaySessionRecord.build? "s1" someToken localPrincipal 1 5 (some 11) (some 9) (some 5) .active

private def revokedRecord : Option GatewaySessionRecord :=
  GatewaySessionRecord.build? "s1" someToken localPrincipal 1 5 none none none .revoked

end Example

end CapabilityCompiler.Gateway
