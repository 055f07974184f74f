import CapabilityCompiler.Actions.ActionRows
import CapabilityCompiler.Actions.StoreRuns
import CapabilityCompiler.Foundation.JsonCanonical

/-! What the store writes is read back as it was, and nothing else is read. -/
namespace CapabilityCompiler.Actions
open Foundation

theorem ColumnValue.ofText_injective {first second : Option String}
    (h : ColumnValue.ofText first = ColumnValue.ofText second) : first = second := by
  cases first <;> cases second <;> simp_all [ColumnValue.ofText]

theorem ColumnValue.ofBlob_injective {first second : Option ByteArray}
    (h : ColumnValue.ofBlob first = ColumnValue.ofBlob second) : first = second := by
  cases first <;> cases second <;> simp_all [ColumnValue.ofBlob]

theorem ActionColumns.values_injective {first second : ActionColumns}
    (h : first.values = second.values) : first = second := by
  obtain ⟨_, _, _, session, _, _, _, _, _, _, _, _, result⟩ := first
  obtain ⟨_, _, _, session', _, _, _, _, _, _, _, _, result'⟩ := second
  simp only [ActionColumns.values, List.cons.injEq, ColumnValue.text.injEq, ColumnValue.real.injEq,
    ColumnValue.blob.injEq, and_true] at h
  obtain ⟨rfl, rfl, rfl, hsession, rfl, rfl, rfl, rfl, rfl, rfl, rfl, rfl, hresult⟩ := h
  obtain rfl := ColumnValue.ofText_injective hsession
  obtain rfl := ColumnValue.ofBlob_injective hresult
  rfl

namespace ActionRowHost
variable {μ : Type} {host : ActionRowHost μ}

/-- The canonical text of a document is read back. -/
def Loads (host : ActionRowHost μ) (value : Json) : Prop :=
  host.loads (host.canonicalBytes value) = some value.keySorted

/-- No two payloads of these columns have one hash. -/
def Collides (host : ActionRowHost μ) (values values' : List ColumnValue) : Prop :=
  ∃ bytes bytes', ColumnValue.blob bytes ∈ values ∧ ColumnValue.blob bytes' ∈ values' ∧
    host.hashBytes bytes = host.hashBytes bytes' ∧ bytes ≠ bytes'

theorem canonicalBytes_keySorted (host : ActionRowHost μ) (value : Json) :
    host.canonicalBytes value.keySorted = host.canonicalBytes value := by
  rw [canonicalBytes, canonicalBytes, Printer.dumps_keySorted]

theorem isCanonical_canonicalBytes {value : Json} (h : host.Loads value) :
    host.isCanonical (host.canonicalBytes value) = true := by
  rw [isCanonical, h, Option.any_some, decide_eq_true_eq]
  exact canonicalBytes_keySorted host value

/-! The message of the MAC determines the columns. -/

theorem keySorted_blob (digest : String) (size : ℕ) :
    (Json.obj [("sha256", .str digest), ("length", .int size)]).keySorted =
      .obj [("length", .int size), ("sha256", .str digest)] := by
  have horder : ¬ ("sha256" : String) ≤ "length" := by decide
  simp [Json.keySorted, Json.keySortedFields, Printer.sortKeys, List.insertionSort, horder]

/-- The column a scalar stands for. -/
def scalarColumn : Json → Option ColumnValue
  | .null => some .null
  | .int n => some (.integer n)
  | .float q => some (.real (.finite q))
  | .str text => some (.text text)
  | _ => none

theorem macValue_cases {value : ColumnValue} {document : Json}
    (h : host.macValue value = some document) :
    (∃ bytes, value = .blob bytes ∧ document.keySorted =
      .obj [("length", .int bytes.size), ("sha256", .str (host.hashBytes bytes))]) ∨
    document.keySorted = document ∧ scalarColumn document = some value := by
  cases value with
  | real number =>
    cases number with
    | finite q =>
      obtain rfl := Option.some.inj h
      exact .inr ⟨rfl, rfl⟩
    | infinite negative => exact absurd h (by simp [macValue])
  | blob bytes =>
    obtain rfl := Option.some.inj h
    exact .inl ⟨bytes, rfl, keySorted_blob _ _⟩
  | _ =>
    obtain rfl := Option.some.inj h
    exact .inr ⟨rfl, rfl⟩

theorem eq_of_macValue {value value' : ColumnValue} {document document' : Json}
    (h : host.macValue value = some document) (h' : host.macValue value' = some document')
    (hsame : document.keySorted = document'.keySorted)
    (hcollides : ¬ host.Collides [value] [value']) : value = value' := by
  rcases macValue_cases h with ⟨bytes, rfl, hsorted⟩ | ⟨hsorted, hvalue⟩
  · rcases macValue_cases h' with ⟨bytes', rfl, hsorted'⟩ | ⟨hsorted', hvalue'⟩
    · rw [hsorted, hsorted'] at hsame
      have hhash : host.hashBytes bytes = host.hashBytes bytes' := by
        simp only [Json.obj.injEq, List.cons.injEq, Prod.mk.injEq, Json.str.injEq] at hsame
        exact hsame.2.1.2
      by_contra hne
      exact hcollides ⟨bytes, bytes', List.mem_cons_self, List.mem_cons_self, hhash,
        by simpa using hne⟩
    · rw [hsorted, hsorted'] at hsame
      exact absurd (hsame ▸ hvalue') (by simp [scalarColumn])
  · rcases macValue_cases h' with ⟨bytes', rfl, hsorted'⟩ | ⟨hsorted', hvalue'⟩
    · rw [hsorted, hsorted'] at hsame
      exact absurd (hsame ▸ hvalue) (by simp [scalarColumn])
    · rw [hsorted, hsorted'] at hsame
      exact Option.some.inj (hvalue.symm.trans (hsame ▸ hvalue'))

theorem forall₂_of_mapM {values : List ColumnValue} {items : List Json}
    (h : values.mapM host.macValue = some items) :
    List.Forall₂ (fun value item => host.macValue value = some item) values items := by
  induction values generalizing items with
  | nil =>
    obtain rfl : [] = items := Option.some.inj h
    exact .nil
  | cons value rest ih =>
    rw [List.mapM_cons, Option.bind_eq_bind] at h
    obtain ⟨item, hitem, hrest⟩ := Option.bind_eq_some_iff.mp h
    obtain ⟨others, hothers, hitems⟩ := Option.bind_eq_some_iff.mp hrest
    obtain rfl : item :: others = items := Option.some.inj hitems
    exact .cons hitem (ih hothers)

/-- Columns with documents that are read back alike are the same. -/
theorem eq_of_forall₂ {values values' : List ColumnValue} {items items' : List Json}
    (h : List.Forall₂ (fun value item => host.macValue value = some item) values items)
    (h' : List.Forall₂ (fun value item => host.macValue value = some item) values' items')
    (hsame : items.map Json.keySorted = items'.map Json.keySorted)
    (hcollides : ¬ host.Collides values values') : values = values' := by
  induction h generalizing values' items' with
  | nil =>
    cases h' with
    | nil => rfl
    | cons _ _ => exact absurd hsame (by simp)
  | @cons value item rest items hvalue _ ih =>
    cases h' with
    | nil => exact absurd hsame (by simp)
    | @cons value' _ rest' _ hvalue' hrest' =>
      obtain ⟨hfirst, hothers⟩ := List.cons.inj hsame
      have hhead : ¬ host.Collides [value] [value'] := by
        rintro ⟨bytes, bytes', hmem, hmem', hhash⟩
        refine hcollides ⟨bytes, bytes', ?_, ?_, hhash⟩
        · exact List.mem_cons.mpr (.inl (List.mem_singleton.mp hmem))
        · exact List.mem_cons.mpr (.inl (List.mem_singleton.mp hmem'))
      have htail : ¬ host.Collides rest rest' := by
        rintro ⟨bytes, bytes', hmem, hmem', hhash⟩
        exact hcollides ⟨bytes, bytes', List.mem_cons_of_mem _ hmem, List.mem_cons_of_mem _ hmem',
          hhash⟩
      rw [eq_of_macValue hvalue hvalue' hfirst hhead, ih hrest' hothers htail]

theorem loads_eq {document document' : Json} (h : host.Loads document) (h' : host.Loads document')
    (hsame : host.canonicalBytes document = host.canonicalBytes document') :
    document.keySorted = document'.keySorted := by
  rw [Loads, hsame] at h
  exact Option.some.inj (h.symm.trans h')

/-- The message of the MAC is an injective encoding of the columns. -/
theorem eq_of_message {values values' : List ColumnValue} {document document' : Json}
    (h : host.macDocument values = some document) (h' : host.macDocument values' = some document')
    (hloads : host.Loads document) (hloads' : host.Loads document')
    (hcollides : ¬ host.Collides values values')
    (hsame : host.canonicalBytes document = host.canonicalBytes document') : values = values' := by
  obtain ⟨items, hitems, rfl⟩ := Option.map_eq_some_iff.mp h
  obtain ⟨items', hitems', rfl⟩ := Option.map_eq_some_iff.mp h'
  have hsorted := loads_eq hloads hloads' hsame
  rw [Json.keySorted, Json.keySorted, Json.keySortedItems_eq, Json.keySortedItems_eq,
    Json.arr.injEq] at hsorted
  exact eq_of_forall₂ (forall₂_of_mapM hitems) (forall₂_of_mapM hitems') hsorted hcollides

/-! Only the rows that were written are read. -/

section Reading
variable [DecidableEq μ] {row : ActionRow μ} {decoded : DecodedRow}

/-- A row that is read carries the MAC of its columns. -/
theorem mac_of_decodeRow (h : host.decodeRow row = .ok decoded) :
    ∃ document, host.macDocument row.columns.values = some document ∧
      row.rowMac = host.hmac (host.canonicalBytes document) := by
  unfold decodeRow verifyRow rowMac at h
  cases hdocument : host.macDocument row.columns.values with
  | none =>
    rw [hdocument] at h
    exact absurd h (by simp)
  | some document =>
    rw [hdocument] at h
    refine ⟨document, rfl, ?_⟩
    by_contra hne
    rw [Option.map_some] at h
    simp only [if_neg hne] at h
    exact absurd h (by simp)

end Reading

/-! What the store writes. -/

/-- An action whose record passes its checks, under the digests of its payloads. -/
structure Written (host : ActionRowHost μ) (stored : StoredAction) : Prop where
  handle : isDigest stored.record.handleDigest = true
  capability : isOk (exactIdentifier stored.record.capabilityId "capability_id") = true
  principal : isDigest stored.record.principalDigest = true
  session : stored.record.sessionDigest.all isDigest = true
  pack : isOk (validatePackDigest stored.record.packDigest) = true
  input : stored.record.inputDigest = host.jsonDigest stored.inputValue
  preview : stored.record.previewDigest = host.jsonDigest stored.previewValue

theorem valueOf_nameOf (status : PreparedActionStatus) :
    valueOf statusNames (nameOf statusNames status) = some status := by
  cases status <;> decide

theorem isDigest_jsonDigest (hdigest : ∀ text, isDigest (host.digest.sha256 text) = true)
    (value : Json) : isDigest (host.jsonDigest value) = true :=
  hdigest _

theorem recordOf_rowValues {stored : StoredAction} (h : host.Written stored)
    (hdigest : ∀ text, isDigest (host.digest.sha256 text) = true)
    (inputBytes previewBytes : ByteArray) (resultBytes : Option ByteArray) :
    recordOf (rowValues stored.record inputBytes previewBytes resultBytes) =
      some stored.record := by
  have hinput : isDigest stored.record.inputDigest = true := h.input ▸ hdigest _
  have hpreview : isDigest stored.record.previewDigest = true := h.preview ▸ hdigest _
  simp only [recordOf, rowValues, valueOf_nameOf, h.handle, h.capability, h.principal, h.session,
    h.pack, hinput, hpreview, Bool.and_self, if_true, dif_pos stored.record.lifetime]

theorem hashBytes_canonicalBytes (value : Json) :
    host.hashBytes (host.canonicalBytes value) = host.jsonDigest value :=
  host.hash_toUTF8 _

/-- The payloads of an action are read back. -/
def Readable (host : ActionRowHost μ) (stored : StoredAction) : Prop :=
  host.Loads stored.inputValue ∧ host.Loads stored.previewValue ∧
    ∀ value, stored.resultValue = some value → host.Loads value

/-- A written row is decoded as what was written. -/
theorem decodeRow_encodeRow [DecidableEq μ] {stored : StoredAction} (h : host.Written stored)
    (hdigest : ∀ text, isDigest (host.digest.sha256 text) = true) (hreadable : host.Readable stored)
    {row : ActionRow μ} (hrow : host.encodeRow stored = some row) :
    host.decodeRow row = .ok
      { record := stored.record
        inputBytes := host.canonicalBytes stored.inputValue
        previewBytes := host.canonicalBytes stored.previewValue
        resultBytes := stored.resultValue.map host.canonicalBytes } := by
  obtain ⟨hinput, hpreview, hresult⟩ := hreadable
  obtain ⟨mac, hmac, rfl⟩ := Option.map_eq_some_iff.mp hrow
  have hcanonical : (stored.resultValue.map host.canonicalBytes).all host.isCanonical = true := by
    cases hvalue : stored.resultValue with
    | none => rfl
    | some value => exact isCanonical_canonicalBytes (hresult value hvalue)
  have hread := recordOf_rowValues h hdigest (host.canonicalBytes stored.inputValue)
    (host.canonicalBytes stored.previewValue) (stored.resultValue.map host.canonicalBytes)
  unfold decodeRow verifyRow
  rw [hmac]
  simp only [if_true]
  unfold readRow
  rw [hread]
  simp only [rowValues, isCanonical_canonicalBytes hinput, isCanonical_canonicalBytes hpreview,
    hcanonical, hashBytes_canonicalBytes, h.input, h.preview, decide_true, Bool.and_self, if_true]

/-- Every action has a row. -/
theorem exists_encodeRow (host : ActionRowHost μ) (stored : StoredAction) :
    ∃ row, host.encodeRow stored = some row := by
  have hdocument : ∀ inputBytes previewBytes resultBytes, ∃ items, (rowValues stored.record
      inputBytes previewBytes resultBytes).values.mapM host.macValue = some items := by
    intro inputBytes previewBytes resultBytes
    cases hsession : stored.record.sessionDigest with
    | none =>
      cases resultBytes <;> exact ⟨_, by simp [ActionColumns.values, rowValues, hsession,
        ColumnValue.ofText, ColumnValue.ofBlob, macValue]; rfl⟩
    | some session =>
      cases resultBytes <;> exact ⟨_, by simp [ActionColumns.values, rowValues, hsession,
        ColumnValue.ofText, ColumnValue.ofBlob, macValue]; rfl⟩
  obtain ⟨items, hitems⟩ := hdocument (host.canonicalBytes stored.inputValue)
    (host.canonicalBytes stored.previewValue) (stored.resultValue.map host.canonicalBytes)
  unfold encodeRow rowMac macDocument
  simp only [hitems, Option.map_some]
  exact ⟨_, rfl⟩

theorem Written.withStatus {stored : StoredAction} (h : host.Written stored)
    (status : PreparedActionStatus) : host.Written (stored.withStatus status) :=
  ⟨h.handle, h.capability, h.principal, h.session, h.pack, h.input, h.preview⟩

theorem Written.moved {stored : StoredAction} (h : host.Written stored)
    (target : PreparedActionStatus) (resultValue : Json) :
    host.Written (stored.moved target resultValue) :=
  ⟨h.handle, h.capability, h.principal, h.session, h.pack, h.input, h.preview⟩

/-- A creation that is answered has passed its checks. -/
theorem checked_of_created {host : StoreHost} {store : ActionStore} {request : CreateRequest}
    {generated handle : String} {now : ℚ} {state : PreparedActionState}
    (h : (StoreKind.sqlite.answer host store (.create request generated, now)).1 =
      .created handle state) : request.check generated = .ok () := by
  cases hcheck : request.check generated with
  | ok _ => rfl
  | error error =>
    simp only [StoreKind.answer_sqlite_create, SQLiteActionStore.create, hcheck, respond] at h
    exact absurd h (by simp)

theorem pack_of_check {owner : Owner} (h : isOk owner.check = true) :
    isOk (validatePackDigest owner.packDigest) = true := by
  unfold Owner.check at h
  cases hprincipal : exactIdentifier owner.principalId "principal_id" with
  | error error =>
    rw [hprincipal] at h
    exact absurd h (by simp [isOk, bind, Except.bind])
  | ok _ =>
    cases hsession : exactIdentifier? owner.sessionId "session_id" with
    | error error =>
      rw [hprincipal, hsession] at h
      exact absurd h (by simp [isOk, bind, Except.bind])
    | ok _ =>
      rw [hprincipal, hsession] at h
      exact h

theorem written_newAction (hdigest : ∀ text, isDigest (host.digest.sha256 text) = true)
    (hbinding : ∀ name value, isDigest (host.bindingDigest name value) = true)
    {request : CreateRequest} {generated : String} {now : ℚ} {stored : StoredAction}
    (hcheck : request.check generated = .ok ())
    (h : newAction host.toStoreHost request (host.digest.sha256 generated) now = .ok stored) :
    host.Written stored := by
  unfold CreateRequest.check at hcheck
  have hcapability : isOk (exactIdentifier request.capabilityId "capability_id") = true := by
    cases hname : exactIdentifier request.capabilityId "capability_id" with
    | error error =>
      rw [hname] at hcheck
      cases hcheck
    | ok _ => rfl
  have howner : isOk request.owner.check = true := by
    cases hchecked : request.owner.check with
    | error error =>
      cases hname : exactIdentifier request.capabilityId "capability_id" with
      | error other =>
        rw [hname] at hcheck
        cases hcheck
      | ok _ =>
        rw [hname, hchecked] at hcheck
        cases hcheck
    | ok _ => rfl
  have hpack := pack_of_check howner
  unfold newAction at h
  dsimp only at h
  split at h
  · obtain rfl := Except.ok.inj h
    refine ⟨hdigest _, hcapability, hbinding _ _, ?_, hpack, rfl, rfl⟩
    cases request.owner.sessionId with
    | none => rfl
    | some session => exact hbinding _ _
  · exact absurd h (by simp)

/-- Whatever a run of the store leaves under a digest can be written. -/
theorem written_after (hdigest : ∀ text, isDigest (host.digest.sha256 text) = true)
    (hbinding : ∀ name value, isDigest (host.bindingDigest name value) = true)
    (inputs : List (StoreCall × ℚ)) {digest : String} {stored : StoredAction}
    (h : (Machine.after (StoreKind.sqlite.answer host.toStoreHost) {} inputs).row digest =
      some stored) : host.Written stored := by
  refine Machine.invariant (P := fun store : ActionStore => ∀ stored,
    store.row digest = some stored → host.Written stored)
    (fun store call hstore stored hrow => ?_) ?_ inputs stored h
  · have htouched := touched_of_answer .sqlite host.toStoreHost store call digest
    rw [ActionStore.row] at hrow
    rw [hrow] at htouched
    generalize hentry : (call, (StoreKind.sqlite.answer host.toStoreHost store call).1) = entry
      at htouched
    generalize hbefore : Table.get? digest store.actions = before at htouched
    cases htouched with
    | kept _ => exact hstore stored hbefore
    | expired _ _ => exact (hstore _ hbefore).withStatus .expired
    | @created request generated now _ hname hnew =>
      obtain ⟨rfl, hanswer⟩ := Prod.mk.inj hentry
      subst hname
      exact written_newAction hdigest hbinding (checked_of_created hanswer) hnew
    | resolved _ _ _ => exact hstore stored hbefore
    | moved _ _ _ _ _ _ => exact (hstore _ hbefore).moved _ _
  · intro stored hrow
    exact absurd hrow (by simp [ActionStore.row])

/-- What the store relies on where columns are compared: their JSON is read back, their payloads
have different hashes and their messages different MACs. -/
structure Compares (host : ActionRowHost μ) (values values' : List ColumnValue) : Prop where
  loads : ∀ document, host.macDocument values = some document → host.Loads document
  loads' : ∀ document, host.macDocument values' = some document → host.Loads document
  hashes : ¬ host.Collides values values'
  macs : ∀ document document', host.macDocument values = some document →
    host.macDocument values' = some document' →
    host.hmac (host.canonicalBytes document) = host.hmac (host.canonicalBytes document') →
    host.canonicalBytes document = host.canonicalBytes document'

/-- The MACs of two lists of columns are the same only if the columns are. -/
theorem Compares.eq_of_rowMac {values values' : List ColumnValue} (h : host.Compares values values')
    {mac : μ} (hmac : host.rowMac values = some mac) (hmac' : host.rowMac values' = some mac) :
    values = values' := by
  obtain ⟨document, hdocument, rfl⟩ := Option.map_eq_some_iff.mp hmac
  obtain ⟨document', hdocument', hsame⟩ := Option.map_eq_some_iff.mp hmac'
  exact eq_of_message hdocument hdocument' (h.loads _ hdocument) (h.loads' _ hdocument') h.hashes
    (h.macs _ _ hdocument hdocument' hsame.symm)

theorem rowMac_of_encodeRow {stored : StoredAction} {row : ActionRow μ}
    (h : host.encodeRow stored = some row) : host.rowMac row.columns.values = some row.rowMac := by
  obtain ⟨mac, hmac, rfl⟩ := Option.map_eq_some_iff.mp h
  exact hmac

/-- Every action that a run of the store has made has a row, which is decoded as the record and the
payloads it was made of. The row's MAC is that of no other columns, so that a row with this MAC
and any column changed, or taken from another row, is refused; and so is every row that does not
have the MAC and the columns of a row that the store has written. -/
theorem row_integrity [DecidableEq μ] (host : ActionRowHost μ)
    (hdigest : ∀ text, isDigest (host.digest.sha256 text) = true)
    (hbinding : ∀ name value, isDigest (host.bindingDigest name value) = true)
    (inputs : List (StoreCall × ℚ)) (digest : String) (stored : StoredAction)
    (hstored : (Machine.after (StoreKind.sqlite.answer host.toStoreHost) {} inputs).row digest =
      some stored) (hreadable : host.Readable stored) :
    ∃ row, host.encodeRow stored = some row ∧
      host.decodeRow row = .ok
        { record := stored.record
          inputBytes := host.canonicalBytes stored.inputValue
          previewBytes := host.canonicalBytes stored.previewValue
          resultBytes := stored.resultValue.map host.canonicalBytes } ∧
      (∀ values mac, host.Compares row.columns.values values → host.rowMac values = some mac →
        (mac = row.rowMac ↔ values = row.columns.values)) ∧
      (∀ row' : ActionRow μ, host.Compares row.columns.values row'.columns.values →
        row'.rowMac = row.rowMac → row'.columns ≠ row.columns →
        ∃ error, host.decodeRow row' = .error error) ∧
      ∀ (written : List (ActionRow μ)) (row' : ActionRow μ) (decoded : DecodedRow),
        (∀ first ∈ written, host.Compares first.columns.values row'.columns.values) →
        (∀ mac, host.rowMac row'.columns.values = some mac → row'.rowMac = mac →
          ∃ first ∈ written, host.rowMac first.columns.values = some mac) →
        host.decodeRow row' = .ok decoded → ∃ first ∈ written, row'.columns = first.columns := by
  obtain ⟨row, hrow⟩ := exists_encodeRow host stored
  have hmac := rowMac_of_encodeRow hrow
  have haccepted : ∀ {row' : ActionRow μ} {decoded : DecodedRow},
      host.decodeRow row' = .ok decoded → host.rowMac row'.columns.values = some row'.rowMac := by
    intro row' decoded hdecoded
    obtain ⟨document, hdocument, hmac'⟩ := mac_of_decodeRow hdecoded
    rw [rowMac, hdocument, hmac', Option.map_some]
  refine ⟨row, hrow, decodeRow_encodeRow (written_after hdigest hbinding inputs hstored) hdigest
    hreadable hrow, fun values mac hcompares hvalues => ⟨?_, ?_⟩,
    fun row' hcompares hsame hother => ?_, fun written row' decoded hcompares hunforged hdecoded => ?_⟩
  · rintro rfl
    exact (hcompares.eq_of_rowMac hmac hvalues).symm
  · rintro rfl
    exact Option.some.inj (hvalues.symm.trans hmac)
  · cases hdecoded : host.decodeRow row' with
    | error error => exact ⟨error, rfl⟩
    | ok decoded =>
      have hmac' := haccepted hdecoded
      rw [hsame] at hmac'
      exact absurd (ActionColumns.values_injective (hcompares.eq_of_rowMac hmac hmac')).symm hother
  · have hmac' := haccepted hdecoded
    obtain ⟨first, hfirst, hfirstMac⟩ := hunforged _ hmac' rfl
    exact ⟨first, hfirst, (ActionColumns.values_injective
      ((hcompares first hfirst).eq_of_rowMac hfirstMac hmac')).symm⟩

end ActionRowHost
/-! An action whose payloads are empty objects. -/

/-- The hash of an empty object, and that of the handle. -/
def rowHash (bytes : ByteArray) : String :=
  if bytes.size = 2 then "44136fa355b3678a1146ad16f7e8649e94fb4fc21fe77e8310c060f61caaff8a"
  else "0f007385b6f9d4b7eeb2748605afe1a984a0a3bfa3f014d09e2a784ce9e5cd1a"

def rowHost : ActionRowHost ByteArray where
  digest := { floatRepr := fun _ => "", sha256 := fun text => rowHash text.toUTF8 }
  later := fun now seconds => now + seconds
  maxActions := 1
  bindingDigest := fun _ _ => "f954f5aab87d95eac5980827e998f6d0c1576d7ae27bda900d5563400fd814bb"
  loads := fun bytes => if bytes.size = 2 then some (.obj []) else none
  hashBytes := rowHash
  hmac := fun bytes => bytes
  hash_toUTF8 := fun _ => rfl

def emptyRequest : CreateRequest where
  capabilityId := "copy-order"
  owner := ⟨"operator", none, "sha256:" ++ rowHash "\x7b\x7d".toUTF8⟩
  inputValue := .obj []
  previewValue := .obj []
  expiresInSeconds := 60

def emptyHandle : String := String.ofList (List.replicate 43 'A')

/-- The store after the creation. -/
def emptyStore : ActionStore :=
  Machine.after (StoreKind.sqlite.answer rowHost.toStoreHost) {}
    [(.create emptyRequest emptyHandle, 0)]

theorem emptyStore_row : ∃ stored,
    emptyStore.row (rowHost.digest.sha256 emptyHandle) = some stored ∧
    stored.inputValue = .obj [] ∧ stored.previewValue = .obj [] ∧ stored.resultValue = none := by
  have hcheck : emptyRequest.check emptyHandle = .ok () := by rfl
  obtain ⟨stored, hnew, hvalues⟩ : ∃ stored, newAction rowHost.toStoreHost emptyRequest
      (rowHost.digest.sha256 emptyHandle) 0 = .ok stored ∧ stored.inputValue = .obj [] ∧
      stored.previewValue = .obj [] ∧ stored.resultValue = none := by
    have hlater : (0 : ℚ) < rowHost.later 0 emptyRequest.expiresInSeconds.toNat := by
      change (0 : ℚ) < 0 + ((60 : ℕ) : ℚ)
      norm_num
    unfold newAction
    dsimp only
    rw [dif_pos hlater]
    exact ⟨_, rfl, rfl, rfl, rfl⟩
  refine ⟨stored, ?_, hvalues⟩
  change (StoreKind.sqlite.answer rowHost.toStoreHost {}
    (.create emptyRequest emptyHandle, 0)).2.row _ = _
  simp only [StoreKind.answer_sqlite_create, SQLiteActionStore.create, hcheck, hnew]
  rfl

theorem row_integrity_empty : ∃ stored row, rowHost.encodeRow stored = some row ∧
    (rowHost.decodeRow row).toOption.map DecodedRow.record = some stored.record := by
  have hdigest : ∀ text, isDigest (rowHost.digest.sha256 text) = true := by
    intro text
    change isDigest (rowHash text.toUTF8) = true
    unfold rowHash
    split <;> decide
  have hloads : rowHost.Loads (.obj []) := by rfl
  obtain ⟨stored, hstored, hinput, hpreview, hresult⟩ := emptyStore_row
  have hreadable : rowHost.Readable stored := by
    refine ⟨hinput ▸ hloads, hpreview ▸ hloads, fun value hvalue => ?_⟩
    exact absurd (hresult.symm.trans hvalue) (by simp)
  have hbinding : isDigest (rowHost.bindingDigest "" "") = true := by decide
  obtain ⟨row, hrow, hdecoded, -⟩ := ActionRowHost.row_integrity rowHost hdigest
    (fun _ _ => hbinding) _ _ stored hstored hreadable
  exact ⟨stored, row, hrow, by rw [hdecoded]; rfl⟩

end CapabilityCompiler.Actions
