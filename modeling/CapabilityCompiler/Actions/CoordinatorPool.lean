import CapabilityCompiler.Actions.CoordinatorCalls
import CapabilityCompiler.Actions.StoreEquivalence
import CapabilityCompiler.Actions.StoreRuns
import CapabilityCompiler.Foundation.PoolMoves

/-! Any number of coordinators over one store, with all their calls running at once. -/
namespace CapabilityCompiler.Actions
open Foundation Models Compiler

/-- The replies a request can get from outside the store. A database may fail before it applies
anything; a grant is bound to what was to be verified. -/
def permits (kind : StoreKind) : CoordinatorRequest → CoordinatorReply → Prop
  | .store _ _, r => kind = .sqlite ∧ (r = .exception ∨ ∃ message,
      r = .stored (.raised (conflict message)))
  | .verify _ expected, r => ∀ grant, r = .granted grant → grant.binding = expected
  | _, _ => True

def askedOfStore : CoordinatorRequest → Option StoreCall
  | .store call _ => some call
  | _ => none

/-- The calls of coordinators over one store. -/
def coordinatorPool (packs : Packs) (kind : StoreKind) (host : StoreHost) :
    PoolHost (CoordinatorCall packs) CoordinatorRequest CoordinatorReply CoordinatorFailure
      CoordinatorReport StoreCall ℚ StoreAnswer ActionStore where
  process := CoordinatorCall.process
  addressed := askedOfStore
  answer := kind.answer host
  reply := .stored
  permitted := permits kind
  cancelled := .cancelled

abbrev CoordinatorEntry := Pool.Entry CoordinatorRequest CoordinatorReply StoreCall ℚ StoreAnswer

abbrev CoordinatorWorld (packs : Packs) := Pool.World (CoordinatorCall packs) CoordinatorRequest
  CoordinatorReply CoordinatorFailure CoordinatorReport StoreCall ℚ StoreAnswer ActionStore

/-- The worlds of the runs over a store that is empty at first. -/
abbrev Reached {packs : Packs} (kind : StoreKind) (host : StoreHost)
    (world : CoordinatorWorld packs) : Prop :=
  Pool.Reachable (coordinatorPool packs kind host) {} world

/-- The store after what was performed. -/
def storeAfter (kind : StoreKind) (host : StoreHost) (log : List CoordinatorEntry) : ActionStore :=
  Machine.after (kind.answer host) {} (Pool.inputs log)

/-- The store makes a transition of the action under a digest for a task. -/
def Makes (host : StoreHost) (digest : String) (task : ℕ) (expected target : PreparedActionStatus)
    (entry : CoordinatorEntry) : Prop :=
  ∃ delivered q handle owner resultValue now state,
    entry = .performed task delivered q
      (.transition handle owner expected target resultValue, now) (.state state) ∧
    host.digest.sha256 handle = digest

section Log
variable {packs : Packs} {kind : StoreKind} {host : StoreHost} {world : CoordinatorWorld packs}
  {before after : List CoordinatorEntry} {i : ℕ}

theorem object_eq (h : Reached kind host world) :
    world.object = storeAfter kind host world.log :=
  (Pool.object_of_reachable h).1

theorem storeAfter_append (log rest : List CoordinatorEntry) :
    storeAfter kind host (log ++ rest) =
      Machine.after (kind.answer host) (storeAfter kind host log) (Pool.inputs rest) := by
  rw [storeAfter, Pool.inputs_append, Machine.after_append]
  rfl

/-- A performed request asked for its call, and was answered by the store of its time. -/
theorem performed_facts (h : Reached kind host world) {delivered : Bool} {q : CoordinatorRequest}
    {input : StoreCall × ℚ} {answer : StoreAnswer}
    (hlog : world.log = before ++ .performed i delivered q input answer :: after) :
    (∃ shielded, q = .store input.1 shielded) ∧ .sent i q ∈ before ∧
      (kind.answer host (storeAfter kind host before) input).1 = answer := by
  obtain ⟨hsent, haddressed⟩ := Pool.sent_of_performed conducts_process h hlog
  refine ⟨?_, hsent, (Pool.answer_of_performed h hlog).symm⟩
  cases q with
  | store call shielded =>
    obtain rfl : call = input.1 := by simpa [coordinatorPool, askedOfStore] using haddressed
    exact ⟨shielded, rfl⟩
  | _ => simp [coordinatorPool, askedOfStore] at haddressed

/-- What the store tells a call it was asked for by it. -/
theorem performed_of_stored (h : Reached kind host world) (hlog : world.log = before ++ after)
    {call : StoreCall} {shielded : Bool} {answer : StoreAnswer}
    (hstored : .replied (.store call shielded) (.stored answer) ∈
      Pool.eventsOf (coordinatorPool packs kind host) i before)
    (haccepted : answer.isError = false) :
    ∃ now, .performed i true (.store call shielded) (call, now) answer ∈ before := by
  rcases Pool.mem_of_replied hstored with ⟨input, output, hmem, hanswer⟩ | hreplied
  · obtain rfl : answer = output := by simpa [coordinatorPool] using hanswer
    obtain ⟨first, rest, hsplit⟩ := List.append_of_mem hmem
    rw [hsplit, List.append_assoc] at hlog
    obtain ⟨⟨shielded', hcall⟩, -, -⟩ := performed_facts h hlog
    obtain ⟨rfl, rfl⟩ : call = input.1 ∧ shielded = shielded' := by simpa using hcall
    exact ⟨input.2, hmem⟩
  · obtain ⟨first, rest, hsplit⟩ := List.append_of_mem hreplied
    rw [hsplit, List.append_assoc] at hlog
    rcases Pool.permitted_of_replied h hlog with hpermitted | hcancelled
    · rcases hpermitted.2 with hexception | ⟨message, hconflict⟩
      · exact absurd hexception (by simp)
      · obtain rfl : answer = .raised (conflict message) := by simpa using hconflict
        exact absurd haccepted (by simp [StoreAnswer.isError])
    · exact absurd hcancelled (by simp [coordinatorPool])

/-- A state that was told is the row that a performed call left. -/
theorem row_of_performed (h : Reached kind host world) {delivered : Bool} {q : CoordinatorRequest}
    {call : StoreCall} {now : ℚ} {state : PreparedActionState}
    (hlog : world.log = before ++ .performed i delivered q (call, now) (.state state) :: after) :
    ∃ stored, (storeAfter kind host
          (before ++ [.performed i delivered q (call, now) (.state state)])).row
        (host.digest.sha256 call.handle) = some stored ∧
      stored.state = state ∧ stored.boundTo host call.owner = true ∧
      stored.isDue now = false ∧ ∀ handle owner expected target resultValue,
        call = .transition handle owner expected target resultValue →
          ∃ earlier, (storeAfter kind host before).row (host.digest.sha256 call.handle) =
              some earlier ∧
            earlier.record.status = expected ∧ expected.allows target = true ∧
            stored = earlier.moved target resultValue := by
  have hanswer := (performed_facts h hlog).2.2
  obtain ⟨stored, hrow, hrest⟩ := row_of_state hanswer
  refine ⟨stored, ?_, hrest⟩
  rw [storeAfter_append]
  exact hrow

/-- A transition that was performed found its action as expected, and moved it. -/
theorem moved_of_performed (h : Reached kind host world) {delivered : Bool}
    {q : CoordinatorRequest} {handle : String} {owner : Owner}
    {expected target : PreparedActionStatus} {resultValue : Json} {now : ℚ}
    {state : PreparedActionState}
    (hlog : world.log = before ++ .performed i delivered q
      (.transition handle owner expected target resultValue, now) (.state state) :: after) :
    ∃ stored, (storeAfter kind host before).row (host.digest.sha256 handle) = some stored ∧
      stored.record.status = expected ∧ stored.boundTo host owner = true ∧
      stored.isDue now = false ∧
      (storeAfter kind host (before ++ [.performed i delivered q
          (.transition handle owner expected target resultValue, now) (.state state)])).row
        (host.digest.sha256 handle) = some (stored.moved target resultValue) ∧
      (stored.moved target resultValue).state = state := by
  obtain ⟨moved, hrow, hstate, hbound, hlive, hmoved⟩ := row_of_performed h hlog
  obtain ⟨stored, hearlier, hstatus, -, rfl⟩ := hmoved _ _ _ _ _ rfl
  exact ⟨stored, hearlier, hstatus, hbound, hlive, hrow, hstate⟩

/-- The row of an earlier time is there later, as it was prepared. -/
theorem row_later (h : Reached kind host world) (hlog : world.log = before ++ after)
    {digest : String} {stored : StoredAction}
    (hrow : (storeAfter kind host before).row digest = some stored) :
    ∃ stored', world.object.row digest = some stored' ∧ stored'.prepared = stored.prepared := by
  rw [object_eq h, hlog, storeAfter_append]
  exact row_stays kind host _ hrow

/-- What a transition that was made left of its action. -/
theorem row_of_makes (h : Reached kind host world) {digest : String}
    {expected target : PreparedActionStatus} {entry : CoordinatorEntry}
    (hlog : world.log = before ++ entry :: after)
    (hmakes : Makes host digest i expected target entry) :
    ∃ stored resultValue, (storeAfter kind host before).row digest = some stored ∧
      stored.record.status = expected ∧
      (storeAfter kind host (before ++ [entry])).row digest =
        some (stored.moved target resultValue) := by
  obtain ⟨delivered, q, handle, owner, resultValue, now, state, rfl, rfl⟩ := hmakes
  obtain ⟨stored, hrow, hstatus, -, -, hmoved, -⟩ := moved_of_performed h hlog
  exact ⟨stored, resultValue, hrow, hstatus, hmoved⟩

end Log

/-! Runs from a list of moves. -/

abbrev CoordinatorMove (packs : Packs) := Pool.Move (CoordinatorCall packs) CoordinatorReply ℚ

/-- Replies that the outside is permitted for sure. -/
def surelyPermits : CoordinatorRequest → CoordinatorReply → Bool
  | .store _ _, _ => false
  | .verify _ expected, .granted grant => decide (grant.binding = expected)
  | _, _ => true

theorem permits_of_surely (kind : StoreKind) (q : CoordinatorRequest) (r : CoordinatorReply)
    (h : surelyPermits q r = true) : permits kind q r := by
  cases q with
  | store call shielded => simp [surelyPermits] at h
  | verify approvalHandle expected =>
    rintro grant rfl
    simpa [surelyPermits] using h
  | _ => trivial

def playMoves {packs : Packs} (kind : StoreKind) (host : StoreHost)
    (moves : List (CoordinatorMove packs)) : Option (CoordinatorWorld packs) :=
  Pool.playAll (coordinatorPool packs kind host) surelyPermits ⟨[], [], [], {}⟩ moves

theorem reached_of_playMoves {packs : Packs} {kind : StoreKind} {host : StoreHost}
    {moves : List (CoordinatorMove packs)} {world : CoordinatorWorld packs}
    (h : playMoves kind host moves = some world) : Reached kind host world :=
  Pool.reachable_of_playAll (permits_of_surely kind) .start h

/-- A task sends its next request, and the store answers it. -/
def stores {packs : Packs} (task : ℕ) (now : ℚ) : List (CoordinatorMove packs) :=
  [.send task, .perform task now]

/-- A task sends its next request, and the outside replies to it. -/
def replies {packs : Packs} (task : ℕ) (r : CoordinatorReply) : List (CoordinatorMove packs) :=
  [.send task, .outside task r]

/-! An order, its pack and its coordinator. -/

def orderCapability : ActionCapability where
  id := "order.submit"
  inputSchema := [("type", .str "object")]
  outputSchema := [("type", .str "object")]
  policy := "orders"
  evals := []
  action := ⟨.single, .notRequired, none⟩
  previewWorkflow := [.emit none (.str "$.input")]
  commitWorkflow :=
    [.call (some "order") "submit-order" [("id", .str "$.prepared.input.id")],
      .emit none (.str "$.steps.order")]

def orderDefinition (approvalRequired : Bool) : CompiledActionDefinition where
  capability := orderCapability
  proof :=
    { diagnostics := []
      mutationOperationIds := ["submit-order"]
      effects := ["create"]
      maximumRisk := some .medium
      requiredScopes := []
      approvalRequired := approvalRequired
      strategyOperationIds := [] }
  expiresInSeconds := 60
  risk := .medium
  proved := rfl
  mutates := by simp
  effectful := by simp
  maximumRisk := rfl
  approval := fun h => absurd h (by decide)

def orderPacks (approvalRequired : Bool) : Packs where
  definitions := fun _ => [("order.submit", orderDefinition approvalRequired)]
  keyed := by
    intro digest id definition h
    rw [Table.get?_cons] at h
    split at h
    · rename_i hid
      rw [← Option.some.inj h]
      exact hid
    · exact absurd h (by simp)

def orderCoordinator (approvalRequired : Bool) : Coordinator (orderPacks approvalRequired) where
  packDigest := alice.packDigest
  deployment := ⟨["create"], .medium, none, .required⟩
  schemas := ⟨fun _ => true, fun _ _ => true⟩
  sha256 := id
  resolvesOutcomes := true
  audit := some ⟨fun space value => space ++ ":" ++ value⟩
  audited := fun _ => rfl

def aliceCaller : CallerContext where
  principalId := "alice"
  targetSystemId := "orders"
  effectiveScopes := []
  tenantContext := none
  gatewaySessionId := some "session"

/-- The first task prepares the order, and its handle is told. -/
def prepareOrder (approvalRequired : Bool) : List (CoordinatorMove (orderPacks approvalRequired)) :=
  [.spawn (.prepare (orderCoordinator approvalRequired) "order.submit" [("id", .int 7)] aliceCaller
      (some "key") orderHandle)] ++
    replies 0 .emitted ++ replies 0 (.previewed { value := .obj [("id", .int 7)] }) ++
    stores 0 0 ++ (if approvalRequired then [] else stores 0 0) ++ replies 0 .emitted

/-- The record that the order is prepared with. -/
def orderRecord : PreparedActionRecord where
  handleDigest := orderHandle
  capabilityId := "order.submit"
  principalDigest := "principal:alice"
  sessionDigest := some "session:session"
  packDigest := alice.packDigest
  inputDigest := StoreHost.plain.jsonDigest (.obj [("id", .int 7)])
  previewDigest := StoreHost.plain.jsonDigest
    (sealPreview (.obj [("id", .int 7)]) .null "key" false .null)
  createdAt := 0
  expiresAt := 60
  status := .prepared
  lifetime := minute_pos

def orderGrant : ApprovalGrant where
  approvalDigest := "approval"
  binding := ApprovalBinding.fromRecord orderRecord
  approvedAt := 0
  expiresAt := 30
  lifetime := by decide
  together := rfl

/-- The second task approves the order. -/
def approveOrder : List (CoordinatorMove (orderPacks true)) :=
  [.spawn (.approve (orderCoordinator true) orderHandle "approval-handle" aliceCaller)] ++
    stores 1 1 ++ replies 1 .emitted ++ stores 1 1 ++ replies 1 (.granted orderGrant) ++
    stores 1 1 ++ replies 1 .emitted

/-- A task asks for a commit up to its request to the executor. -/
def beginOrder (approvalRequired : Bool) (task : ℕ) (now : ℚ) :
    List (CoordinatorMove (orderPacks approvalRequired)) :=
  [.spawn (.commit (orderCoordinator approvalRequired) orderHandle aliceCaller)] ++
    stores task now ++ replies task .emitted ++ stores task now ++ stores task now ++ [.send task]

end CapabilityCompiler.Actions
