import CapabilityCompiler.Foundation.Machine
import Mathlib.Data.Rat.Defs
import Mathlib.Algebra.Order.Ring.Rat
import Mathlib.Logic.Function.Basic

/-! The cached logins of the password strategy, and the calls that share them.
A critical section never suspends, so a call is one step up to the login it waits for, and one
step from there to its end. The history next to the state is only there to speak about runs. -/
namespace CapabilityCompiler.Auth
open Foundation

/-- What a login gives: the header value, and when it has to be renewed. -/
structure AuthenticationResult where
  authorization : Option String
  refreshAt : Option ℚ
deriving DecidableEq

/-- One generation-bound request attempt. The serial number tells apart the objects that are
issued; the source compares no more than the generations. -/
structure AuthAttempt (κ : Type) where
  stateKey : κ
  generation : ℕ
  authentication : AuthenticationResult
  serial : ℕ
deriving DecidableEq

structure BoundState (κ : Type) where
  attempt : Option (AuthAttempt κ)
  renewable : Bool
  reauthenticationRequired : Bool := false
deriving DecidableEq

/-- A login task: a cancelled one stops at the place it waits at. -/
inductive FlightStatus (κ : Type) where
  | running
  | cancelling
  | finished (attempt : Option (AuthAttempt κ))
deriving DecidableEq

structure InFlight (κ : Type) where
  key : κ
  waiters : ℕ
  status : FlightStatus κ
deriving DecidableEq

/-- `task.cancel()`, when the task is not done. -/
def InFlight.cancel {κ : Type} (flight : InFlight κ) : InFlight κ :=
  match flight.status with
  | .running => { flight with status := .cancelling }
  | _ => flight

/-- Environment credentials can be used again; a 401 may be retried only with them. -/
structure StrategyConfig where
  renewable : Bool
  retryOnUnauthorized : Bool

/-- The strategy, with every login it ever started; a flight is told by its place in the list. -/
structure Strategy (κ : Type) where
  closed : Bool
  states : κ → Option (BoundState κ)
  generations : κ → Option ℕ
  inflight : κ → Option ℕ
  flights : List (InFlight κ)

/-- A call that waits for a login, and the attempts that had been rejected when it started. -/
structure Waiting (κ : Type) where
  call : ℕ
  key : κ
  flight : ℕ
  avoid : List ℕ

/-- The strategy with the calls that wait; a call is told by how many had to wait before it. The
history: all attempts in the order of their issue, how many there were when a key was last
invalidated, and which ones were rejected. -/
structure AuthSystem (κ : Type) where
  strategy : Strategy κ
  waiting : List (Waiting κ)
  calls : ℕ
  issued : List (AuthAttempt κ)
  floor : κ → ℕ
  rejected : List ℕ

inductive AuthFailure where
  | configuration
  | unauthorized
  | attemptMismatch
  | loginFailed
  | cancelled
deriving DecidableEq

inductive AuthEvent (κ : Type) where
  | authorize (key : κ) (now : ℚ)
  | resume (call : ℕ)
  | cancel (call : ℕ)
  | onUnauthorized (key : κ) (failed : AuthAttempt κ)
  | bindState (key : κ) (result : AuthenticationResult)
  | invalidate (key : κ)
  | close
  | loggedIn (flight : ℕ) (result : AuthenticationResult)
  | loginEnds (flight : ℕ)
  | cleanup (flight : ℕ)

inductive AuthAnswer (κ : Type) where
  | handed (attempt : AuthAttempt κ)
  | refused (failure : AuthFailure)
  | waits
  | retry (again : Bool)
  | done
  | disabled
deriving DecidableEq

section
variable {κ : Type} [DecidableEq κ]

/-- `_result_is_fresh`. -/
def fresh (result : AuthenticationResult) (now : ℚ) : Bool :=
  match result.refreshAt with
  | none => true
  | some refreshAt => now < refreshAt

/-- `_retry_on_unauthorized`. -/
def StrategyConfig.retries (config : StrategyConfig) : Bool :=
  config.renewable && config.retryOnUnauthorized

namespace Strategy

def putState (s : Strategy κ) (key : κ) (state : Option (BoundState κ)) : Strategy κ :=
  { s with states := Function.update s.states key state }

def putFlight (s : Strategy κ) (flight : ℕ) (value : InFlight κ) : Strategy κ :=
  { s with flights := s.flights.set flight value }

def unregister (s : Strategy κ) (key : κ) : Strategy κ :=
  { s with inflight := Function.update s.inflight key none }

/-- What the cached state answers by itself; without an answer a login is needed. -/
def cached (s : Strategy κ) (key : κ) (now : ℚ) :
    Option (Except AuthFailure (AuthAttempt κ) × Strategy κ) :=
  match s.states key with
  | none => none
  | some state =>
    if state.reauthenticationRequired then some (.error .unauthorized, s)
    else
      match state.attempt with
      | none => none
      | some attempt =>
        if fresh attempt.authentication now then some (.ok attempt, s)
        else if state.renewable then none
        else some (.error .unauthorized,
          s.putState key (some { state with attempt := none, reauthenticationRequired := true }))

/-- Without credentials that can be used again there is no login. -/
def refuseLogin (s : Strategy κ) (key : κ) : Strategy κ :=
  match s.states key with
  | none => s.putState key
      (some { attempt := none, renewable := false, reauthenticationRequired := true })
  | some state =>
    s.putState key (some { state with attempt := none, reauthenticationRequired := true })

/-- The registered login of a key gets one more waiter; without one a login is started. -/
def join (s : Strategy κ) (key : κ) : ℕ × Strategy κ :=
  match s.inflight key with
  | some flight =>
    match s.flights[flight]? with
    | some value => (flight, s.putFlight flight { value with waiters := value.waiters + 1 })
    | none => (flight, s)
  | none =>
    (s.flights.length,
      { s with
        inflight := Function.update s.inflight key (some s.flights.length)
        flights := s.flights ++ [{ key, waiters := 1, status := .running }] })

/-- `_release_waiter`: the last waiter takes the login with it. -/
def releaseWaiter (s : Strategy κ) (key : κ) (flight : ℕ) : Strategy κ :=
  if s.closed then s
  else if s.inflight key ≠ some flight then s
  else
    match s.flights[flight]? with
    | none => s
    | some value =>
      if value.waiters - 1 = 0 then
        (s.unregister key).putFlight flight
          ({ value with waiters := value.waiters - 1 } : InFlight κ).cancel
      else s.putFlight flight { value with waiters := value.waiters - 1 }

/-- `_new_attempt`. -/
def newAttempt (s : Strategy κ) (key : κ) (result : AuthenticationResult) (serial : ℕ) :
    AuthAttempt κ × Strategy κ :=
  let generation := (s.generations key).getD 0 + 1
  ({ stateKey := key, generation, authentication := result, serial },
    { s with generations := Function.update s.generations key (some generation) })

/-- A new attempt, in the cache at once. -/
def bind (s : Strategy κ) (key : κ) (result : AuthenticationResult) (serial : ℕ)
    (renewable : Bool) : AuthAttempt κ × Strategy κ :=
  let (attempt, issuing) := s.newAttempt key result serial
  (attempt, issuing.putState key (some { attempt := some attempt, renewable }))

/-- `_unauthorized_outcome`. -/
def unauthorizedOutcome (config : StrategyConfig) (s : Strategy κ) (key : κ)
    (failed : AuthAttempt κ) : Except AuthFailure Bool × Strategy κ :=
  if s.closed then (.error .configuration, s)
  else if failed.stateKey ≠ key then (.error .attemptMismatch, s)
  else
    match s.states key with
    | none => (.ok config.retries, s)
    | some state =>
      match state.attempt with
      | none => (.ok (state.renewable && config.retries), s)
      | some attempt =>
        if attempt.generation ≠ failed.generation then
          (.ok (state.renewable && config.retries), s)
        else if state.renewable then (.ok config.retries, s.putState key none)
        else (.ok false,
          s.putState key (some { state with attempt := none, reauthenticationRequired := true }))

/-- `_invalidate_outcome`, up to the wait for the cancelled login. -/
def invalidate (s : Strategy κ) (key : κ) : Strategy κ :=
  if s.closed then s
  else
    let dropped : Strategy κ :=
      { s with
        states := Function.update s.states key none
        generations := Function.update s.generations key none
        inflight := Function.update s.inflight key none }
    match s.inflight key with
    | none => dropped
    | some flight =>
      match s.flights[flight]? with
      | none => dropped
      | some value => dropped.putFlight flight value.cancel

/-- The registered flights are cancelled. -/
def cancelRegistered (s : Strategy κ) : List (InFlight κ) :=
  s.flights.mapIdx fun flight value =>
    if s.inflight value.key = some flight then value.cancel else value

/-- `_close_outcome`, up to the wait for the cancelled logins; a second call finds nothing left. -/
def close (s : Strategy κ) : Strategy κ :=
  { closed := true
    states := fun _ => none
    generations := fun _ => none
    inflight := fun _ => none
    flights := s.cancelRegistered }

/-- The last step of `_renew_state` after a successful login. -/
def renewed (s : Strategy κ) (flight : ℕ) (value : InFlight κ) (result : AuthenticationResult)
    (serial : ℕ) : Option (AuthAttempt κ) × Strategy κ :=
  if s.closed then (none, s.putFlight flight { value with status := .finished none })
  else
    let (attempt, bound) := s.bind value.key result serial true
    (some attempt, bound.putFlight flight { value with status := .finished (some attempt) })

/-- `_cleanup_completed_flight`. -/
def cleanup (s : Strategy κ) (flight : ℕ) (value : InFlight κ) : Strategy κ :=
  if s.closed then s
  else if s.inflight value.key = some flight ∧ value.waiters = 0 then s.unregister value.key
  else s

end Strategy

namespace AuthSystem

def initial : AuthSystem κ where
  strategy :=
    { closed := false
      states := fun _ => none
      generations := fun _ => none
      inflight := fun _ => none
      flights := [] }
  waiting := []
  calls := 0
  issued := []
  floor := fun _ => 0
  rejected := []

def outcome : Option (AuthAttempt κ) → AuthAnswer κ
  | some attempt => .handed attempt
  | none => .refused .loginFailed

/-- A login that is done already is not waited for. -/
def share (s : AuthSystem κ) (key : κ) : AuthAnswer κ × AuthSystem κ :=
  let (flight, joined) := s.strategy.join key
  match joined.flights[flight]?.map InFlight.status with
  | some (.finished attempt) =>
    (outcome attempt, { s with strategy := joined.releaseWaiter key flight })
  | _ =>
    (.waits,
      { s with
        strategy := joined
        waiting := { call := s.calls, key, flight, avoid := s.rejected } :: s.waiting
        calls := s.calls + 1 })

/-- `_authorize_outcome`. -/
def authorize (config : StrategyConfig) (s : AuthSystem κ) (key : κ) (now : ℚ) :
    AuthAnswer κ × AuthSystem κ :=
  if s.strategy.closed then (.refused .configuration, s)
  else
    match s.strategy.cached key now with
    | some (.ok attempt, strategy) => (.handed attempt, { s with strategy })
    | some (.error failure, strategy) => (.refused failure, { s with strategy })
    | none =>
      if config.renewable then s.share key
      else (.refused .unauthorized, { s with strategy := s.strategy.refuseLogin key })

/-- A call stops to wait. -/
def leave (s : AuthSystem κ) (waiting : Waiting κ) : AuthSystem κ :=
  { s with
    strategy := s.strategy.releaseWaiter waiting.key waiting.flight
    waiting := s.waiting.filter (·.call ≠ waiting.call) }

def resume (s : AuthSystem κ) (call : ℕ) : AuthAnswer κ × AuthSystem κ :=
  match s.waiting.find? (·.call = call) with
  | none => (.disabled, s)
  | some waiting =>
    match s.strategy.flights[waiting.flight]?.map InFlight.status with
    | some (.finished attempt) => (outcome attempt, s.leave waiting)
    | _ => (.disabled, s)

/-- A waiting call is cancelled; the login is shielded from that. -/
def cancel (s : AuthSystem κ) (call : ℕ) : AuthAnswer κ × AuthSystem κ :=
  match s.waiting.find? (·.call = call) with
  | none => (.disabled, s)
  | some waiting => (.refused .cancelled, s.leave waiting)

/-- Only an attempt that was issued is ever fed back. -/
def onUnauthorized (config : StrategyConfig) (s : AuthSystem κ) (key : κ)
    (failed : AuthAttempt κ) : AuthAnswer κ × AuthSystem κ :=
  if failed ∉ s.issued then (.disabled, s)
  else
    match s.strategy.unauthorizedOutcome config key failed with
    | (.error failure, strategy) => (.refused failure, { s with strategy })
    | (.ok again, strategy) =>
      (.retry again,
        { s with
          strategy
          rejected := if again then failed.serial :: s.rejected else s.rejected })

/-- `_bind_state_outcome`. -/
def bindState (config : StrategyConfig) (s : AuthSystem κ) (key : κ)
    (result : AuthenticationResult) : AuthAnswer κ × AuthSystem κ :=
  if s.strategy.closed then (.refused .configuration, s)
  else
    let (attempt, strategy) := s.strategy.bind key result s.issued.length config.renewable
    (.done, { s with strategy, issued := s.issued ++ [attempt] })

/-- A login that was not cancelled succeeds. -/
def loggedIn (s : AuthSystem κ) (flight : ℕ) (result : AuthenticationResult) :
    AuthAnswer κ × AuthSystem κ :=
  match s.strategy.flights[flight]? with
  | none => (.disabled, s)
  | some value =>
    if value.status = .running then
      let (attempt, strategy) := s.strategy.renewed flight value result s.issued.length
      (.done, { s with strategy, issued := s.issued ++ attempt.toList })
    else (.disabled, s)

/-- A login fails, or stops because it was cancelled. -/
def loginEnds (s : AuthSystem κ) (flight : ℕ) : AuthAnswer κ × AuthSystem κ :=
  match s.strategy.flights[flight]? with
  | none => (.disabled, s)
  | some value =>
    match value.status with
    | .finished _ => (.disabled, s)
    | _ =>
      (.done, { s with
        strategy := s.strategy.putFlight flight { value with status := .finished none } })

def cleanup (s : AuthSystem κ) (flight : ℕ) : AuthAnswer κ × AuthSystem κ :=
  match s.strategy.flights[flight]? with
  | none => (.disabled, s)
  | some value =>
    match value.status with
    | .finished _ => (.done, { s with strategy := s.strategy.cleanup flight value })
    | _ => (.disabled, s)

def step (config : StrategyConfig) (s : AuthSystem κ) :
    AuthEvent κ → AuthAnswer κ × AuthSystem κ
  | .authorize key now => s.authorize config key now
  | .resume call => s.resume call
  | .cancel call => s.cancel call
  | .onUnauthorized key failed => s.onUnauthorized config key failed
  | .bindState key result => s.bindState config key result
  | .invalidate key =>
    (.done,
      { s with
        strategy := s.strategy.invalidate key
        floor := Function.update s.floor key s.issued.length })
  | .close => (.done, { s with strategy := s.strategy.close, floor := fun _ => s.issued.length })
  | .loggedIn flight result => s.loggedIn flight result
  | .loginEnds flight => s.loginEnds flight
  | .cleanup flight => s.cleanup flight

/-! What the steps can do. -/
section cases
variable {config : StrategyConfig} (s : AuthSystem κ)

theorem authorize_cases (config : StrategyConfig) (key : κ) (now : ℚ) :
    (s.strategy.closed = true ∧ s.authorize config key now = (.refused .configuration, s)) ∨
    s.strategy.closed = false ∧
      ((∃ attempt strategy, s.strategy.cached key now = some (.ok attempt, strategy) ∧
          s.authorize config key now = (.handed attempt, { s with strategy })) ∨
        (∃ failure strategy, s.strategy.cached key now = some (.error failure, strategy) ∧
          s.authorize config key now = (.refused failure, { s with strategy })) ∨
        s.strategy.cached key now = none ∧
          (config.renewable = true ∧ s.authorize config key now = s.share key ∨
            config.renewable = false ∧ s.authorize config key now =
              (.refused .unauthorized, { s with strategy := s.strategy.refuseLogin key }))) := by
  unfold authorize
  cases hclosed : s.strategy.closed with
  | true => exact .inl ⟨rfl, if_pos rfl⟩
  | false =>
    refine .inr ⟨rfl, ?_⟩
    rw [if_neg Bool.false_ne_true]
    cases hcached : s.strategy.cached key now with
    | some answer =>
      obtain ⟨failure | attempt, strategy⟩ := answer
      · exact .inr (.inl ⟨failure, strategy, rfl, rfl⟩)
      · exact .inl ⟨attempt, strategy, rfl, rfl⟩
    | none =>
      refine .inr (.inr ⟨rfl, ?_⟩)
      cases hrenewable : config.renewable with
      | true => exact .inl ⟨rfl, if_pos rfl⟩
      | false => exact .inr ⟨rfl, if_neg Bool.false_ne_true⟩

theorem resume_cases (call : ℕ) :
    s.resume call = (.disabled, s) ∨
    ∃ waiting attempt, s.waiting.find? (·.call = call) = some waiting ∧
      s.strategy.flights[waiting.flight]?.map InFlight.status = some (.finished attempt) ∧
      s.resume call = (outcome attempt, s.leave waiting) := by
  unfold resume
  cases hfound : s.waiting.find? (·.call = call) with
  | none => exact .inl rfl
  | some waiting =>
    dsimp only
    split
    · rename_i attempt hstatus
      exact .inr ⟨waiting, attempt, rfl, hstatus, rfl⟩
    · exact .inl rfl

theorem cancel_cases (call : ℕ) :
    s.cancel call = (.disabled, s) ∨
    ∃ waiting, s.waiting.find? (·.call = call) = some waiting ∧
      s.cancel call = (.refused .cancelled, s.leave waiting) := by
  unfold cancel
  cases s.waiting.find? (·.call = call) with
  | none => exact .inl rfl
  | some waiting => exact .inr ⟨waiting, rfl, rfl⟩

theorem onUnauthorized_cases (config : StrategyConfig) (key : κ) (failed : AuthAttempt κ) :
    (failed ∉ s.issued ∧ s.onUnauthorized config key failed = (.disabled, s)) ∨
    failed ∈ s.issued ∧
      ((∃ failure, (s.strategy.unauthorizedOutcome config key failed).1 = .error failure ∧
          s.onUnauthorized config key failed = (.refused failure,
            { s with strategy := (s.strategy.unauthorizedOutcome config key failed).2 })) ∨
        ∃ again, (s.strategy.unauthorizedOutcome config key failed).1 = .ok again ∧
          s.onUnauthorized config key failed = (.retry again,
            { s with
              strategy := (s.strategy.unauthorizedOutcome config key failed).2
              rejected := if again then failed.serial :: s.rejected else s.rejected })) := by
  unfold onUnauthorized
  by_cases hissued : failed ∈ s.issued
  · rw [if_neg (not_not.mpr hissued)]
    refine .inr ⟨hissued, ?_⟩
    rcases s.strategy.unauthorizedOutcome config key failed with ⟨failure | again, strategy⟩
    · exact .inl ⟨failure, rfl, rfl⟩
    · exact .inr ⟨again, rfl, rfl⟩
  · exact .inl ⟨hissued, if_pos hissued⟩

theorem bindState_cases (config : StrategyConfig) (key : κ) (result : AuthenticationResult) :
    (s.bindState config key result).2 = s ∨
    ∃ attempt bound, s.strategy.closed = false ∧
      s.strategy.bind key result s.issued.length config.renewable = (attempt, bound) ∧
      (s.bindState config key result).2 =
        { s with strategy := bound, issued := s.issued ++ [attempt] } := by
  unfold bindState
  cases s.strategy.closed with
  | true => exact .inl rfl
  | false => exact .inr ⟨_, _, rfl, rfl, rfl⟩

theorem loggedIn_cases (flight : ℕ) (result : AuthenticationResult) :
    (s.loggedIn flight result).2 = s ∨
    ∃ value, s.strategy.flights[flight]? = some value ∧ value.status = .running ∧
      (s.strategy.closed = true ∧ (s.loggedIn flight result).2 =
          { s with
            strategy := s.strategy.putFlight flight { value with status := .finished none } } ∨
        ∃ attempt bound, s.strategy.closed = false ∧
          s.strategy.bind value.key result s.issued.length true = (attempt, bound) ∧
          (s.loggedIn flight result).2 =
            { s with
              strategy := bound.putFlight flight { value with status := .finished (some attempt) }
              issued := s.issued ++ [attempt] }) := by
  unfold loggedIn
  cases hvalue : s.strategy.flights[flight]? with
  | none => exact .inl rfl
  | some value =>
    by_cases hrunning : value.status = .running
    · refine .inr ⟨value, rfl, hrunning, ?_⟩
      simp only [if_pos hrunning, Strategy.renewed]
      cases s.strategy.closed with
      | true => simp
      | false => exact .inr ⟨_, _, rfl, rfl, rfl⟩
    · simp only [if_neg hrunning]
      exact .inl trivial

omit [DecidableEq κ] in
theorem loginEnds_cases (flight : ℕ) :
    (s.loginEnds flight).2 = s ∨
    ∃ value, s.strategy.flights[flight]? = some value ∧
      (s.loginEnds flight).2 =
        { s with
          strategy := s.strategy.putFlight flight { value with status := .finished none } } := by
  unfold loginEnds
  cases s.strategy.flights[flight]? with
  | none => exact .inl rfl
  | some value =>
    dsimp only
    split
    · exact .inl rfl
    · exact .inr ⟨value, rfl, rfl⟩

theorem cleanup_cases (flight : ℕ) :
    (s.cleanup flight).2 = s ∨
    ∃ value attempt, s.strategy.flights[flight]? = some value ∧
      value.status = .finished attempt ∧ s.strategy.inflight value.key = some flight ∧
      (s.cleanup flight).2 = { s with strategy := s.strategy.unregister value.key } := by
  unfold cleanup
  cases s.strategy.flights[flight]? with
  | none => exact .inl rfl
  | some value =>
    dsimp only
    split
    · rename_i attempt hstatus
      unfold Strategy.cleanup
      split_ifs with hclosed hfree
      · exact .inl rfl
      · exact .inr ⟨value, attempt, rfl, hstatus, hfree.1, rfl⟩
      · exact .inl rfl
    · exact .inl rfl

end cases

end AuthSystem

end

end CapabilityCompiler.Auth
