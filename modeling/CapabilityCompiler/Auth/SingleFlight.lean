import CapabilityCompiler.Auth.Registration

/-! Logins are shared: of the logins of a key at most one was not cancelled, only its last waiter
takes it away, and what was started before an invalidation does not write. -/
namespace CapabilityCompiler.Auth
open Foundation

variable {κ : Type} {config : StrategyConfig}

/-- Logins keep their place and their key, and none starts to run again. -/
def Ages (old new : List (InFlight κ)) : Prop :=
  ∀ (f : ℕ) (v : InFlight κ), old[f]? = some v → ∃ u : InFlight κ, new[f]? = some u ∧
    u.key = v.key ∧ (u.status = .running → v.status = .running)

namespace Ages
variable {old new : List (InFlight κ)}

theorem refl (old : List (InFlight κ)) : Ages old old :=
  fun _ v hv => ⟨v, hv, rfl, id⟩

theorem trans {last : List (InFlight κ)} (h : Ages old new) (h' : Ages new last) :
    Ages old last := by
  intro f v hv
  obtain ⟨u, hu, hkey, hrunning⟩ := h f v hv
  obtain ⟨x, hx, hxkey, hxrunning⟩ := h' f u hu
  exact ⟨x, hx, hxkey.trans hkey, fun hrun => hrunning (hxrunning hrun)⟩

theorem of_eq (h : new = old) : Ages old new := h ▸ .refl old

theorem append (old : List (InFlight κ)) (v : InFlight κ) : Ages old (old ++ [v]) := by
  intro f u hu
  have hf := (List.getElem?_eq_some_iff.mp hu).1
  exact ⟨u, by rw [List.getElem?_append_left hf, hu], rfl, id⟩

theorem set {f : ℕ} {v u : InFlight κ} (hv : old[f]? = some v) (hkey : u.key = v.key)
    (hrunning : u.status = .running → v.status = .running) : Ages old (old.set f u) := by
  intro g x hx
  by_cases hg : f = g
  · subst hg
    obtain rfl : v = x := Option.some.inj (hv.symm.trans hx)
    exact ⟨u, getElem?_set_self_of_some hv, hkey, hrunning⟩
  · exact ⟨x, (getElem?_set_of_ne hg).trans hx, rfl, id⟩

theorem cancel {f : ℕ} {v u : InFlight κ} (hv : old[f]? = some v) (hkey : u.key = v.key) :
    Ages old (old.set f u.cancel) :=
  .set hv ((cancel_key u).trans hkey) fun hrunning => absurd hrunning (cancel_status_ne_running u)

end Ages

theorem ages_close (s : Strategy κ) : Ages s.flights s.close.flights := by
  intro f v hv
  refine ⟨if s.inflight v.key = some f then v.cancel else v, ?_, ?_, ?_⟩
  · show s.cancelRegistered[f]? = _
    rw [Strategy.cancelRegistered, List.getElem?_mapIdx, hv, Option.map_some]
  · split_ifs
    · exact cancel_key v
    · rfl
  · split_ifs
    · exact fun hrunning => absurd hrunning (cancel_status_ne_running v)
    · exact id

theorem ages_loginEnds (s : AuthSystem κ) (f : ℕ) :
    Ages s.strategy.flights (s.loginEnds f).2.strategy.flights := by
  rcases s.loginEnds_cases f with hsame | ⟨v, hv, hends⟩
  · exact .of_eq (by rw [hsame])
  · rw [hends]
    refine .set hv rfl fun hrunning => ?_
    cases hrunning

section stopped
variable [DecidableEq κ] {s : AuthSystem κ}

/-- A cancelled waiter leaves the logins of the others as they are. -/
theorem status_releaseWaiter (h : Registered config s) {w x : Waiting κ} (hw : w ∈ s.waiting)
    (hx : x ∈ s.waiting) (hne : x.call ≠ w.call) :
    (s.strategy.releaseWaiter w.key w.flight).flights[x.flight]?.map InFlight.status =
      s.strategy.flights[x.flight]?.map InFlight.status := by
  rcases releaseWaiter_cases s.strategy w.key w.flight with
    ⟨hsame, -⟩ | ⟨v, hregistered, hv, ⟨hlast, hrelease⟩ | ⟨-, hrelease⟩⟩
  · rw [hsame]
  · rw [hrelease]
    have hother : w.flight ≠ x.flight := by
      intro heq
      obtain ⟨u, hu, -, -, hcount⟩ := h.flight w.key w.flight hregistered
      obtain rfl : v = u := Option.some.inj (hv.symm.trans hu)
      rw [(perm_cons_filter h.distinct hw).countP_eq, List.countP_cons_of_pos (by simp)] at hcount
      have hpos : 0 < (s.waiting.filter (·.call ≠ w.call)).countP (·.flight = w.flight) := by
        rw [List.countP_pos_iff]
        exact ⟨x, List.mem_filter.mpr ⟨hx, by simpa using hne⟩, by simpa using heq.symm⟩
      omega
    show (s.strategy.flights.set w.flight _)[x.flight]?.map InFlight.status = _
    rw [getElem?_set_of_ne hother]
  · rw [hrelease]
    show (s.strategy.flights.set w.flight _)[x.flight]?.map InFlight.status = _
    by_cases hsame : w.flight = x.flight
    · rw [← hsame, getElem?_set_self_of_some hv, hv]
      rfl
    · rw [getElem?_set_of_ne hsame]

/-- The states of a key change only by a login of the key that runs. -/
theorem states_loggedIn {f : ℕ} {key : κ} (result : AuthenticationResult)
    (h : ∀ v, s.strategy.flights[f]? = some v → v.key = key → v.status ≠ .running) :
    (s.loggedIn f result).2.strategy.states key = s.strategy.states key := by
  rcases s.loggedIn_cases f result with
    hsame | ⟨v, hv, hrunning, ⟨-, hlogged⟩ | ⟨attempt, bound, -, hbind, hlogged⟩⟩
  · rw [hsame]
  · rw [hlogged]
    rfl
  · rw [hlogged]
    have hne : key ≠ v.key := fun heq => h v hv heq.symm hrunning
    obtain rfl : (s.strategy.bind v.key result s.issued.length true).2 = bound := by rw [hbind]
    exact Function.update_of_ne hne _ _

theorem ages_releaseWaiter (s : Strategy κ) (key : κ) (f : ℕ) :
    Ages s.flights (s.releaseWaiter key f).flights := by
  rcases releaseWaiter_cases s key f with ⟨hsame, -⟩ | ⟨v, -, hv, ⟨-, hrelease⟩ | ⟨-, hrelease⟩⟩
  · rw [hsame]
    exact .refl _
  · rw [hrelease]
    exact .cancel hv rfl
  · rw [hrelease]
    exact .set hv rfl id

theorem ages_invalidate (s : Strategy κ) (key : κ) : Ages s.flights (s.invalidate key).flights := by
  rcases invalidate_cases s key with ⟨-, hsame⟩ | ⟨-, -, ⟨-, hsame⟩ | ⟨f, v, -, hv, hsame⟩⟩
  · rw [hsame]
    exact .refl _
  · exact .of_eq hsame.flights
  · rw [hsame.flights]
    exact .cancel hv rfl

theorem ages_loggedIn (s : AuthSystem κ) (f : ℕ) (result : AuthenticationResult) :
    Ages s.strategy.flights (s.loggedIn f result).2.strategy.flights := by
  rcases s.loggedIn_cases f result with
    hsame | ⟨v, hv, hrunning, ⟨-, hlogged⟩ | ⟨attempt, bound, -, hbind, hlogged⟩⟩
  · exact .of_eq (by rw [hsame])
  · rw [hlogged]
    exact .set hv rfl fun _ => hrunning
  · rw [hlogged]
    obtain rfl : (s.strategy.bind v.key result s.issued.length true).2 = bound := by rw [hbind]
    exact .set hv rfl fun _ => hrunning

theorem ages_cleanup (s : AuthSystem κ) (f : ℕ) :
    Ages s.strategy.flights (s.cleanup f).2.strategy.flights := by
  rcases s.cleanup_cases f with hsame | ⟨v, attempt, -, -, -, hcleanup⟩
  · exact .of_eq (by rw [hsame])
  · exact .of_eq (by rw [hcleanup]; rfl)

theorem ages_authorize (h : Registered config s) (key : κ) (now : ℚ) :
    Ages s.strategy.flights (s.authorize config key now).2.strategy.flights := by
  rcases s.authorize_cases config key now with ⟨-, hauthorize⟩ | ⟨-,
    ⟨attempt, strategy, hcached, hauthorize⟩ | ⟨failure, strategy, hcached, hauthorize⟩ |
      ⟨-, ⟨-, hauthorize⟩ | ⟨-, hauthorize⟩⟩⟩
  · exact .of_eq (by rw [hauthorize])
  · rw [hauthorize]
    exact .of_eq (sameFlights_cached hcached).flights
  · rw [hauthorize]
    exact .of_eq (sameFlights_cached hcached).flights
  · rw [hauthorize]
    rcases h.share_cases key with
      ⟨-, hshare⟩ | ⟨f, v, -, hv, ⟨-, hshare⟩ | ⟨attempt, -, -, hshare | hshare⟩⟩
    · rw [hshare]
      exact .append _ _
    · rw [hshare]
      exact .set hv rfl id
    · exact .of_eq (by rw [hshare]; rfl)
    · exact .of_eq (by rw [hshare])
  · rw [hauthorize]
    exact .of_eq (sameFlights_refuseLogin _ _).flights

/-- What a step does to the logins that there are. -/
theorem Registered.ages_step (h : Registered config s) (event : AuthEvent κ) :
    Ages s.strategy.flights (s.step config event).2.strategy.flights := by
  cases event with
  | authorize key now => exact ages_authorize h key now
  | resume call =>
    show Ages s.strategy.flights (s.resume call).2.strategy.flights
    rcases s.resume_cases call with hresume | ⟨w, attempt, -, -, hresume⟩
    · exact .of_eq (by rw [hresume])
    · rw [hresume]
      exact ages_releaseWaiter _ _ _
  | cancel call =>
    show Ages s.strategy.flights (s.cancel call).2.strategy.flights
    rcases s.cancel_cases call with hcancel | ⟨w, -, hcancel⟩
    · exact .of_eq (by rw [hcancel])
    · rw [hcancel]
      exact ages_releaseWaiter _ _ _
  | onUnauthorized key failed =>
    have hsame := (sameFlights_unauthorizedOutcome config s.strategy key failed).flights
    show Ages s.strategy.flights (s.onUnauthorized config key failed).2.strategy.flights
    rcases s.onUnauthorized_cases config key failed with
      ⟨-, hanswer⟩ | ⟨-, ⟨failure, -, hanswer⟩ | ⟨again, -, hanswer⟩⟩
    · exact .of_eq (by rw [hanswer])
    · rw [hanswer]
      exact .of_eq hsame
    · rw [hanswer]
      exact .of_eq hsame
  | bindState key result =>
    show Ages s.strategy.flights (s.bindState config key result).2.strategy.flights
    rcases s.bindState_cases config key result with hsame | ⟨attempt, bound, -, hbind, hbound⟩
    · exact .of_eq (by rw [hsame])
    · rw [hbound]
      exact .of_eq (sameFlights_bind hbind).flights
  | invalidate key => exact ages_invalidate s.strategy key
  | close => exact ages_close s.strategy
  | loggedIn f result => exact ages_loggedIn s f result
  | loginEnds f => exact ages_loginEnds s f
  | cleanup f => exact ages_cleanup s f

/-- What later events do to the logins that there are. -/
theorem Registered.ages_after (h : Registered config s) (events : List (AuthEvent κ)) :
    Ages s.strategy.flights
      (Machine.after (AuthSystem.step config) s events).strategy.flights := by
  let Later (t : AuthSystem κ) : Prop :=
    Registered config t ∧ Ages s.strategy.flights t.strategy.flights
  have hstep (t : AuthSystem κ) (event : AuthEvent κ) (ht : Later t) :
      Later (t.step config event).2 :=
    ⟨ht.1.step event, ht.2.trans (ht.1.ages_step event)⟩
  have hlater := Machine.invariant (P := Later) hstep ⟨h, .refl _⟩ events
  exact hlater.2

/-- The events that are steps of one login. -/
def AuthEvent.login : AuthEvent κ → Option ℕ
  | .loggedIn flight _ => some flight
  | .loginEnds flight => some flight
  | .cleanup flight => some flight
  | _ => none

/-- After an invalidation of a key, or when the strategy is closed, no login of the key runs. -/
theorem Registered.not_running_of_stopped (h : Registered config s) {key : κ} {stop : AuthEvent κ}
    (hstop : stop = .invalidate key ∨ stop = .close) {f : ℕ} {v : InFlight κ}
    (hv : (s.step config stop).2.strategy.flights[f]? = some v) (hkey : v.key = key) :
    v.status ≠ .running := by
  intro hrunning
  have hregistered := (h.step stop).running f v hv hrunning
  have hnone : (s.step config stop).2.strategy.inflight key = none := by
    rcases hstop with rfl | rfl
    · show (s.strategy.invalidate key).inflight key = none
      rcases invalidate_cases s.strategy key with
        ⟨hclosed, hsame⟩ | ⟨-, -, ⟨-, hsame⟩ | ⟨f, v, -, -, hsame⟩⟩
      · rw [hsame]
        exact h.closed hclosed key
      · rw [hsame.inflight]
        exact Function.update_self _ _ _
      · rw [hsame.inflight]
        exact Function.update_self _ _ _
    · rfl
  rw [hkey, hnone] at hregistered
  cases hregistered

/-- A login that started before the key was invalidated does not write for it. -/
theorem Registered.states_of_stopped (h : Registered config s) {key : κ} {stop : AuthEvent κ}
    (hstop : stop = .invalidate key ∨ stop = .close) {f : ℕ}
    (hf : f < s.strategy.flights.length) (events : List (AuthEvent κ)) {event : AuthEvent κ}
    (hevent : event.login = some f) {t : AuthSystem κ}
    (ht : t = Machine.after (AuthSystem.step config) (s.step config stop).2 events) :
    (t.step config event).2.strategy.states key = t.strategy.states key := by
  obtain ⟨x, hx, -⟩ := h.ages_step stop f s.strategy.flights[f] (List.getElem?_eq_getElem hf)
  obtain ⟨y, hy, hkey, hrunning⟩ := (h.step stop).ages_after events f x hx
  have hquiet (v : InFlight κ) (hv : t.strategy.flights[f]? = some v) (hvkey : v.key = key) :
      v.status ≠ .running := by
    obtain rfl : v = y := by
      rw [ht, hy] at hv
      exact (Option.some.inj hv).symm
    intro hrun
    exact h.not_running_of_stopped hstop hx (hkey.symm.trans hvkey) (hrunning hrun)
  cases event with
  | loggedIn g result =>
    obtain rfl : g = f := Option.some.inj hevent
    exact states_loggedIn result hquiet
  | loginEnds g =>
    show (t.loginEnds g).2.strategy.states key = _
    rcases t.loginEnds_cases g with hsame | ⟨v, -, hends⟩
    · rw [hsame]
    · rw [hends]
      rfl
  | cleanup g =>
    show (t.cleanup g).2.strategy.states key = _
    rcases t.cleanup_cases g with hsame | ⟨v, attempt, -, -, -, hcleanup⟩
    · rw [hsame]
    · rw [hcleanup]
      rfl
  | _ => cases hevent

/-- In every run, at most one login of a key is in flight without having been cancelled, a waiter
that is cancelled leaves the logins of the others as they are, and after an invalidation or a close
no login that was started before writes for the key. -/
theorem logins_shared (config : StrategyConfig) (before : List (AuthEvent κ)) :
    let s := AuthSystem.reached config before
    (∀ (f g : ℕ) (u v : InFlight κ), s.strategy.flights[f]? = some u → s.strategy.flights[g]? = some v →
      u.key = v.key → u.status = .running → v.status = .running → f = g) ∧
    (∀ call, ∀ w ∈ s.waiting, w.call ≠ call →
      let t := (s.step config (.cancel call)).2
      w ∈ t.waiting ∧ t.strategy.flights[w.flight]?.map InFlight.status =
        s.strategy.flights[w.flight]?.map InFlight.status) ∧
    ∀ key stop, stop = .invalidate key ∨ stop = .close → ∀ f < s.strategy.flights.length,
      ∀ later event, event.login = some f →
        let t := AuthSystem.reached config (before ++ stop :: later)
        (t.step config event).2.strategy.states key = t.strategy.states key := by
  intro s
  have h : Registered config s := registered_reached before
  refine ⟨?_, ?_, ?_⟩
  · intro f g u v hu hv hkey hurunning hvrunning
    have hfirst := h.running f u hu hurunning
    have hsecond := h.running g v hv hvrunning
    rw [hkey, hsecond] at hfirst
    exact (Option.some.inj hfirst).symm
  · intro call w hw hne
    show w ∈ (s.cancel call).2.waiting ∧
      (s.cancel call).2.strategy.flights[w.flight]?.map InFlight.status = _
    rcases s.cancel_cases call with hcancel | ⟨x, hfound, hcancel⟩
    · rw [hcancel]
      exact ⟨hw, rfl⟩
    · have hx := List.mem_of_find?_eq_some hfound
      have hxcall : x.call = call := by simpa using List.find?_some hfound
      have hne : w.call ≠ x.call := hxcall.symm ▸ hne
      rw [hcancel]
      exact ⟨List.mem_filter.mpr ⟨hw, by simpa using hne⟩, status_releaseWaiter h hx hw hne⟩
  · intro key stop hstop f hf later event hevent
    refine h.states_of_stopped hstop hf later hevent ?_
    exact Machine.after_append _ before (stop :: later)

end stopped

/-- A login is over when it gave a result or failed. -/
def InFlight.unfinished {κ : Type} (flight : InFlight κ) : Bool :=
  match flight.status with
  | .finished _ => false
  | _ => true

/-- A login that was cancelled has not stopped when the next one of its key starts. -/
theorem cancelled_login_overlaps : ¬ ∀ (config : StrategyConfig) (events : List (AuthEvent ℕ)),
    let s := AuthSystem.reached config events
    ∀ (f g : ℕ) (u v : InFlight ℕ), s.strategy.flights[f]? = some u → s.strategy.flights[g]? = some v →
      u.key = v.key → u.unfinished = true → v.unfinished = true → f = g := by
  intro h
  have hsame := h ⟨true, true⟩ [.authorize 7 0, .cancel 0, .authorize 7 0] 0 1
    { key := 7, waiters := 0, status := .cancelling } { key := 7, waiters := 1, status := .running }
    (by decide) (by decide) rfl rfl rfl
  cases hsame

end CapabilityCompiler.Auth
