import CapabilityCompiler.Auth.Registration

/-! Rejected attempts. A generation number is used again after its key was invalidated, and a login
that is done may still be registered; up to these two, a late 401 takes no newer state away, and a
rejected attempt is not handed out again. -/
namespace CapabilityCompiler.Auth
open Foundation

variable {κ : Type} {config : StrategyConfig}

/-- The attempt in the cache. -/
def Strategy.cachedAttempt (s : Strategy κ) (key : κ) : Option (AuthAttempt κ) :=
  (s.states key).bind BoundState.attempt

/-- The login is done and gave the attempt. -/
def Gave (flights : List (InFlight κ)) (f : ℕ) (attempt : AuthAttempt κ) : Prop :=
  flights[f]?.map InFlight.status = some (.finished (some attempt))

section
variable [DecidableEq κ]

/-- A 401 takes only the attempt away that it is about, and no call is handed an attempt that had
been rejected when it started. -/
def Harmless (config : StrategyConfig) (s : AuthSystem κ) : AuthEvent κ → Prop
  | .authorize key now =>
    ∀ attempt, (s.authorize config key now).1 = .handed attempt → attempt.serial ∉ s.rejected
  | .resume call => ∀ waiting (attempt : AuthAttempt κ), s.waiting.find? (·.call = call) = some waiting →
    (s.resume call).1 = .handed attempt → attempt.serial ∉ waiting.avoid
  | .onUnauthorized key failed => ∀ other attempt,
    s.strategy.cachedAttempt other = some attempt →
    (s.onUnauthorized config key failed).2.strategy.cachedAttempt other = some attempt ∨
      attempt = failed
  | _ => True

/-- A 401 that meets its generation number meets its generation, and a login that is done but still
registered did not give an attempt that is rejected now. -/
def Meets (s : AuthSystem κ) : AuthEvent κ → Prop
  | .authorize key now => s.strategy.cached key now = none →
    ∀ f (attempt : AuthAttempt κ), s.strategy.inflight key = some f →
      Gave s.strategy.flights f attempt → attempt.serial ∉ s.rejected
  | .onUnauthorized key failed => failed ∈ s.issued → failed.stateKey = key →
    ∀ attempt, s.strategy.cachedAttempt key = some attempt →
      attempt.generation = failed.generation → s.floor key ≤ failed.serial
  | _ => True

end

/-- The attempts of a key since its last invalidation are told apart by their generations, and the
cached one is one of them. -/
structure Generations (s : AuthSystem κ) : Prop where
  serial : ∀ (i : ℕ) (attempt : AuthAttempt κ), s.issued[i]? = some attempt → attempt.serial = i
  floor : ∀ key, s.floor key ≤ s.issued.length
  generation : ∀ a ∈ s.issued, s.floor a.stateKey ≤ a.serial →
    ∃ last, s.strategy.generations a.stateKey = some last ∧ a.generation ≤ last
  distinct : ∀ a ∈ s.issued, ∀ b ∈ s.issued, a.stateKey = b.stateKey →
    s.floor a.stateKey ≤ a.serial → s.floor b.stateKey ≤ b.serial →
    a.generation = b.generation → a = b
  cached : ∀ key a, s.strategy.cachedAttempt key = some a →
    a ∈ s.issued ∧ a.stateKey = key ∧ s.floor key ≤ a.serial
  closed : s.strategy.closed = true → ∀ key, s.strategy.cachedAttempt key = none

/-- No rejected attempt is in the cache, and none that was rejected before a call is to come from
the login that the call waits for. -/
structure Unrejected (s : AuthSystem κ) : Prop where
  rejected : ∀ n ∈ s.rejected, n < s.issued.length
  cached : ∀ key a, s.strategy.cachedAttempt key = some a → a.serial ∉ s.rejected
  avoid : ∀ w ∈ s.waiting, ∀ n ∈ w.avoid, n < s.issued.length
  waits : ∀ w ∈ s.waiting, ∀ a, Gave s.strategy.flights w.flight a → a.serial ∉ w.avoid

/-! No step but a login gives an attempt to a call that waits. -/
namespace Gave
variable {flights : List (InFlight κ)} {f g : ℕ} {v u : InFlight κ} {a : AuthAttempt κ}

theorem of_set (hv : flights[f]? = some v)
    (hu : u.status = .finished (some a) → v.status = .finished (some a))
    (h : Gave (flights.set f u) g a) : Gave flights g a := by
  unfold Gave at h ⊢
  by_cases hg : f = g
  · subst hg
    rw [getElem?_set_self_of_some hv] at h
    rw [hv, Option.map_some, hu (Option.some.inj h)]
  · rwa [getElem?_set_of_ne hg] at h

theorem of_append (hv : ∀ a, v.status ≠ .finished (some a)) (h : Gave (flights ++ [v]) g a) :
    Gave flights g a := by
  unfold Gave at h ⊢
  rcases Nat.lt_or_ge g flights.length with hg | hg
  · rwa [List.getElem?_append_left hg] at h
  · rw [List.getElem?_append_right hg, List.getElem?_singleton] at h
    split_ifs at h
    · exact absurd (Option.some.inj h) (hv a)
    · cases h

theorem not_running (hv : flights[f]? = some v) (hrunning : v.status = .running) :
    ¬ Gave flights f a := by
  intro h
  rw [Gave, hv, Option.map_some, hrunning] at h
  cases h

theorem of_cancel (hv : flights[f]? = some v) (hu : u.status = v.status)
    (h : Gave (flights.set f u.cancel) g a) : Gave flights g a := by
  refine h.of_set hv ?_
  intro hcancel
  unfold InFlight.cancel at hcancel
  split at hcancel
  · cases hcancel
  · exact hu.symm.trans hcancel

theorem of_close {s : Strategy κ} (h : Gave s.close.flights g a) : Gave s.flights g a := by
  unfold Gave at h ⊢
  have hlook : s.close.flights[g]? = s.flights[g]?.map fun value =>
      if s.inflight value.key = some g then value.cancel else value := by
    rw [show s.close.flights = s.cancelRegistered from rfl, Strategy.cancelRegistered,
      List.getElem?_mapIdx]
  rw [hlook] at h
  cases hv : s.flights[g]? with
  | none => simp [hv] at h
  | some v =>
    simp only [hv, Option.map_some, Option.some.injEq] at h ⊢
    split_ifs at h
    · unfold InFlight.cancel at h
      split at h
      · cases h
      · exact h
    · exact h

variable [DecidableEq κ]

theorem of_releaseWaiter {s : Strategy κ} {key : κ}
    (h : Gave (s.releaseWaiter key f).flights g a) : Gave s.flights g a := by
  rcases releaseWaiter_cases s key f with ⟨hsame, -⟩ | ⟨v, -, hv, ⟨-, hrelease⟩ | ⟨-, hrelease⟩⟩
  · rwa [hsame] at h
  · rw [hrelease] at h
    exact Gave.of_cancel (u := { v with waiters := v.waiters - 1 }) hv rfl h
  · rw [hrelease] at h
    exact Gave.of_set (u := { v with waiters := v.waiters - 1 }) hv id h

theorem of_invalidate {s : Strategy κ} {key : κ} (h : Gave (s.invalidate key).flights g a) :
    Gave s.flights g a := by
  rcases invalidate_cases s key with ⟨-, hsame⟩ | ⟨-, -, ⟨-, hsame⟩ | ⟨f, v, -, hv, hsame⟩⟩
  · rwa [hsame] at h
  · rwa [hsame.flights] at h
  · rw [hsame.flights] at h
    exact h.of_cancel hv rfl

end Gave

/-! What takes an attempt out of the cache. -/
section forgotten
variable {s t : Strategy κ}

/-- Nothing is issued, and attempts may leave the cache. -/
structure Fewer (s t : Strategy κ) : Prop where
  closed : t.closed = s.closed
  generations : t.generations = s.generations
  cached : ∀ key a, t.cachedAttempt key = some a → s.cachedAttempt key = some a

theorem Fewer.of_states (hclosed : t.closed = s.closed) (hgenerations : t.generations = s.generations)
    (hstates : t.states = s.states) : Fewer s t := by
  refine ⟨hclosed, hgenerations, ?_⟩
  intro key a h
  rwa [Strategy.cachedAttempt, hstates] at h

variable [DecidableEq κ]

theorem cachedAttempt_putState (s : Strategy κ) (key other : κ) (state : Option (BoundState κ)) :
    (s.putState key state).cachedAttempt other =
      if other = key then state.bind BoundState.attempt else s.cachedAttempt other := by
  simp only [Strategy.cachedAttempt, Strategy.putState, Function.update_apply]
  split_ifs <;> rfl

theorem Fewer.forgotten (s : Strategy κ) (key : κ) {state : Option (BoundState κ)}
    (hstate : state.bind BoundState.attempt = none) : Fewer s (s.putState key state) := by
  refine ⟨rfl, rfl, ?_⟩
  intro other a h
  rw [cachedAttempt_putState, hstate] at h
  split_ifs at h
  exact h

theorem fewer_cached {key : κ} {now : ℚ} {result : Except AuthFailure (AuthAttempt κ)}
    (h : s.cached key now = some (result, t)) : Fewer s t := by
  obtain ⟨state, -, ⟨rfl, -⟩ | ⟨-, rfl⟩⟩ := cached_cases h
  · exact .of_states rfl rfl rfl
  · exact .forgotten s key rfl

theorem fewer_refuseLogin (s : Strategy κ) (key : κ) : Fewer s (s.refuseLogin key) := by
  unfold Strategy.refuseLogin
  split <;> exact .forgotten s key rfl

theorem fewer_releaseWaiter (s : Strategy κ) (key : κ) (f : ℕ) :
    Fewer s (s.releaseWaiter key f) := by
  rcases releaseWaiter_cases s key f with ⟨hsame, -⟩ | ⟨v, -, -, ⟨-, hrelease⟩ | ⟨-, hrelease⟩⟩
  · rw [hsame]
    exact .of_states rfl rfl rfl
  · rw [hrelease]
    exact .of_states rfl rfl rfl
  · rw [hrelease]
    exact .of_states rfl rfl rfl

/-- What a 401 does to the cache: nothing for three reasons, or the cached attempt with the
generation of the failed one is taken away. -/
theorem unauthorizedOutcome_cases (config : StrategyConfig) (s : Strategy κ) (key : κ)
    (failed : AuthAttempt κ) :
    (∃ failure, s.unauthorizedOutcome config key failed = (.error failure, s) ∧
      (s.closed = true ∨ failed.stateKey ≠ key)) ∨
    failed.stateKey = key ∧
      ((∃ again, s.unauthorizedOutcome config key failed = (.ok again, s) ∧
          ∀ a, s.cachedAttempt key = some a → a.generation ≠ failed.generation) ∨
        ∃ again state a, s.unauthorizedOutcome config key failed = (.ok again, s.putState key state) ∧
          state.bind BoundState.attempt = none ∧ s.cachedAttempt key = some a ∧
          a.generation = failed.generation) := by
  unfold Strategy.unauthorizedOutcome
  by_cases hclosed : s.closed = true
  · exact .inl ⟨_, if_pos hclosed, .inl hclosed⟩
  · rw [if_neg hclosed]
    by_cases hkey : failed.stateKey ≠ key
    · exact .inl ⟨_, if_pos hkey, .inr hkey⟩
    · rw [if_neg hkey]
      refine .inr ⟨not_not.mp hkey, ?_⟩
      cases hstate : s.states key with
      | none => exact .inl ⟨_, rfl, by simp [Strategy.cachedAttempt, hstate]⟩
      | some state =>
        cases hattempt : state.attempt with
        | none =>
          refine .inl ⟨state.renewable && config.retries, by simp only [hattempt], ?_⟩
          simp [Strategy.cachedAttempt, hstate, hattempt]
        | some a =>
          have hcached : s.cachedAttempt key = some a := by
            simp [Strategy.cachedAttempt, hstate, hattempt]
          simp only [hattempt]
          by_cases hgeneration : a.generation ≠ failed.generation
          · refine .inl ⟨_, if_pos hgeneration, ?_⟩
            intro b hb
            rwa [← Option.some.inj (hcached.symm.trans hb)]
          · rw [if_neg hgeneration]
            refine .inr ?_
            by_cases hrenewable : state.renewable = true
            · exact ⟨_, none, a, if_pos hrenewable, rfl, hcached, not_not.mp hgeneration⟩
            · exact ⟨_, _, a, if_neg hrenewable, rfl, hcached, not_not.mp hgeneration⟩

theorem fewer_unauthorizedOutcome (config : StrategyConfig) (s : Strategy κ) (key : κ)
    (failed : AuthAttempt κ) : Fewer s (s.unauthorizedOutcome config key failed).2 := by
  rcases unauthorizedOutcome_cases config s key failed with
    ⟨failure, hsame, -⟩ | ⟨-, ⟨again, hsame, -⟩ | ⟨again, state, a, hput, hstate, -⟩⟩
  · rw [hsame]
    exact .of_states rfl rfl rfl
  · rw [hsame]
    exact .of_states rfl rfl rfl
  · rw [hput]
    exact .forgotten s key hstate

theorem closed_invalidate (s : Strategy κ) (key : κ) : (s.invalidate key).closed = s.closed := by
  rcases invalidate_cases s key with ⟨-, hsame⟩ | ⟨-, -, ⟨-, hsame⟩ | ⟨f, v, -, -, hsame⟩⟩
  · rw [hsame]
  · exact hsame.closed
  · exact hsame.closed

theorem generations_invalidate (s : Strategy κ) {key other : κ} (h : other ≠ key) :
    (s.invalidate key).generations other = s.generations other := by
  unfold Strategy.invalidate
  split_ifs
  · rfl
  · split
    · exact Function.update_of_ne h _ _
    · split
      · exact Function.update_of_ne h _ _
      · exact Function.update_of_ne h _ _

/-- What a new attempt is. -/
theorem bind_attempt {key : κ} {result : AuthenticationResult} {serial : ℕ} {renewable : Bool}
    {a : AuthAttempt κ} (h : s.bind key result serial renewable = (a, t)) :
    a.stateKey = key ∧ a.serial = serial ∧ a.generation = (s.generations key).getD 0 + 1 ∧
      t.generations = Function.update s.generations key (some a.generation) := by
  obtain ⟨rfl, rfl⟩ := Prod.mk.inj h
  exact ⟨rfl, rfl, rfl, rfl⟩

theorem cachedAttempt_bind {key : κ} {result : AuthenticationResult} {serial : ℕ}
    {renewable : Bool} {a : AuthAttempt κ} (h : s.bind key result serial renewable = (a, t))
    (other : κ) : t.cachedAttempt other = if other = key then some a else s.cachedAttempt other := by
  obtain ⟨rfl, rfl⟩ := Prod.mk.inj h
  exact cachedAttempt_putState _ key other _

theorem cachedAttempt_of_bind {key : κ} {result : AuthenticationResult} {serial : ℕ}
    {renewable : Bool} {a b : AuthAttempt κ} {other : κ}
    (h : s.bind key result serial renewable = (a, t)) (hb : t.cachedAttempt other = some b) :
    b = a ∨ s.cachedAttempt other = some b := by
  rw [cachedAttempt_bind h] at hb
  split_ifs at hb
  · exact .inl (Option.some.inj hb).symm
  · exact .inr hb

end forgotten

namespace Generations
variable {s t : AuthSystem κ}

/-- Nothing is issued, and attempts may leave the cache. -/
theorem of_fewer (h : Generations s) (hfewer : Fewer s.strategy t.strategy)
    (hissued : t.issued = s.issued) (hfloor : t.floor = s.floor) : Generations t := by
  refine ⟨?_, ?_, ?_, ?_, ?_, ?_⟩
  · rw [hissued]
    exact h.serial
  · rw [hissued, hfloor]
    exact h.floor
  · rw [hissued, hfloor, hfewer.generations]
    exact h.generation
  · rw [hissued, hfloor]
    exact h.distinct
  · rw [hissued, hfloor]
    exact fun key a ha => h.cached key a (hfewer.cached key a ha)
  · intro hclosed key
    rw [hfewer.closed] at hclosed
    have hnone := h.closed hclosed key
    rw [Option.eq_none_iff_forall_ne_some] at hnone ⊢
    exact fun a ha => hnone a (hfewer.cached key a ha)

theorem serial_lt (h : Generations s) {a : AuthAttempt κ} (ha : a ∈ s.issued) :
    a.serial < s.issued.length := by
  obtain ⟨i, hi⟩ := List.mem_iff_getElem?.mp ha
  rw [h.serial i a hi]
  exact (List.getElem?_eq_some_iff.mp hi).1

/-- An attempt is told by its serial number. -/
theorem eq_of_serial (h : Generations s) {a b : AuthAttempt κ} (ha : a ∈ s.issued)
    (hb : b ∈ s.issued) (hserial : a.serial = b.serial) : a = b := by
  obtain ⟨i, hi⟩ := List.mem_iff_getElem?.mp ha
  obtain ⟨j, hj⟩ := List.mem_iff_getElem?.mp hb
  rw [h.serial i a hi, h.serial j b hj] at hserial
  subst hserial
  exact Option.some.inj (hi.symm.trans hj)

/-- A key starts anew, or stays as it is. -/
theorem stopped (h : Generations s) (hissued : t.issued = s.issued)
    (hkeys : ∀ key, (t.floor key = s.issued.length ∧ t.strategy.cachedAttempt key = none) ∨
      t.floor key = s.floor key ∧ t.strategy.generations key = s.strategy.generations key ∧
        t.strategy.cachedAttempt key = s.strategy.cachedAttempt key)
    (hclosed : t.strategy.closed = true → ∀ key, t.strategy.cachedAttempt key = none) :
    Generations t := by
  -- an attempt that still counts is one of a key that stays as it is
  have hold {a : AuthAttempt κ} (ha : a ∈ s.issued) (hfloor : t.floor a.stateKey ≤ a.serial) :
      t.floor a.stateKey = s.floor a.stateKey ∧
        t.strategy.generations a.stateKey = s.strategy.generations a.stateKey := by
    rcases hkeys a.stateKey with ⟨hnew, -⟩ | ⟨hsame, hgenerations, -⟩
    · have hlt := h.serial_lt ha
      omega
    · exact ⟨hsame, hgenerations⟩
  refine ⟨?_, ?_, ?_, ?_, ?_, hclosed⟩
  · rw [hissued]
    exact h.serial
  · intro key
    rw [hissued]
    rcases hkeys key with ⟨hnew, -⟩ | ⟨hsame, -⟩
    · exact hnew.le
    · exact hsame.le.trans (h.floor key)
  · intro a ha hfloor
    rw [hissued] at ha
    obtain ⟨hsame, hgenerations⟩ := hold ha hfloor
    rw [hgenerations]
    exact h.generation a ha (hsame ▸ hfloor)
  · intro a ha b hb hkey hafloor hbfloor
    rw [hissued] at ha hb
    refine h.distinct a ha b hb hkey ?_ ?_
    · rw [← (hold ha hafloor).1]
      exact hafloor
    · rw [← (hold hb hbfloor).1]
      exact hbfloor
  · intro key a ha
    rcases hkeys key with ⟨-, hnone⟩ | ⟨hsame, -, hcached⟩
    · rw [hnone] at ha
      cases ha
    · rw [hissued, hsame]
      exact h.cached key a (hcached ▸ ha)

variable [DecidableEq κ]

/-- A new attempt has the next generation of its key. -/
theorem issue (h : Generations s) (hopen : s.strategy.closed = false) {key : κ}
    {result : AuthenticationResult} {renewable : Bool} {a : AuthAttempt κ} {bound : Strategy κ}
    (hbind : s.strategy.bind key result s.issued.length renewable = (a, bound))
    (hclosed : t.strategy.closed = bound.closed) (hstates : t.strategy.states = bound.states)
    (hgenerations : t.strategy.generations = bound.generations)
    (hissued : t.issued = s.issued ++ [a]) (hfloor : t.floor = s.floor) : Generations t := by
  obtain ⟨hkey, hserial, hnext, hlast⟩ := bind_attempt hbind
  have hcached (other : κ) : t.strategy.cachedAttempt other =
      if other = key then some a else s.strategy.cachedAttempt other := by
    rw [Strategy.cachedAttempt, hstates]
    exact cachedAttempt_bind hbind other
  -- the generations of the key that count are below the new one
  have hbelow {b : AuthAttempt κ} (hb : b ∈ s.issued) (hbkey : b.stateKey = a.stateKey)
      (hbfloor : s.floor b.stateKey ≤ b.serial) : b.generation < a.generation := by
    obtain ⟨last, hb, hle⟩ := h.generation b hb hbfloor
    rw [hbkey, hkey] at hb
    rw [hnext, hb]
    exact Nat.lt_succ_of_le hle
  refine ⟨?_, ?_, ?_, ?_, ?_, ?_⟩
  · intro i b hb
    rw [hissued] at hb
    rcases Nat.lt_or_ge i s.issued.length with hi | hi
    · rw [List.getElem?_append_left hi] at hb
      exact h.serial i b hb
    · rw [List.getElem?_append_right hi, List.getElem?_singleton] at hb
      split_ifs at hb with hzero
      obtain rfl := Option.some.inj hb
      omega
  · intro other
    rw [hfloor, hissued, List.length_append]
    exact (h.floor other).trans (Nat.le_add_right _ _)
  · intro b hb hbfloor
    rw [hfloor] at hbfloor
    rw [hgenerations, hlast, Function.update_apply]
    rw [hissued] at hb
    rcases List.mem_append.mp hb with hb | hb
    · split_ifs with hbkey
      · exact ⟨a.generation, rfl, (hbelow hb (hbkey.trans hkey.symm) hbfloor).le⟩
      · exact h.generation b hb hbfloor
    · obtain rfl := List.mem_singleton.mp hb
      exact ⟨b.generation, if_pos hkey, le_refl _⟩
  · intro b hb c hc hbc hbfloor hcfloor hgeneration
    rw [hfloor] at hbfloor hcfloor
    rw [hissued] at hb hc
    rcases List.mem_append.mp hb with hbold | hbnew
    · rcases List.mem_append.mp hc with hcold | hcnew
      · exact h.distinct b hbold c hcold hbc hbfloor hcfloor hgeneration
      · obtain rfl := List.mem_singleton.mp hcnew
        exact absurd hgeneration (hbelow hbold hbc hbfloor).ne
    · obtain rfl := List.mem_singleton.mp hbnew
      rcases List.mem_append.mp hc with hcold | hcnew
      · exact absurd hgeneration (hbelow hcold hbc.symm hcfloor).ne'
      · exact (List.mem_singleton.mp hcnew).symm
  · intro other b hb
    rw [hcached] at hb
    rw [hissued, hfloor]
    split_ifs at hb with hother
    · obtain rfl := Option.some.inj hb
      refine ⟨List.mem_append_right _ (List.mem_singleton.mpr rfl), hkey.trans hother.symm, ?_⟩
      rw [hserial]
      exact h.floor other
    · obtain ⟨hmem, hbkey, hbfloor⟩ := h.cached other b hb
      exact ⟨List.mem_append_left _ hmem, hbkey, hbfloor⟩
  · intro hcl
    rw [hclosed, (sameFlights_bind hbind).closed, hopen] at hcl
    cases hcl

end Generations

/-- A step that issues nothing, starts no epoch and gives nothing to the calls that wait. -/
structure Quiet (s t : AuthSystem κ) : Prop where
  fewer : Fewer s.strategy t.strategy
  issued : t.issued = s.issued
  floor : t.floor = s.floor
  gave : ∀ f a, Gave t.strategy.flights f a → Gave s.strategy.flights f a

theorem Quiet.refl (s : AuthSystem κ) : Quiet s s :=
  ⟨.of_states rfl rfl rfl, rfl, rfl, fun _ _ => id⟩

/-- The cache changes, the logins do not. -/
theorem Quiet.of_sameFlights {s : AuthSystem κ} {t : Strategy κ} (hfewer : Fewer s.strategy t)
    (hflights : SameFlights s.strategy t) (rejected : List ℕ) :
    Quiet s { s with strategy := t, rejected } := by
  refine ⟨hfewer, rfl, rfl, ?_⟩
  intro f a h
  rwa [Gave, show t.flights = s.strategy.flights from hflights.flights] at h

/-- The logins change, the cache does not. -/
theorem Quiet.of_states {s t : AuthSystem κ} (hclosed : t.strategy.closed = s.strategy.closed)
    (hgenerations : t.strategy.generations = s.strategy.generations)
    (hstates : t.strategy.states = s.strategy.states) (hissued : t.issued = s.issued)
    (hfloor : t.floor = s.floor)
    (hgave : ∀ f a, Gave t.strategy.flights f a → Gave s.strategy.flights f a) : Quiet s t :=
  ⟨.of_states hclosed hgenerations hstates, hissued, hfloor, hgave⟩

theorem Generations.quiet {s t : AuthSystem κ} (h : Generations s) (hquiet : Quiet s t) :
    Generations t := h.of_fewer hquiet.fewer hquiet.issued hquiet.floor

namespace Unrejected
variable {s t : AuthSystem κ}

/-- No attempt is rejected, and no call starts to wait. -/
theorem of_fewer (h : Unrejected s)
    (hcached : ∀ key a, t.strategy.cachedAttempt key = some a →
      s.strategy.cachedAttempt key = some a)
    (hissued : t.issued = s.issued) (hrejected : t.rejected = s.rejected)
    (hwaiting : t.waiting ⊆ s.waiting)
    (hgave : ∀ f a, Gave t.strategy.flights f a → Gave s.strategy.flights f a) :
    Unrejected t := by
  refine ⟨?_, ?_, ?_, ?_⟩
  · rw [hrejected, hissued]
    exact h.rejected
  · rw [hrejected]
    exact fun key a ha => h.cached key a (hcached key a ha)
  · rw [hissued]
    exact fun w hw => h.avoid w (hwaiting hw)
  · exact fun w hw a ha => h.waits w (hwaiting hw) a (hgave _ a ha)

theorem quiet (h : Unrejected s) (hquiet : Quiet s t) (hrejected : t.rejected = s.rejected)
    (hwaiting : t.waiting ⊆ s.waiting) : Unrejected t :=
  h.of_fewer hquiet.fewer.cached hquiet.issued hrejected hwaiting hquiet.gave

/-- A call starts to wait for a login that has given nothing. -/
theorem joined (h : Unrejected s) (hquiet : Quiet s t) (hrejected : t.rejected = s.rejected)
    {w : Waiting κ} (hwaiting : t.waiting = w :: s.waiting) (havoid : w.avoid = s.rejected)
    (hnothing : ∀ a, ¬ Gave t.strategy.flights w.flight a) : Unrejected t := by
  refine ⟨?_, ?_, ?_, ?_⟩
  · rw [hrejected, hquiet.issued]
    exact h.rejected
  · rw [hrejected]
    exact fun key a ha => h.cached key a (hquiet.fewer.cached key a ha)
  · intro x hx
    rw [hwaiting] at hx
    rw [hquiet.issued]
    rcases List.mem_cons.mp hx with rfl | hx
    · rw [havoid]
      exact h.rejected
    · exact h.avoid x hx
  · intro x hx a ha
    rw [hwaiting] at hx
    rcases List.mem_cons.mp hx with rfl | hx
    · exact absurd ha (hnothing a)
    · exact h.waits x hx a (hquiet.gave _ a ha)

/-- An attempt is issued; it is newer than all that were rejected. -/
theorem issue (h : Unrejected s) {a : AuthAttempt κ} (hserial : a.serial = s.issued.length)
    (hcached : ∀ key b, t.strategy.cachedAttempt key = some b →
      b = a ∨ s.strategy.cachedAttempt key = some b)
    (hissued : t.issued = s.issued ++ [a]) (hrejected : t.rejected = s.rejected)
    (hwaiting : t.waiting = s.waiting)
    (hgave : ∀ f b, Gave t.strategy.flights f b → b = a ∨ Gave s.strategy.flights f b) :
    Unrejected t := by
  have hlength {n : ℕ} (hn : n < s.issued.length) : n < t.issued.length := by
    rw [hissued, List.length_append]
    omega
  refine ⟨?_, ?_, ?_, ?_⟩
  · rw [hrejected]
    exact fun n hn => hlength (h.rejected n hn)
  · intro key b hb hmem
    rw [hrejected] at hmem
    rcases hcached key b hb with rfl | hold
    · exact absurd (h.rejected _ hmem) (by omega)
    · exact h.cached key b hold hmem
  · rw [hwaiting]
    exact fun w hw n hn => hlength (h.avoid w hw n hn)
  · intro w hw b hb hmem
    rw [hwaiting] at hw
    rcases hgave _ b hb with rfl | hold
    · exact absurd (h.avoid w hw _ hmem) (by omega)
    · exact h.waits w hw b hold hmem

/-- An attempt is rejected that is not in the cache. -/
theorem reject (h : Unrejected s) (hquiet : Quiet s t) (hwaiting : t.waiting = s.waiting) {n : ℕ}
    (hrejected : t.rejected = n :: s.rejected) (hn : n < s.issued.length)
    (hfree : ∀ key a, t.strategy.cachedAttempt key = some a → a.serial ≠ n) : Unrejected t := by
  refine ⟨?_, ?_, ?_, ?_⟩
  · rw [hrejected, hquiet.issued]
    exact List.forall_mem_cons.mpr ⟨hn, h.rejected⟩
  · intro key a ha
    rw [hrejected, List.mem_cons, not_or]
    exact ⟨hfree key a ha, h.cached key a (hquiet.fewer.cached key a ha)⟩
  · rw [hwaiting, hquiet.issued]
    exact h.avoid
  · rw [hwaiting]
    exact fun w hw a ha => h.waits w hw a (hquiet.gave _ a ha)

end Unrejected

/-- What every run keeps. -/
structure Kept (config : StrategyConfig) (s : AuthSystem κ) : Prop where
  registered : Registered config s
  generations : Generations s
  unrejected : Unrejected s

section steps
variable {s : AuthSystem κ}

/-- Only quiet steps are left when no attempt is issued and no call starts to wait. -/
theorem Kept.quiet {t : AuthSystem κ} (h : Kept config s) (hregistered : Registered config t)
    (hquiet : Quiet s t) (hrejected : t.rejected = s.rejected) (hwaiting : t.waiting ⊆ s.waiting) :
    Kept config t :=
  ⟨hregistered, h.generations.quiet hquiet, h.unrejected.quiet hquiet hrejected hwaiting⟩

theorem Kept.joined {t : AuthSystem κ} (h : Kept config s) (hregistered : Registered config t)
    (hquiet : Quiet s t) (hrejected : t.rejected = s.rejected) {w : Waiting κ}
    (hwaiting : t.waiting = w :: s.waiting) (havoid : w.avoid = s.rejected)
    (hnothing : ∀ a, ¬ Gave t.strategy.flights w.flight a) : Kept config t :=
  ⟨hregistered, h.generations.quiet hquiet,
    h.unrejected.joined hquiet hrejected hwaiting havoid hnothing⟩

variable [DecidableEq κ]

theorem Kept.share (h : Kept config s) {key : κ} (hregistered : Registered config (s.share key).2) :
    Kept config (s.share key).2 := by
  rcases h.registered.share_cases key with ⟨-, hshare⟩ |
    ⟨f, v, -, hv, ⟨hrunning, hshare⟩ | ⟨attempt, -, -, hshare | hshare⟩⟩ <;>
    rw [hshare] at hregistered ⊢
  · refine h.joined hregistered (.of_states rfl rfl rfl rfl rfl ?_) rfl rfl rfl ?_
    · exact fun g a hg => hg.of_append (by simp)
    · exact fun a => Gave.not_running List.getElem?_concat_length rfl
  · refine h.joined hregistered (.of_states rfl rfl rfl rfl rfl ?_) rfl rfl rfl ?_
    · exact fun g a hg => Gave.of_set (u := { v with waiters := v.waiters + 1 }) hv id hg
    · exact fun a => Gave.not_running (getElem?_set_self_of_some hv) hrunning
  · exact h.quiet hregistered (.of_states rfl rfl rfl rfl rfl fun _ _ => id) rfl
      (List.Subset.refl _)
  · exact h

theorem Kept.authorize (h : Kept config s) (key : κ) (now : ℚ) :
    Kept config (s.authorize config key now).2 := by
  have hregistered := h.registered.authorize key now
  rcases s.authorize_cases config key now with ⟨-, hauthorize⟩ | ⟨-,
    ⟨attempt, strategy, hcached, hauthorize⟩ | ⟨failure, strategy, hcached, hauthorize⟩ |
      ⟨-, ⟨-, hauthorize⟩ | ⟨-, hauthorize⟩⟩⟩ <;> rw [hauthorize] at hregistered ⊢
  · exact h
  · exact h.quiet hregistered
      (.of_sameFlights (fewer_cached hcached) (sameFlights_cached hcached) _) rfl (List.Subset.refl _)
  · exact h.quiet hregistered
      (.of_sameFlights (fewer_cached hcached) (sameFlights_cached hcached) _) rfl (List.Subset.refl _)
  · exact h.share hregistered
  · exact h.quiet hregistered
      (.of_sameFlights (fewer_refuseLogin _ _) (sameFlights_refuseLogin _ _) _) rfl (List.Subset.refl _)

theorem Kept.leave (h : Kept config s) {w : Waiting κ} (hw : w ∈ s.waiting) :
    Kept config (s.leave w) :=
  h.quiet (h.registered.leave hw)
    ⟨fewer_releaseWaiter _ _ _, rfl, rfl, fun _ _ hg => hg.of_releaseWaiter⟩ rfl
    (List.filter_subset_self _)

theorem Kept.onUnauthorized (h : Kept config s) (key : κ) (failed : AuthAttempt κ) :
    Kept config (s.onUnauthorized config key failed).2 := by
  have hregistered := h.registered.step (.onUnauthorized key failed)
  have hquiet (rejected : List ℕ) := Quiet.of_sameFlights (s := s)
    (fewer_unauthorizedOutcome config s.strategy key failed)
    (sameFlights_unauthorizedOutcome config s.strategy key failed) rejected
  change Registered config (s.onUnauthorized config key failed).2 at hregistered
  rcases s.onUnauthorized_cases config key failed with
    ⟨-, hanswer⟩ | ⟨hissued, ⟨failure, -, hanswer⟩ | ⟨again, houtcome, hanswer⟩⟩ <;>
    rw [hanswer] at hregistered ⊢
  · exact h
  · exact h.quiet hregistered (hquiet _) rfl (List.Subset.refl _)
  · cases again with
    | false => exact h.quiet hregistered (hquiet _) rfl (List.Subset.refl _)
    | true =>
      refine ⟨hregistered, h.generations.quiet (hquiet _), h.unrejected.reject (hquiet _) rfl rfl
        (h.generations.serial_lt hissued) ?_⟩
      -- the failed attempt would be the cached one, and that one is taken away
      intro other a ha heq
      have hold := (fewer_unauthorizedOutcome config s.strategy key failed).cached other a ha
      obtain ⟨hmem, hother, -⟩ := h.generations.cached other a hold
      obtain rfl := h.generations.eq_of_serial hmem hissued heq
      rcases unauthorizedOutcome_cases config s.strategy key a with
        ⟨failure, hfailed, -⟩ | ⟨hkey, ⟨again, -, hnone⟩ | ⟨again, state, b, hput, hstate, -, -⟩⟩
      · rw [hfailed] at houtcome
        cases houtcome
      · exact hnone a (by rwa [← hkey, hother]) rfl
      · change Strategy.cachedAttempt (s.strategy.unauthorizedOutcome config key a).2 other = _ at ha
        rw [hput, cachedAttempt_putState, if_pos (hother.symm.trans hkey), hstate] at ha
        cases ha

theorem Kept.bindState (h : Kept config s) (key : κ) (result : AuthenticationResult) :
    Kept config (s.bindState config key result).2 := by
  have hregistered := h.registered.step (.bindState key result)
  change Registered config (s.bindState config key result).2 at hregistered
  rcases s.bindState_cases config key result with hsame | ⟨attempt, bound, hopen, hbind, hbound⟩
  · rw [hsame]
    exact h
  · rw [hbound] at hregistered ⊢
    refine ⟨hregistered, h.generations.issue hopen hbind rfl rfl rfl rfl rfl,
      h.unrejected.issue (bind_attempt hbind).2.1 ?_ rfl rfl rfl ?_⟩
    · exact fun other b => cachedAttempt_of_bind hbind
    · intro g b hg
      change Gave bound.flights g b at hg
      rw [(sameFlights_bind hbind).flights] at hg
      exact .inr hg

theorem Kept.loggedIn (h : Kept config s) (f : ℕ) (result : AuthenticationResult) :
    Kept config (s.loggedIn f result).2 := by
  have hregistered := h.registered.loggedIn f result
  rcases s.loggedIn_cases f result with
    hsame | ⟨v, hv, -, ⟨-, hlogged⟩ | ⟨attempt, bound, hopen, hbind, hlogged⟩⟩
  · rw [hsame]
    exact h
  · rw [hlogged] at hregistered ⊢
    refine h.quiet hregistered (.of_states rfl rfl rfl rfl rfl ?_) rfl (List.Subset.refl _)
    exact fun g a hg => Gave.of_set (u := { v with status := .finished none }) hv (by simp) hg
  · rw [hlogged] at hregistered ⊢
    refine ⟨hregistered, h.generations.issue hopen hbind rfl rfl rfl rfl rfl,
      h.unrejected.issue (bind_attempt hbind).2.1 ?_ rfl rfl rfl ?_⟩
    · exact fun other b hb => cachedAttempt_of_bind hbind hb
    · -- only this login gave something new
      intro g b hg
      change Gave (bound.flights.set f _) g b at hg
      rw [(sameFlights_bind hbind).flights] at hg
      by_cases hb : b = attempt
      · exact .inl hb
      · refine .inr (hg.of_set hv ?_)
        intro heq
        cases heq
        exact absurd rfl hb

theorem Kept.invalidate (h : Kept config s) (key : κ) :
    Kept config (s.step config (.invalidate key)).2 := by
  have hcached (other : κ) : (s.strategy.invalidate key).cachedAttempt other =
      if other = key then none else s.strategy.cachedAttempt other := by
    rcases invalidate_cases s.strategy key with ⟨hclosed, hsame⟩ | ⟨-, hstates, -⟩
    · rw [hsame]
      split_ifs
      · exact h.generations.closed hclosed other
      · rfl
    · rw [Strategy.cachedAttempt, hstates, Function.update_apply]
      split_ifs <;> rfl
  have hfewer (other : κ) (a : AuthAttempt κ)
      (ha : (s.strategy.invalidate key).cachedAttempt other = some a) :
      s.strategy.cachedAttempt other = some a := by
    rw [hcached] at ha
    split_ifs at ha
    exact ha
  refine ⟨h.registered.step _, h.generations.stopped rfl ?_ ?_,
    h.unrejected.of_fewer hfewer rfl rfl (List.Subset.refl _) fun _ _ hg => hg.of_invalidate⟩
  · intro other
    show (Function.update s.floor key s.issued.length other = _ ∧
      (s.strategy.invalidate key).cachedAttempt other = none) ∨
      Function.update s.floor key s.issued.length other = _ ∧
        (s.strategy.invalidate key).generations other = _ ∧
        (s.strategy.invalidate key).cachedAttempt other = _
    rw [hcached, Function.update_apply]
    split_ifs with hother
    · exact .inl ⟨rfl, rfl⟩
    · exact .inr ⟨rfl, generations_invalidate s.strategy hother, rfl⟩
  · intro hclosed other
    change (s.strategy.invalidate key).closed = true at hclosed
    rw [closed_invalidate] at hclosed
    have hnone := h.generations.closed hclosed other
    change (s.strategy.invalidate key).cachedAttempt other = none
    rw [hcached, hnone, ite_self]

theorem Kept.close (h : Kept config s) : Kept config (s.step config .close).2 := by
  refine ⟨h.registered.step _, h.generations.stopped rfl (fun _ => .inl ⟨rfl, rfl⟩) fun _ _ => rfl,
    h.unrejected.of_fewer ?_ rfl rfl (List.Subset.refl _) fun _ _ hg => hg.of_close⟩
  intro key a ha
  cases ha

/-- What a step keeps. -/
theorem Kept.step (h : Kept config s) (event : AuthEvent κ) :
    Kept config (s.step config event).2 := by
  have hregistered := h.registered.step event
  cases event with
  | authorize key now => exact h.authorize key now
  | resume call =>
    change Kept config (s.resume call).2
    rcases s.resume_cases call with hresume | ⟨w, attempt, hfound, -, hresume⟩
    · rw [hresume]
      exact h
    · rw [hresume]
      exact h.leave (List.mem_of_find?_eq_some hfound)
  | cancel call =>
    change Kept config (s.cancel call).2
    rcases s.cancel_cases call with hcancel | ⟨w, hfound, hcancel⟩
    · rw [hcancel]
      exact h
    · rw [hcancel]
      exact h.leave (List.mem_of_find?_eq_some hfound)
  | onUnauthorized key failed => exact h.onUnauthorized key failed
  | bindState key result => exact h.bindState key result
  | invalidate key => exact h.invalidate key
  | close => exact h.close
  | loggedIn f result => exact h.loggedIn f result
  | loginEnds f =>
    change Registered config (s.loginEnds f).2 at hregistered
    change Kept config (s.loginEnds f).2
    rcases s.loginEnds_cases f with hsame | ⟨v, hv, hends⟩
    · rw [hsame]
      exact h
    · rw [hends] at hregistered ⊢
      refine h.quiet hregistered (.of_states rfl rfl rfl rfl rfl ?_) rfl (List.Subset.refl _)
      exact fun g a hg => Gave.of_set (u := { v with status := .finished none }) hv (by simp) hg
  | cleanup f =>
    change Registered config (s.cleanup f).2 at hregistered
    change Kept config (s.cleanup f).2
    rcases s.cleanup_cases f with hsame | ⟨v, attempt, -, -, -, hcleanup⟩
    · rw [hsame]
      exact h
    · rw [hcleanup] at hregistered ⊢
      exact h.quiet hregistered (.of_states rfl rfl rfl rfl rfl fun _ _ => id) rfl
        (List.Subset.refl _)

omit [DecidableEq κ] in
theorem Kept.initial : Kept config (AuthSystem.initial : AuthSystem κ) := by
  refine ⟨.initial, ⟨?_, ?_, ?_, ?_, ?_, fun _ _ => rfl⟩, ⟨?_, ?_, ?_, ?_⟩⟩ <;>
    simp [AuthSystem.initial, Strategy.cachedAttempt]

theorem cachedAttempt_of_cached {s t : Strategy κ} {key : κ} {now : ℚ} {a : AuthAttempt κ}
    (h : s.cached key now = some (.ok a, t)) : s.cachedAttempt key = some a := by
  obtain ⟨state, hstate, ⟨-, herror | ⟨attempt, hattempt, hok⟩⟩ | ⟨herror, -⟩⟩ := cached_cases h
  · cases herror
  · obtain rfl := Except.ok.inj hok
    rw [Strategy.cachedAttempt, hstate]
    exact hattempt
  · cases herror

omit [DecidableEq κ] in
theorem outcome_eq_handed {attempt : Option (AuthAttempt κ)} {a : AuthAttempt κ}
    (h : AuthSystem.outcome attempt = .handed a) : attempt = some a := by
  cases attempt with
  | none => cases h
  | some found =>
    cases h
    rfl

/-- No cached attempt was rejected, so only the registered login matters. -/
theorem Kept.harmless_authorize (h : Kept config s) (key : κ) (now : ℚ) :
    Harmless config s (.authorize key now) ↔ Meets s (.authorize key now) := by
  constructor
  · intro hharmless hcached f a hregistered hgave
    refine hharmless a ?_
    rcases s.authorize_cases config key now with ⟨hclosed, -⟩ | ⟨-,
      ⟨attempt, strategy, hanswer, -⟩ | ⟨failure, strategy, hanswer, -⟩ |
        ⟨-, ⟨-, hauthorize⟩ | ⟨hrenewable, -⟩⟩⟩
    · rw [h.registered.closed hclosed] at hregistered
      cases hregistered
    · rw [hcached] at hanswer
      cases hanswer
    · rw [hcached] at hanswer
      cases hanswer
    · rw [hauthorize]
      rcases h.registered.share_cases key with ⟨hfree, -⟩ |
        ⟨g, v, hg, hv, ⟨hrunning, -⟩ | ⟨attempt, hstatus, hshare, -⟩⟩
      · rw [hfree] at hregistered
        cases hregistered
      · obtain rfl := Option.some.inj (hregistered.symm.trans hg)
        exact absurd hgave (Gave.not_running hv hrunning)
      · obtain rfl := Option.some.inj (hregistered.symm.trans hg)
        rw [Gave, hv, Option.map_some, hstatus] at hgave
        cases hgave
        exact hshare
    · rw [h.registered.renewable key f hregistered] at hrenewable
      cases hrenewable
  · intro hmeets a hhanded
    rcases s.authorize_cases config key now with ⟨-, hauthorize⟩ | ⟨-,
      ⟨attempt, strategy, hanswer, hauthorize⟩ | ⟨failure, strategy, -, hauthorize⟩ |
        ⟨hcached, ⟨-, hauthorize⟩ | ⟨-, hauthorize⟩⟩⟩ <;> rw [hauthorize] at hhanded
    · cases hhanded
    · cases hhanded
      exact h.unrejected.cached key a (cachedAttempt_of_cached hanswer)
    · cases hhanded
    · rcases h.registered.share_cases key with ⟨-, hshare⟩ |
        ⟨f, v, hf, hv, ⟨-, hshare⟩ | ⟨attempt, hstatus, hshare, -⟩⟩ <;> rw [hshare] at hhanded
      · cases hhanded
      · cases hhanded
      · obtain rfl := outcome_eq_handed hhanded
        refine hmeets hcached f a hf ?_
        rw [Gave, hv, Option.map_some, hstatus]
    · cases hhanded

/-- What a login gives is newer than the attempts rejected before the call. -/
theorem Kept.harmless_resume (h : Kept config s) (call : ℕ) : Harmless config s (.resume call) := by
  intro w a hfound hhanded
  rcases s.resume_cases call with hresume | ⟨x, attempt, hx, hstatus, hresume⟩ <;>
    rw [hresume] at hhanded
  · cases hhanded
  · obtain rfl := outcome_eq_handed hhanded
    obtain rfl := Option.some.inj (hfound.symm.trans hx)
    exact h.unrejected.waits w (List.mem_of_find?_eq_some hfound) a hstatus

/-- The cached attempt that a 401 takes away is the failed one when both are of one epoch. -/
theorem Kept.harmless_onUnauthorized (h : Kept config s) (key : κ) (failed : AuthAttempt κ) :
    Harmless config s (.onUnauthorized key failed) ↔ Meets s (.onUnauthorized key failed) := by
  have hstrategy (hissued : failed ∈ s.issued) :
      (s.onUnauthorized config key failed).2.strategy =
        (s.strategy.unauthorizedOutcome config key failed).2 := by
    rcases s.onUnauthorized_cases config key failed with
      ⟨hnone, -⟩ | ⟨-, ⟨failure, -, hanswer⟩ | ⟨again, -, hanswer⟩⟩
    · exact absurd hissued hnone
    · rw [hanswer]
    · rw [hanswer]
  constructor
  · intro hharmless hissued hkey a hcached hgeneration
    have ha := h.generations.cached key a hcached
    rcases hharmless key a hcached with hstays | rfl
    · rw [hstrategy hissued] at hstays
      rcases unauthorizedOutcome_cases config s.strategy key failed with
        ⟨failure, -, hclosed | hother⟩ | ⟨-, ⟨again, -, hnone⟩ |
          ⟨again, state, b, hput, hstate, -, -⟩⟩
      · rw [h.generations.closed hclosed] at hcached
        cases hcached
      · exact absurd hkey hother
      · exact absurd hgeneration (hnone a hcached)
      · rw [hput, cachedAttempt_putState, if_pos rfl, hstate] at hstays
        cases hstays
    · exact ha.2.2
  · intro hmeets other a hcached
    by_cases hissued : failed ∈ s.issued
    · rw [hstrategy hissued]
      rcases unauthorizedOutcome_cases config s.strategy key failed with
        ⟨failure, hsame, -⟩ | ⟨hkey, ⟨again, hsame, -⟩ |
          ⟨again, state, b, hput, hstate, hb, hgeneration⟩⟩
      · rw [hsame]
        exact .inl hcached
      · rw [hsame]
        exact .inl hcached
      · rw [hput, cachedAttempt_putState]
        split_ifs with hother
        · subst hother
          obtain rfl := Option.some.inj (hcached.symm.trans hb)
          obtain ⟨hmem, hakey, hafloor⟩ := h.generations.cached other a hcached
          have hfloor := hmeets hissued hkey a hcached hgeneration
          refine .inr (h.generations.distinct a hmem failed hissued (hakey.trans hkey.symm) ?_ ?_
            hgeneration)
          · rwa [hakey]
          · rwa [hkey]
        · exact .inl hcached
    · refine .inl ?_
      rcases s.onUnauthorized_cases config key failed with ⟨-, hanswer⟩ | ⟨hmem, -⟩
      · rw [hanswer]
        exact hcached
      · exact absurd hmem hissued

theorem Kept.harmless_iff (h : Kept config s) (event : AuthEvent κ) :
    Harmless config s event ↔ Meets s event := by
  cases event with
  | authorize key now => exact h.harmless_authorize key now
  | resume call => exact iff_of_true (h.harmless_resume call) trivial
  | onUnauthorized key failed => exact h.harmless_onUnauthorized key failed
  | _ => exact Iff.rfl

/-- A run is harmless throughout exactly when all its steps meet the condition. -/
theorem harmless_iff_meets (config : StrategyConfig) (events : List (AuthEvent κ)) :
    Machine.Along (AuthSystem.step config) (Harmless config) .initial events ↔
      Machine.Along (AuthSystem.step config) Meets .initial events :=
  Machine.along_congr (P := Kept config) (fun _ event h => h.step event)
    (fun _ event h => h.harmless_iff event) .initial events

/-- After an invalidation the generations are counted anew, so that the 401 of an older attempt
takes the newer state away. -/
theorem older_attempt_takes_newer : ¬ ∀ (config : StrategyConfig) (events : List (AuthEvent ℕ)),
    Machine.Along (AuthSystem.step config) (Harmless config) .initial events := by
  intro h
  let login : AuthenticationResult := { authorization := some "Bearer token", refreshAt := none }
  let events : List (AuthEvent ℕ) := [.authorize 7 0, .loggedIn 0 login, .resume 0, .invalidate 7,
    .authorize 7 0, .loggedIn 1 login, .resume 1]
  let config : StrategyConfig := ⟨true, true⟩
  have hrun := (Machine.Along.append.mp
    (h config (events ++ [.onUnauthorized 7 ⟨7, 1, login, 0⟩]))).2.1
  change Harmless config (AuthSystem.reached config events) _ at hrun
  have hcached : (AuthSystem.reached config events).strategy.cachedAttempt 7 =
      some ⟨7, 1, login, 1⟩ := by decide +kernel
  have hgone : ((AuthSystem.reached config events).onUnauthorized config 7
      ⟨7, 1, login, 0⟩).2.strategy.cachedAttempt 7 = none := by decide +kernel
  generalize AuthSystem.reached config events = s at hrun hcached hgone
  rcases hrun 7 _ hcached with hkept | hsame
  · rw [hgone] at hkept
    cases hkept
  · cases hsame

end steps

end CapabilityCompiler.Auth
