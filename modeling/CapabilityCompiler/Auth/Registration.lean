import CapabilityCompiler.Auth.Strategies
import Mathlib.Data.List.Nodup

/-! The registered logins are the ones that run and some that are done, each with the number of
its waiters. -/
namespace CapabilityCompiler.Auth
open Foundation

variable {κ : Type} {config : StrategyConfig}

/-- The logins are untouched. -/
structure SameFlights (s t : Strategy κ) : Prop where
  closed : t.closed = s.closed
  inflight : t.inflight = s.inflight
  flights : t.flights = s.flights

/-- The running logins are the registered ones, and a registered login counts its waiters. -/
structure Registered (config : StrategyConfig) (s : AuthSystem κ) : Prop where
  running : ∀ f v, s.strategy.flights[f]? = some v → v.status = .running →
    s.strategy.inflight v.key = some f
  flight : ∀ key f, s.strategy.inflight key = some f → ∃ v, s.strategy.flights[f]? = some v ∧
    v.key = key ∧ v.status ≠ .cancelling ∧ v.waiters = s.waiting.countP (·.flight = f)
  waits : ∀ w ∈ s.waiting, ∃ v, s.strategy.flights[w.flight]? = some v ∧ v.key = w.key
  calls : ∀ w ∈ s.waiting, w.call < s.calls
  distinct : (s.waiting.map Waiting.call).Nodup
  closed : s.strategy.closed = true → ∀ key, s.strategy.inflight key = none
  renewable : ∀ key f, s.strategy.inflight key = some f → config.renewable = true

theorem SameFlights.refl (s : Strategy κ) : SameFlights s s := ⟨rfl, rfl, rfl⟩

section frames
variable [DecidableEq κ] {s t : Strategy κ}

theorem SameFlights.putState (s : Strategy κ) (key : κ) (state : Option (BoundState κ)) :
    SameFlights s (s.putState key state) := ⟨rfl, rfl, rfl⟩

/-- What the cached state answers leaves it alone or takes its attempt away. -/
theorem cached_cases {key : κ} {now : ℚ} {result : Except AuthFailure (AuthAttempt κ)}
    (h : s.cached key now = some (result, t)) : ∃ state, s.states key = some state ∧
      (t = s ∧ (result = .error .unauthorized ∨
          ∃ attempt, state.attempt = some attempt ∧ result = .ok attempt) ∨
        result = .error .unauthorized ∧ t = s.putState key
          (some { state with attempt := none, reauthenticationRequired := true })) := by
  unfold Strategy.cached at h
  cases hstate : s.states key with
  | none => simp [hstate] at h
  | some state =>
    refine ⟨state, rfl, ?_⟩
    simp only [hstate] at h
    by_cases hreauthentication : state.reauthenticationRequired = true
    · rw [if_pos hreauthentication] at h
      obtain ⟨rfl, rfl⟩ := Prod.mk.inj (Option.some.inj h)
      exact .inl ⟨rfl, .inl rfl⟩
    · rw [if_neg hreauthentication] at h
      cases hattempt : state.attempt with
      | none => simp [hattempt] at h
      | some attempt =>
        simp only [hattempt] at h
        by_cases hfresh : fresh attempt.authentication now = true
        · rw [if_pos hfresh] at h
          obtain ⟨rfl, rfl⟩ := Prod.mk.inj (Option.some.inj h)
          exact .inl ⟨rfl, .inr ⟨attempt, rfl, rfl⟩⟩
        · rw [if_neg hfresh] at h
          by_cases hrenewable : state.renewable = true
          · simp [hrenewable] at h
          · rw [if_neg hrenewable] at h
            obtain ⟨rfl, rfl⟩ := Prod.mk.inj (Option.some.inj h)
            exact .inr ⟨rfl, rfl⟩

theorem sameFlights_cached {key : κ} {now : ℚ} {result : Except AuthFailure (AuthAttempt κ)}
    (h : s.cached key now = some (result, t)) : SameFlights s t := by
  obtain ⟨state, -, ⟨rfl, -⟩ | ⟨-, rfl⟩⟩ := cached_cases h
  · exact .refl t
  · exact .putState s _ _

theorem sameFlights_refuseLogin (s : Strategy κ) (key : κ) : SameFlights s (s.refuseLogin key) := by
  unfold Strategy.refuseLogin
  split <;> exact .putState s _ _

theorem sameFlights_bind {key : κ} {result : AuthenticationResult} {serial : ℕ} {renewable : Bool}
    {attempt : AuthAttempt κ} (h : s.bind key result serial renewable = (attempt, t)) :
    SameFlights s t := by
  obtain ⟨rfl, rfl⟩ := Prod.mk.inj h
  exact ⟨rfl, rfl, rfl⟩

theorem sameFlights_unauthorizedOutcome (config : StrategyConfig) (s : Strategy κ) (key : κ)
    (failed : AuthAttempt κ) : SameFlights s (s.unauthorizedOutcome config key failed).2 := by
  unfold Strategy.unauthorizedOutcome
  split_ifs
  · exact .refl s
  · exact .refl s
  · split
    · exact .refl s
    · split
      · exact .refl s
      · split_ifs
        · exact .refl s
        · exact .putState s _ _
        · exact .putState s _ _

end frames

@[simp] theorem cancel_key (v : InFlight κ) : v.cancel.key = v.key := by
  unfold InFlight.cancel
  split <;> rfl

theorem cancel_status_ne_running (v : InFlight κ) : v.cancel.status ≠ .running := by
  unfold InFlight.cancel
  split
  · simp
  · assumption

theorem cancel_of_finished {v : InFlight κ} {attempt : Option (AuthAttempt κ)}
    (h : v.status = .finished attempt) : v.cancel = v := by
  unfold InFlight.cancel
  rw [h]

theorem getElem?_set_self_of_some {α : Type} {xs : List α} {i : ℕ} {x y : α} (h : xs[i]? = some x) :
    (xs.set i y)[i]? = some y := by
  have hi : i < xs.length := (List.getElem?_eq_some_iff.mp h).1
  simp [hi]

theorem getElem?_set_of_ne {α : Type} {xs : List α} {i j : ℕ} {y : α} (h : i ≠ j) :
    (xs.set i y)[j]? = xs[j]? := by
  simp [h]

/-- One member of a list with distinct keys, and the others. -/
theorem perm_cons_filter {α β : Type} [DecidableEq β] {f : α → β} {xs : List α}
    (h : (xs.map f).Nodup) {x : α} (hx : x ∈ xs) :
    xs.Perm (x :: xs.filter fun y => f y ≠ f x) := by
  induction xs with
  | nil => cases hx
  | cons y ys ih =>
    rw [List.map_cons, List.nodup_cons] at h
    rcases List.mem_cons.mp hx with rfl | hx
    · have hothers : ys.filter (fun y => f y ≠ f x) = ys := by
        rw [List.filter_eq_self]
        intro z hz
        simpa using fun heq : f z = f x => h.1 (heq ▸ List.mem_map_of_mem hz)
      rw [List.filter_cons_of_neg (by simp), hothers]
    · have hne : f y ≠ f x := fun heq => h.1 (heq ▸ List.mem_map_of_mem hx)
      rw [List.filter_cons_of_pos (by simpa using hne)]
      exact ((ih h.2 hx).cons y).trans (.swap x y _)

namespace Registered
variable {s : AuthSystem κ}

/-- Nothing but the cached states changes. -/
theorem of_sameFlights {t : AuthSystem κ} (h : Registered config s)
    (hflights : SameFlights s.strategy t.strategy) (hwaiting : t.waiting = s.waiting)
    (hcalls : t.calls = s.calls) : Registered config t := by
  refine ⟨?_, ?_, ?_, ?_, ?_, ?_, ?_⟩
  · rw [hflights.flights, hflights.inflight]
    exact h.running
  · rw [hflights.flights, hflights.inflight, hwaiting]
    exact h.flight
  · rw [hflights.flights, hwaiting]
    exact h.waits
  · rw [hwaiting, hcalls]
    exact h.calls
  · rw [hwaiting]
    exact h.distinct
  · rw [hflights.closed, hflights.inflight]
    exact h.closed
  · rw [hflights.inflight]
    exact h.renewable

/-- The registered login of a key is the only one with that place. -/
theorem key_unique (h : Registered config s) {key : κ} {f : ℕ} {v : InFlight κ}
    (hregistered : s.strategy.inflight key = some f) (hv : s.strategy.flights[f]? = some v) :
    v.key = key := by
  obtain ⟨found, hfound, hkey, -⟩ := h.flight key f hregistered
  rw [hv] at hfound
  exact Option.some.inj hfound ▸ hkey

/-- A registered login gets another waiter. -/
theorem joined (h : Registered config s) {key : κ} {f : ℕ} {v : InFlight κ} {w : Waiting κ}
    (hregistered : s.strategy.inflight key = some f) (hv : s.strategy.flights[f]? = some v)
    (hw : w.key = key ∧ w.flight = f ∧ w.call = s.calls) :
    Registered config
      { s with
        strategy := s.strategy.putFlight f { v with waiters := v.waiters + 1 }
        waiting := w :: s.waiting
        calls := s.calls + 1 } := by
  obtain ⟨hwkey, rfl, hwcall⟩ := hw
  have hkey := h.key_unique hregistered hv
  obtain ⟨found, hfound, -, hstatus, hcount⟩ := h.flight key w.flight hregistered
  obtain rfl : v = found := Option.some.inj (hv.symm.trans hfound)
  refine ⟨?_, ?_, ?_, ?_, ?_, h.closed, h.renewable⟩
  · intro g u hu hrunning
    by_cases hg : w.flight = g
    · subst hg
      rw [Strategy.putFlight, getElem?_set_self_of_some hv] at hu
      obtain rfl := Option.some.inj hu
      exact h.running w.flight v hv hrunning
    · rw [Strategy.putFlight, getElem?_set_of_ne hg] at hu
      exact h.running g u hu hrunning
  · intro other g hother
    by_cases hg : w.flight = g
    · subst hg
      have hother : v.key = other := h.key_unique hother hv
      refine ⟨{ v with waiters := v.waiters + 1 }, getElem?_set_self_of_some hv, hother, hstatus, ?_⟩
      · rw [List.countP_cons_of_pos (by simp), hcount]
    · obtain ⟨u, hu, hukey, hustatus, hucount⟩ := h.flight other g hother
      refine ⟨u, (getElem?_set_of_ne hg).trans hu, hukey, hustatus, ?_⟩
      rw [List.countP_cons_of_neg (by simpa using hg), hucount]
  · intro x hx
    rcases List.mem_cons.mp hx with rfl | hx
    · exact ⟨_, getElem?_set_self_of_some hv, hkey.trans hwkey.symm⟩
    · obtain ⟨u, hu, hukey⟩ := h.waits x hx
      by_cases hg : w.flight = x.flight
      · rw [← hg, hv] at hu
        refine ⟨{ v with waiters := v.waiters + 1 }, ?_, ?_⟩
        · rw [← hg]
          exact getElem?_set_self_of_some hv
        · exact Option.some.inj hu ▸ hukey
      · exact ⟨u, (getElem?_set_of_ne hg).trans hu, hukey⟩
  · intro x hx
    rcases List.mem_cons.mp hx with rfl | hx
    · rw [hwcall]
      exact Nat.lt_succ_self _
    · exact (h.calls x hx).trans (Nat.lt_succ_self _)
  · rw [List.map_cons, List.nodup_cons]
    refine ⟨?_, h.distinct⟩
    intro hmem
    obtain ⟨x, hx, hxcall⟩ := List.mem_map.mp hmem
    have hlt := h.calls x hx
    rw [hxcall, hwcall] at hlt
    exact absurd hlt (lt_irrefl _)

/-- A login changes its state, but not to running, and stays registered only if it is done. -/
theorem settled (h : Registered config s) {f : ℕ} {v u : InFlight κ}
    (hv : s.strategy.flights[f]? = some v) (hkey : u.key = v.key) (hwaiters : u.waiters = v.waiters)
    (hrunning : u.status ≠ .running) (hcancelling : u.status ≠ .cancelling) :
    Registered config { s with strategy := s.strategy.putFlight f u } := by
  refine ⟨?_, ?_, ?_, h.calls, h.distinct, h.closed, h.renewable⟩
  · intro g x hx hxrunning
    by_cases hg : f = g
    · subst hg
      rw [Strategy.putFlight, getElem?_set_self_of_some hv] at hx
      obtain rfl := Option.some.inj hx
      exact absurd hxrunning hrunning
    · exact h.running g x ((getElem?_set_of_ne hg).symm.trans hx) hxrunning
  · intro other g hother
    obtain ⟨x, hx, hxkey, hxstatus, hxcount⟩ := h.flight other g hother
    by_cases hg : f = g
    · subst hg
      obtain rfl : v = x := Option.some.inj (hv.symm.trans hx)
      exact ⟨u, getElem?_set_self_of_some hv, hkey.trans hxkey, hcancelling, hwaiters.trans hxcount⟩
    · exact ⟨x, (getElem?_set_of_ne hg).trans hx, hxkey, hxstatus, hxcount⟩
  · intro w hw
    obtain ⟨x, hx, hxkey⟩ := h.waits w hw
    by_cases hg : f = w.flight
    · subst hg
      obtain rfl : v = x := Option.some.inj (hv.symm.trans hx)
      exact ⟨u, getElem?_set_self_of_some hv, hkey.trans hxkey⟩
    · exact ⟨x, (getElem?_set_of_ne hg).trans hx, hxkey⟩

/-- A call that no registered login counts stops to wait. -/
theorem filtered (h : Registered config s) {w : Waiting κ} (hw : w ∈ s.waiting)
    (hfree : s.strategy.inflight w.key ≠ some w.flight) :
    Registered config { s with waiting := s.waiting.filter (·.call ≠ w.call) } := by
  have hperm := perm_cons_filter h.distinct hw
  refine ⟨h.running, ?_, ?_, ?_, ?_, h.closed, h.renewable⟩
  · intro key f hregistered
    obtain ⟨v, hv, hkey, hstatus, hcount⟩ := h.flight key f hregistered
    refine ⟨v, hv, hkey, hstatus, ?_⟩
    have hne : w.flight ≠ f := by
      rintro rfl
      obtain ⟨u, hu, hukey⟩ := h.waits w hw
      obtain rfl : v = u := Option.some.inj (hv.symm.trans hu)
      rw [← hukey, hkey] at hfree
      exact hfree hregistered
    rw [hcount, hperm.countP_eq, List.countP_cons_of_neg (by simpa using hne)]
  · exact fun x hx => h.waits x (List.mem_of_mem_filter hx)
  · exact fun x hx => h.calls x (List.mem_of_mem_filter hx)
  · exact h.distinct.sublist (List.filter_sublist.map _)

/-- Another waiter of a registered login stays. -/
theorem shared (h : Registered config s) {w : Waiting κ} {v : InFlight κ} (hw : w ∈ s.waiting)
    (hregistered : s.strategy.inflight w.key = some w.flight)
    (hv : s.strategy.flights[w.flight]? = some v) :
    Registered config
      { s with
        strategy := s.strategy.putFlight w.flight { v with waiters := v.waiters - 1 }
        waiting := s.waiting.filter (·.call ≠ w.call) } := by
  have hperm := perm_cons_filter h.distinct hw
  obtain ⟨found, hfound, hvkey, hstatus, hcount⟩ := h.flight w.key w.flight hregistered
  obtain rfl : v = found := Option.some.inj (hv.symm.trans hfound)
  refine ⟨?_, ?_, ?_, ?_, ?_, h.closed, h.renewable⟩
  · intro g x hx hxrunning
    by_cases hg : w.flight = g
    · subst hg
      have hx : (s.strategy.flights.set w.flight _)[w.flight]? = some x := hx
      rw [getElem?_set_self_of_some hv] at hx
      obtain rfl := Option.some.inj hx
      exact h.running w.flight v hv hxrunning
    · exact h.running g x ((getElem?_set_of_ne hg).symm.trans hx) hxrunning
  · intro other g hother
    obtain ⟨x, hx, hxkey, hxstatus, hxcount⟩ := h.flight other g hother
    by_cases hg : w.flight = g
    · subst hg
      obtain rfl : v = x := Option.some.inj (hv.symm.trans hx)
      refine ⟨_, getElem?_set_self_of_some hv, hxkey, hxstatus, ?_⟩
      rw [hperm.countP_eq, List.countP_cons_of_pos (by simp)] at hxcount
      show v.waiters - 1 = _
      rw [hxcount, Nat.add_sub_cancel]
    · refine ⟨x, (getElem?_set_of_ne hg).trans hx, hxkey, hxstatus, ?_⟩
      rw [hxcount, hperm.countP_eq, List.countP_cons_of_neg (by simpa using hg)]
  · intro x hx
    obtain ⟨y, hy, hykey⟩ := h.waits x (List.mem_of_mem_filter hx)
    by_cases hg : w.flight = x.flight
    · rw [← hg] at hy
      obtain rfl : v = y := Option.some.inj (hv.symm.trans hy)
      refine ⟨{ v with waiters := v.waiters - 1 }, ?_, hykey⟩
      rw [← hg]
      exact getElem?_set_self_of_some hv
    · exact ⟨y, (getElem?_set_of_ne hg).trans hy, hykey⟩
  · exact fun x hx => h.calls x (List.mem_of_mem_filter hx)
  · exact h.distinct.sublist (List.filter_sublist.map _)

theorem close (h : Registered config s) (floor : κ → ℕ) :
    Registered config { s with strategy := s.strategy.close, floor } := by
  have hlook {g : ℕ} : s.strategy.close.flights[g]? = s.strategy.flights[g]?.map fun value =>
      if s.strategy.inflight value.key = some g then value.cancel else value := by
    rw [show s.strategy.close.flights = s.strategy.cancelRegistered from rfl,
      Strategy.cancelRegistered, List.getElem?_mapIdx]
  refine ⟨?_, ?_, ?_, h.calls, h.distinct, fun _ _ => rfl, ?_⟩
  · intro g u hu hrunning
    obtain ⟨v, hv, rfl⟩ := Option.map_eq_some_iff.mp (hlook.symm.trans hu)
    split_ifs at hrunning with hregistered
    · exact absurd hrunning (cancel_status_ne_running v)
    · exact absurd (h.running g v hv hrunning) hregistered
  · intro key f hregistered
    cases hregistered
  · intro w hw
    obtain ⟨v, hv, hkey⟩ := h.waits w hw
    refine ⟨if s.strategy.inflight v.key = some w.flight then v.cancel else v, ?_, ?_⟩
    · rw [hlook, hv, Option.map_some]
    · split_ifs
      · rw [cancel_key, hkey]
      · exact hkey
  · intro key f hregistered
    cases hregistered

theorem loginEnds (h : Registered config s) (f : ℕ) : Registered config (s.loginEnds f).2 := by
  rcases s.loginEnds_cases f with hsame | ⟨v, hv, hends⟩
  · rw [hsame]
    exact h
  · rw [hends]
    exact h.settled hv rfl rfl (by simp) (by simp)

theorem initial : Registered config (AuthSystem.initial : AuthSystem κ) := by
  refine ⟨?_, ?_, ?_, ?_, List.nodup_nil, fun _ _ => rfl, ?_⟩ <;> simp [AuthSystem.initial]

variable [DecidableEq κ]

/-- A login that no longer runs is taken out. -/
theorem unregister (h : Registered config s) {key : κ} {f : ℕ} {v : InFlight κ}
    (hregistered : s.strategy.inflight key = some f) (hv : s.strategy.flights[f]? = some v)
    (hstatus : v.status ≠ .running) :
    Registered config { s with strategy := s.strategy.unregister key } := by
  refine ⟨?_, ?_, h.waits, h.calls, h.distinct, ?_, ?_⟩
  · intro g u hu hrunning
    have hother := h.running g u hu hrunning
    have hne : u.key ≠ key := by
      intro heq
      rw [heq, hregistered] at hother
      obtain rfl := Option.some.inj hother
      obtain rfl : v = u := Option.some.inj (hv.symm.trans hu)
      exact hstatus hrunning
    exact (Function.update_of_ne hne _ _).trans hother
  · intro other g hother
    simp only [Strategy.unregister, Function.update_apply] at hother
    split_ifs at hother
    exact h.flight other g hother
  · intro hclosed other
    simp only [Strategy.unregister, Function.update_apply]
    split_ifs
    · rfl
    · exact h.closed hclosed other
  · intro other g hother
    simp only [Strategy.unregister, Function.update_apply] at hother
    split_ifs at hother
    exact h.renewable other g hother

/-- The first caller starts a login. -/
theorem started (h : Registered config s) {key : κ} {w : Waiting κ}
    (hfree : s.strategy.inflight key = none) (hclosed : s.strategy.closed = false)
    (hrenewable : config.renewable = true)
    (hw : w.key = key ∧ w.flight = s.strategy.flights.length ∧ w.call = s.calls) :
    Registered config
      { s with
        strategy :=
          { s.strategy with
            inflight := Function.update s.strategy.inflight key (some s.strategy.flights.length)
            flights := s.strategy.flights ++ [{ key, waiters := 1, status := .running }] }
        waiting := w :: s.waiting
        calls := s.calls + 1 } := by
  obtain ⟨rfl, hwflight, hwcall⟩ := hw
  let new : InFlight κ := { key := w.key, waiters := 1, status := .running }
  have hnew : (s.strategy.flights ++ [new])[s.strategy.flights.length]? = some new := by simp
  have hold {g : ℕ} {u : InFlight κ} (hu : s.strategy.flights[g]? = some u) :
      g < s.strategy.flights.length ∧ (s.strategy.flights ++ [new])[g]? = some u := by
    have hg := (List.getElem?_eq_some_iff.mp hu).1
    exact ⟨hg, by rw [List.getElem?_append_left hg, hu]⟩
  have hcases {g : ℕ} {u : InFlight κ} (hu : (s.strategy.flights ++ [new])[g]? = some u) :
      s.strategy.flights[g]? = some u ∨ g = s.strategy.flights.length ∧ u = new := by
    rcases Nat.lt_or_ge g s.strategy.flights.length with hg | hg
    · exact .inl (by rwa [List.getElem?_append_left hg] at hu)
    · rw [List.getElem?_append_right hg, List.getElem?_singleton] at hu
      split_ifs at hu with hzero
      exact .inr ⟨by omega, (Option.some.inj hu).symm⟩
  refine ⟨?_, ?_, ?_, ?_, ?_, ?_, ?_⟩
  · intro g u hu hrunning
    rcases hcases hu with hu | ⟨rfl, rfl⟩
    · have hother := h.running g u hu hrunning
      have hne : u.key ≠ w.key := by
        intro heq
        rw [heq, hfree] at hother
        cases hother
      exact (Function.update_of_ne hne _ _).trans hother
    · exact Function.update_self _ _ _
  · intro other g hother
    simp only [Function.update_apply] at hother
    split_ifs at hother with hsame
    · obtain rfl := Option.some.inj hother
      refine ⟨new, hnew, hsame.symm, by simp [new], ?_⟩
      have hnone : s.waiting.countP (·.flight = s.strategy.flights.length) = 0 := by
        rw [List.countP_eq_zero]
        intro x hx
        obtain ⟨u, hu, -⟩ := h.waits x hx
        simpa using (hold hu).1.ne
      rw [List.countP_cons_of_pos (by simpa using hwflight), hnone]
    · obtain ⟨u, hu, hkey, hstatus, hcount⟩ := h.flight other g hother
      obtain ⟨hg, hu⟩ := hold hu
      refine ⟨u, hu, hkey, hstatus, ?_⟩
      rw [List.countP_cons_of_neg (by rw [decide_eq_true_eq, hwflight]; exact hg.ne'), hcount]
  · intro x hx
    rcases List.mem_cons.mp hx with rfl | hx
    · exact ⟨new, hwflight ▸ hnew, rfl⟩
    · obtain ⟨u, hu, hkey⟩ := h.waits x hx
      exact ⟨u, (hold hu).2, hkey⟩
  · intro x hx
    rcases List.mem_cons.mp hx with rfl | hx
    · rw [hwcall]
      exact Nat.lt_succ_self _
    · exact (h.calls x hx).trans (Nat.lt_succ_self _)
  · rw [List.map_cons, List.nodup_cons]
    refine ⟨?_, h.distinct⟩
    intro hmem
    obtain ⟨x, hx, hxcall⟩ := List.mem_map.mp hmem
    have hlt := h.calls x hx
    rw [hxcall, hwcall] at hlt
    exact absurd hlt (lt_irrefl _)
  · intro hopen
    rw [show s.strategy.closed = true from hopen] at hclosed
    cases hclosed
  · exact fun _ _ _ => hrenewable

/-- A registered login is taken out, and does not run any more. -/
theorem dropped (h : Registered config s) {key : κ} {f : ℕ} {v u : InFlight κ}
    (hregistered : s.strategy.inflight key = some f) (hv : s.strategy.flights[f]? = some v)
    (hkey : u.key = v.key) (hrunning : u.status ≠ .running) :
    Registered config { s with strategy := (s.strategy.unregister key).putFlight f u } := by
  have hvkey : v.key = key := h.key_unique hregistered hv
  refine ⟨?_, ?_, ?_, h.calls, h.distinct, ?_, ?_⟩
  · intro g x hx hxrunning
    by_cases hg : f = g
    · subst hg
      have hx : (s.strategy.flights.set f u)[f]? = some x := hx
      rw [getElem?_set_self_of_some hv] at hx
      obtain rfl := Option.some.inj hx
      exact absurd hxrunning hrunning
    · have hx : s.strategy.flights[g]? = some x := (getElem?_set_of_ne hg).symm.trans hx
      have hother := h.running g x hx hxrunning
      have hne : x.key ≠ key := by
        intro heq
        rw [heq, hregistered] at hother
        exact hg (Option.some.inj hother)
      exact (Function.update_of_ne hne _ _).trans hother
  · intro other g hother
    simp only [Strategy.putFlight, Strategy.unregister, Function.update_apply] at hother
    split_ifs at hother with hsame
    obtain ⟨x, hx, hxkey, hxstatus, hxcount⟩ := h.flight other g hother
    have hg : f ≠ g := by
      rintro rfl
      obtain rfl : v = x := Option.some.inj (hv.symm.trans hx)
      exact hsame (hxkey.symm.trans hvkey)
    exact ⟨x, (getElem?_set_of_ne hg).trans hx, hxkey, hxstatus, hxcount⟩
  · intro x hx
    obtain ⟨y, hy, hykey⟩ := h.waits x hx
    by_cases hg : f = x.flight
    · rw [← hg] at hy
      obtain rfl : v = y := Option.some.inj (hv.symm.trans hy)
      refine ⟨u, ?_, hkey.trans hykey⟩
      rw [← hg]
      exact getElem?_set_self_of_some hv
    · exact ⟨y, (getElem?_set_of_ne hg).trans hy, hykey⟩
  · intro hclosed other
    simp only [Strategy.putFlight, Strategy.unregister, Function.update_apply]
    split_ifs
    · rfl
    · exact h.closed hclosed other
  · intro other g hother
    simp only [Strategy.putFlight, Strategy.unregister, Function.update_apply] at hother
    split_ifs at hother
    exact h.renewable other g hother

/-- The last waiter of a registered login takes it away. -/
theorem abandoned (h : Registered config s) {w : Waiting κ} {v u : InFlight κ} (hw : w ∈ s.waiting)
    (hregistered : s.strategy.inflight w.key = some w.flight)
    (hv : s.strategy.flights[w.flight]? = some v) (hkey : u.key = v.key)
    (hrunning : u.status ≠ .running) :
    Registered config
      { s with
        strategy := (s.strategy.unregister w.key).putFlight w.flight u
        waiting := s.waiting.filter (·.call ≠ w.call) } := by
  have hdropped := h.dropped hregistered hv hkey hrunning
  refine hdropped.filtered hw ?_
  show Function.update s.strategy.inflight w.key none w.key ≠ some w.flight
  rw [Function.update_self]
  simp

end Registered

/-- What releasing a waiter does: nothing, or to a registered login one of two things. -/
theorem releaseWaiter_cases [DecidableEq κ] (s : Strategy κ) (key : κ) (flight : ℕ) :
    (s.releaseWaiter key flight = s ∧ (s.closed = true ∨ s.inflight key ≠ some flight ∨
      s.flights[flight]? = none)) ∨
    ∃ v, s.inflight key = some flight ∧ s.flights[flight]? = some v ∧
      (v.waiters - 1 = 0 ∧ s.releaseWaiter key flight = (s.unregister key).putFlight flight
          ({ v with waiters := v.waiters - 1 } : InFlight κ).cancel ∨
        v.waiters - 1 ≠ 0 ∧ s.releaseWaiter key flight =
          s.putFlight flight { v with waiters := v.waiters - 1 }) := by
  unfold Strategy.releaseWaiter
  by_cases hclosed : s.closed = true
  · exact .inl ⟨by rw [if_pos hclosed], .inl hclosed⟩
  · rw [if_neg hclosed]
    by_cases hregistered : s.inflight key ≠ some flight
    · exact .inl ⟨by rw [if_pos hregistered], .inr (.inl hregistered)⟩
    · rw [if_neg hregistered]
      cases hv : s.flights[flight]? with
      | none => exact .inl ⟨rfl, .inr (.inr rfl)⟩
      | some v =>
        refine .inr ⟨v, not_not.mp hregistered, rfl, ?_⟩
        by_cases hlast : v.waiters - 1 = 0
        · exact .inl ⟨hlast, by simp only [if_pos hlast]⟩
        · exact .inr ⟨hlast, by simp only [if_neg hlast]⟩

theorem Registered.leave [DecidableEq κ] {s : AuthSystem κ} (h : Registered config s)
    {w : Waiting κ} (hw : w ∈ s.waiting) : Registered config (s.leave w) := by
  unfold AuthSystem.leave
  rcases releaseWaiter_cases s.strategy w.key w.flight with
    ⟨hsame, hwhy⟩ | ⟨v, hregistered, hv, ⟨-, hlast⟩ | ⟨-, hshared⟩⟩
  · have hfree : s.strategy.inflight w.key ≠ some w.flight := by
      rcases hwhy with hclosed | hfree | hnone
      · rw [h.closed hclosed]
        simp
      · exact hfree
      · obtain ⟨u, hu, -⟩ := h.waits w hw
        rw [hnone] at hu
        cases hu
    rw [hsame]
    exact h.filtered hw hfree
  · rw [hlast]
    exact h.abandoned hw hregistered hv (cancel_key _) (cancel_status_ne_running _)
  · rw [hshared]
    exact h.shared hw hregistered hv

section steps
variable [DecidableEq κ] {s : AuthSystem κ}

/-- What sharing the login of a key does: it starts one, it joins one that runs, or it finds one
that is done. -/
theorem Registered.share_cases (h : Registered config s) (key : κ) :
    (s.strategy.inflight key = none ∧
      s.share key = (.waits,
        { s with
          strategy :=
            { s.strategy with
              inflight := Function.update s.strategy.inflight key (some s.strategy.flights.length)
              flights := s.strategy.flights ++ [{ key, waiters := 1, status := .running }] }
          waiting :=
            { call := s.calls, key, flight := s.strategy.flights.length, avoid := s.rejected } ::
              s.waiting
          calls := s.calls + 1 })) ∨
    ∃ f v, s.strategy.inflight key = some f ∧ s.strategy.flights[f]? = some v ∧
      (v.status = .running ∧
          s.share key = (.waits,
            { s with
              strategy := s.strategy.putFlight f { v with waiters := v.waiters + 1 }
              waiting := { call := s.calls, key, flight := f, avoid := s.rejected } :: s.waiting
              calls := s.calls + 1 }) ∨
        ∃ attempt, v.status = .finished attempt ∧
          (s.share key).1 = AuthSystem.outcome attempt ∧
          ((s.share key).2 = { s with strategy := s.strategy.unregister key } ∨
            (s.share key).2 = s)) := by
  unfold AuthSystem.share Strategy.join
  cases hregistered : s.strategy.inflight key with
  | none =>
    refine .inl ⟨rfl, ?_⟩
    simp only [List.getElem?_concat_length, Option.map_some]
  | some f =>
    obtain ⟨⟨owner, waiters, status⟩, hv, -, hstatus, -⟩ := h.flight key f hregistered
    refine .inr ⟨f, _, rfl, hv, ?_⟩
    have hset : (s.strategy.putFlight f ⟨owner, waiters + 1, status⟩).flights[f]? =
        some ⟨owner, waiters + 1, status⟩ := getElem?_set_self_of_some hv
    simp only [hv, hset, Option.map_some]
    cases status with
    | running => exact .inl ⟨rfl, rfl⟩
    | cancelling => exact absurd rfl hstatus
    | finished attempt =>
      refine .inr ⟨attempt, rfl, rfl, ?_⟩
      -- the waiter that came goes again
      have hback : s.strategy.flights.set f ⟨owner, waiters, .finished attempt⟩ =
          s.strategy.flights := by
        obtain ⟨hf, heq⟩ := List.getElem?_eq_some_iff.mp hv
        rw [← heq]
        exact List.set_getElem_self hf
      rcases releaseWaiter_cases (s.strategy.putFlight f ⟨owner, waiters + 1, .finished attempt⟩)
        key f with ⟨-, hclosed | hfree | hnone⟩ | ⟨u, -, hu, ⟨-, hlast⟩ | ⟨-, hshared⟩⟩
      · rw [h.closed hclosed] at hregistered
        cases hregistered
      · exact absurd hregistered hfree
      · rw [hset] at hnone
        cases hnone
      · obtain rfl := Option.some.inj (hset.symm.trans hu)
        refine .inl ?_
        rw [hlast, cancel_of_finished rfl]
        simp only [Strategy.putFlight, Strategy.unregister, Nat.add_sub_cancel, List.set_set, hback]
      · obtain rfl := Option.some.inj (hset.symm.trans hu)
        refine .inr ?_
        rw [hshared]
        simp only [Strategy.putFlight, Nat.add_sub_cancel, List.set_set, hback]

theorem Registered.share (h : Registered config s) {key : κ} (hclosed : s.strategy.closed = false)
    (hrenewable : config.renewable = true) : Registered config (s.share key).2 := by
  rcases h.share_cases key with
    ⟨hfree, hshare⟩ | ⟨f, v, hregistered, hv, ⟨-, hshare⟩ | ⟨attempt, hstatus, -, hshare | hshare⟩⟩
  · rw [hshare]
    exact h.started hfree hclosed hrenewable ⟨rfl, rfl, rfl⟩
  · rw [hshare]
    exact h.joined hregistered hv ⟨rfl, rfl, rfl⟩
  · rw [hshare]
    exact h.unregister hregistered hv (by simp [hstatus])
  · rw [hshare]
    exact h

/-- What an invalidation does to the logins. -/
theorem invalidate_cases (s : Strategy κ) (key : κ) :
    (s.closed = true ∧ s.invalidate key = s) ∨
    s.closed = false ∧ (s.invalidate key).states = Function.update s.states key none ∧
      (((∀ f, s.inflight key = some f → s.flights[f]? = none) ∧
          SameFlights (s.unregister key) (s.invalidate key)) ∨
        ∃ f v, s.inflight key = some f ∧ s.flights[f]? = some v ∧
          SameFlights ((s.unregister key).putFlight f v.cancel) (s.invalidate key)) := by
  unfold Strategy.invalidate
  cases hclosed : s.closed with
  | true => exact .inl ⟨rfl, if_pos rfl⟩
  | false =>
    rw [if_neg Bool.false_ne_true]
    refine .inr ⟨rfl, ?_⟩
    cases hregistered : s.inflight key with
    | none =>
      refine ⟨rfl, .inl ⟨?_, ⟨hclosed.symm, rfl, rfl⟩⟩⟩
      intro f hf
      cases hf
    | some f =>
      cases hv : s.flights[f]? with
      | none =>
        simp only [hv]
        refine ⟨trivial, .inl ⟨?_, ⟨hclosed.symm, rfl, rfl⟩⟩⟩
        intro g hg
        rwa [← Option.some.inj hg]
      | some v =>
        simp only [hv]
        exact ⟨rfl, .inr ⟨f, v, rfl, hv, ⟨hclosed.symm, rfl, rfl⟩⟩⟩

theorem Registered.invalidate (h : Registered config s) (key : κ) (floor : κ → ℕ) :
    Registered config { s with strategy := s.strategy.invalidate key, floor } := by
  rcases invalidate_cases s.strategy key with
    ⟨-, hsame⟩ | ⟨-, -, ⟨hnone, hsame⟩ | ⟨f, v, hregistered, hv, hsame⟩⟩
  · rw [hsame]
    exact h.of_sameFlights (.refl _) rfl rfl
  · cases hfree : s.strategy.inflight key with
    | none =>
      have hunregistered : s.strategy.unregister key = s.strategy := by
        rw [Strategy.unregister, ← hfree, Function.update_eq_self]
      rw [hunregistered] at hsame
      exact h.of_sameFlights hsame rfl rfl
    | some f =>
      obtain ⟨v, hv, -⟩ := h.flight key f hfree
      rw [hnone f hfree] at hv
      cases hv
  · have hdropped := h.dropped hregistered hv (cancel_key v) (cancel_status_ne_running v)
    exact hdropped.of_sameFlights hsame rfl rfl

theorem Registered.loggedIn (h : Registered config s) (f : ℕ) (result : AuthenticationResult) :
    Registered config (s.loggedIn f result).2 := by
  rcases s.loggedIn_cases f result with
    hsame | ⟨v, hv, -, ⟨-, hlogged⟩ | ⟨attempt, bound, -, hbind, hlogged⟩⟩
  · rw [hsame]
    exact h
  · rw [hlogged]
    exact h.settled hv rfl rfl (by simp) (by simp)
  · rw [hlogged]
    have hbound := sameFlights_bind hbind
    have hsettled := (h.of_sameFlights (t := { s with strategy := bound }) hbound rfl rfl).settled
      (f := f) (v := v) (u := { v with status := .finished (some attempt) })
      (by rw [hbound.flights, hv]) rfl rfl (by simp) (by simp)
    exact hsettled.of_sameFlights (.refl _) rfl rfl

theorem Registered.cleanup (h : Registered config s) (f : ℕ) :
    Registered config (s.cleanup f).2 := by
  rcases s.cleanup_cases f with hsame | ⟨v, attempt, hv, hstatus, hregistered, hcleanup⟩
  · rw [hsame]
    exact h
  · rw [hcleanup]
    exact h.unregister hregistered hv (by simp [hstatus])

theorem Registered.authorize (h : Registered config s) (key : κ) (now : ℚ) :
    Registered config (s.authorize config key now).2 := by
  rcases s.authorize_cases config key now with ⟨-, hauthorize⟩ | ⟨hclosed,
    ⟨attempt, strategy, hcached, hauthorize⟩ | ⟨failure, strategy, hcached, hauthorize⟩ |
      ⟨-, ⟨hrenewable, hauthorize⟩ | ⟨-, hauthorize⟩⟩⟩
  · rw [hauthorize]
    exact h
  · rw [hauthorize]
    exact h.of_sameFlights (sameFlights_cached hcached) rfl rfl
  · rw [hauthorize]
    exact h.of_sameFlights (sameFlights_cached hcached) rfl rfl
  · rw [hauthorize]
    exact h.share hclosed hrenewable
  · rw [hauthorize]
    exact h.of_sameFlights (sameFlights_refuseLogin _ _) rfl rfl

/-- What a step does to the logins. -/
theorem Registered.step (h : Registered config s) (event : AuthEvent κ) :
    Registered config (s.step config event).2 := by
  cases event with
  | authorize key now => exact h.authorize key now
  | resume call =>
    show Registered config (s.resume call).2
    rcases s.resume_cases call with hresume | ⟨w, attempt, hfound, -, hresume⟩
    · rw [hresume]
      exact h
    · rw [hresume]
      exact h.leave (List.mem_of_find?_eq_some hfound)
  | cancel call =>
    show Registered config (s.cancel call).2
    rcases s.cancel_cases call with hcancel | ⟨w, hfound, hcancel⟩
    · rw [hcancel]
      exact h
    · rw [hcancel]
      exact h.leave (List.mem_of_find?_eq_some hfound)
  | onUnauthorized key failed =>
    have hsame := sameFlights_unauthorizedOutcome config s.strategy key failed
    show Registered config (s.onUnauthorized config key failed).2
    rcases s.onUnauthorized_cases config key failed with
      ⟨-, hanswer⟩ | ⟨-, ⟨failure, -, hanswer⟩ | ⟨again, -, hanswer⟩⟩
    · rw [hanswer]
      exact h
    · rw [hanswer]
      exact h.of_sameFlights hsame rfl rfl
    · rw [hanswer]
      exact h.of_sameFlights hsame rfl rfl
  | bindState key result =>
    show Registered config (s.bindState config key result).2
    rcases s.bindState_cases config key result with hsame | ⟨attempt, bound, -, hbind, hbound⟩
    · rw [hsame]
      exact h
    · rw [hbound]
      exact h.of_sameFlights (sameFlights_bind hbind) rfl rfl
  | invalidate key => exact h.invalidate key _
  | close => exact h.close _
  | loggedIn f result => exact h.loggedIn f result
  | loginEnds f => exact h.loginEnds f
  | cleanup f => exact h.cleanup f

/-- The state that some events lead to. -/
def AuthSystem.reached (config : StrategyConfig) (events : List (AuthEvent κ)) : AuthSystem κ :=
  Machine.after (AuthSystem.step config) .initial events

theorem registered_reached (events : List (AuthEvent κ)) :
    Registered config (AuthSystem.reached config events) :=
  Machine.invariant (P := Registered config) (fun _ event h => h.step event) .initial events

end steps

end CapabilityCompiler.Auth
