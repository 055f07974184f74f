import Mathlib.Data.List.Nodup

/-! A fair lock of cooperating tasks: whoever waits is woken in turn, and may be cancelled. Between
two of the operations below no other task runs. -/
namespace CapabilityCompiler.Foundation

/-- The future a task waits at; a woken task that is then cancelled gives the lock up. -/
inductive Wait where
  | pending
  | woken
  | cancelled
  | revoked
deriving DecidableEq

def Wait.cancel : Wait → Wait
  | .pending => .cancelled
  | .woken => .revoked
  | wait => wait

structure FairLock (τ : Type) where
  locked : Bool := false
  waiters : List (τ × Wait) := []

namespace FairLock
variable {τ : Type}

/-- Wake the first waiter, if it is not done. -/
def wakeFirst (lock : FairLock τ) : FairLock τ :=
  match lock.waiters with
  | (task, .pending) :: rest => { lock with waiters := (task, .woken) :: rest }
  | _ => lock

/-- Take the lock at once, or wait at the end of the queue. -/
def acquire (lock : FairLock τ) (task : τ) : Bool × FairLock τ :=
  if !lock.locked && lock.waiters.all (·.2 = .cancelled) then (true, { lock with locked := true })
  else (false, { lock with waiters := lock.waiters ++ [(task, .pending)] })

def release (lock : FairLock τ) : FairLock τ := wakeFirst { lock with locked := false }

/-- The tasks that wait. -/
def tasks (lock : FairLock τ) : List τ := lock.waiters.map Prod.fst

/-- No task waits twice, and only the first waiter of a free lock may have been woken. -/
structure Sound (lock : FairLock τ) : Prop where
  nodup : lock.tasks.Nodup
  rest : ∀ waiter ∈ lock.waiters.tail, waiter.2 = .pending ∨ waiter.2 = .cancelled
  taken : lock.locked = true → ∀ waiter ∈ lock.waiters,
    waiter.2 = .pending ∨ waiter.2 = .cancelled

variable {lock : FairLock τ} {task : τ}

theorem sound_free : Sound ({} : FairLock τ) :=
  ⟨List.nodup_nil, by simp, by simp⟩

@[simp] theorem tasks_wakeFirst (lock : FairLock τ) : lock.wakeFirst.tasks = lock.tasks := by
  unfold wakeFirst
  split
  · rename_i hwaiters
    simp [tasks, hwaiters]
  · rfl

@[simp] theorem locked_wakeFirst (lock : FairLock τ) : lock.wakeFirst.locked = lock.locked := by
  unfold wakeFirst
  split <;> rfl

@[simp] theorem tasks_release (lock : FairLock τ) : lock.release.tasks = lock.tasks :=
  tasks_wakeFirst _

@[simp] theorem locked_release (lock : FairLock τ) : lock.release.locked = false :=
  locked_wakeFirst _

/-- Waking the first waiter of a free lock is sound. -/
theorem Sound.wakeFirst (h : lock.Sound) (hfree : lock.locked = false) : lock.wakeFirst.Sound := by
  refine ⟨by rw [tasks_wakeFirst]; exact h.nodup, fun waiter hwaiter => h.rest waiter ?_,
    fun hlocked => ?_⟩
  · unfold FairLock.wakeFirst at hwaiter
    split at hwaiter
    · rename_i hwaiters
      rw [hwaiters]
      exact hwaiter
    · exact hwaiter
  · rw [locked_wakeFirst, hfree] at hlocked
    exact absurd hlocked Bool.false_ne_true

theorem Sound.release (h : lock.Sound) : lock.release.Sound := by
  refine Sound.wakeFirst ⟨h.nodup, h.rest, fun hlocked => ?_⟩ rfl
  exact absurd hlocked Bool.false_ne_true

/-- The lock is taken at once only if it was free. -/
theorem acquire_cases (lock : FairLock τ) (task : τ) :
    (lock.acquire task).1 = true ∧ lock.locked = false ∧ (lock.acquire task).2.locked = true ∧
        (lock.acquire task).2.tasks = lock.tasks ∨
      (lock.acquire task).1 = false ∧ (lock.acquire task).2.locked = lock.locked ∧
        (lock.acquire task).2.tasks = lock.tasks ++ [task] := by
  unfold acquire
  split
  · rename_i hfree
    rw [Bool.and_eq_true, Bool.not_eq_true'] at hfree
    exact .inl ⟨rfl, hfree.1, rfl, rfl⟩
  · exact .inr ⟨rfl, rfl, by simp [tasks]⟩

theorem Sound.acquire (h : lock.Sound) (htask : task ∉ lock.tasks) :
    (lock.acquire task).2.Sound := by
  unfold FairLock.acquire
  split
  · rename_i hfree
    rw [Bool.and_eq_true, List.all_eq_true] at hfree
    refine ⟨h.nodup, h.rest, fun _ waiter hwaiter => .inr ?_⟩
    simpa using hfree.2 waiter hwaiter
  · have hpending : ∀ waiter ∈ [(task, Wait.pending)],
        waiter.2 = .pending ∨ waiter.2 = .cancelled := by simp
    refine ⟨?_, fun waiter hwaiter => ?_, fun hlocked waiter hwaiter => ?_⟩
    · simp only [tasks, List.map_append, List.map_cons, List.map_nil]
      exact List.Nodup.append h.nodup (by simp) (by simpa [tasks] using htask)
    · cases hwaiters : lock.waiters with
      | nil => simp [hwaiters] at hwaiter
      | cons first others =>
        simp only [hwaiters, List.cons_append, List.tail_cons, List.mem_append] at hwaiter
        rcases hwaiter with hother | hnew
        · exact h.rest waiter (by rw [hwaiters]; exact hother)
        · exact hpending waiter hnew
    · rcases List.mem_append.mp hwaiter with hother | hnew
      · exact h.taken hlocked waiter hother
      · exact hpending waiter hnew

/-! Cancelling and going on. -/

variable [DecidableEq τ]

/-- Cancel a task that waits. -/
def cancel (lock : FairLock τ) (task : τ) : FairLock τ :=
  { lock with waiters := lock.waiters.map fun waiter =>
      if waiter.1 = task then (waiter.1, waiter.2.cancel) else waiter }

def without (lock : FairLock τ) (task : τ) : FairLock τ :=
  { lock with waiters := lock.waiters.filter (·.1 ≠ task) }

/-- A task that waits goes on once it is woken or cancelled: it has the lock, or it has not. -/
def resume (lock : FairLock τ) (task : τ) : Option (Bool × FairLock τ) :=
  match lock.waiters.find? (·.1 = task) with
  | some (_, .woken) => some (true, { lock.without task with locked := true })
  | some (_, .cancelled) | some (_, .revoked) =>
    some (false, if lock.locked then lock.without task else (lock.without task).wakeFirst)
  | _ => none

@[simp] theorem tasks_cancel (lock : FairLock τ) (task : τ) :
    (lock.cancel task).tasks = lock.tasks := by
  simp only [tasks, cancel, List.map_map]
  refine List.map_congr_left fun waiter _ => ?_
  simp only [Function.comp]
  split <;> rfl

theorem cancel_of_idle {wait : Wait} (h : wait = .pending ∨ wait = .cancelled) :
    wait.cancel = .pending ∨ wait.cancel = .cancelled := by
  rcases h with rfl | rfl <;> exact .inr rfl

theorem Sound.cancel (h : lock.Sound) (task : τ) : (lock.cancel task).Sound := by
  have hidle : ∀ waiters : List (τ × Wait),
      (∀ waiter ∈ waiters, waiter.2 = .pending ∨ waiter.2 = .cancelled) →
      ∀ waiter ∈ waiters.map fun waiter =>
          if waiter.1 = task then (waiter.1, waiter.2.cancel) else waiter,
        waiter.2 = .pending ∨ waiter.2 = .cancelled := by
    intro waiters hall waiter hwaiter
    obtain ⟨before, hbefore, rfl⟩ := List.mem_map.mp hwaiter
    split
    · exact cancel_of_idle (hall before hbefore)
    · exact hall before hbefore
  refine ⟨by rw [tasks_cancel]; exact h.nodup, ?_, fun hlocked => hidle _ (h.taken hlocked)⟩
  rw [FairLock.cancel, ← List.map_tail]
  exact hidle _ h.rest

theorem tasks_without (lock : FairLock τ) (task : τ) :
    (lock.without task).tasks = lock.tasks.filter (· ≠ task) := by
  simp only [tasks, without, List.filter_map]
  rfl

theorem Sound.without (h : lock.Sound) (task : τ) : (lock.without task).Sound := by
  refine ⟨by rw [tasks_without]; exact h.nodup.filter _, fun waiter hwaiter => ?_,
    fun hlocked waiter hwaiter => h.taken hlocked waiter (List.mem_of_mem_filter hwaiter)⟩
  refine h.rest waiter ?_
  rw [FairLock.without] at hwaiter
  cases hwaiters : lock.waiters with
  | nil => simp [hwaiters] at hwaiter
  | cons first others =>
    rw [hwaiters, List.filter_cons] at hwaiter
    split at hwaiter
    · exact List.mem_of_mem_filter hwaiter
    · exact List.mem_of_mem_filter (List.mem_of_mem_tail hwaiter)

/-- A task that goes on with the lock is the first waiter, and the lock was free. -/
theorem Sound.resume_true (h : lock.Sound) {next : FairLock τ}
    (hresume : lock.resume task = some (true, next)) :
    task ∈ lock.tasks ∧ lock.locked = false ∧ next.locked = true ∧ next.Sound ∧
      next.tasks = lock.tasks.filter (· ≠ task) := by
  unfold resume at hresume
  split at hresume
  · rename_i found hfound
    obtain rfl := (Prod.mk.inj (Option.some.inj hresume)).2
    have hmem := List.mem_of_find?_eq_some hfound
    have hself : found = task := by simpa using List.find?_some hfound
    subst hself
    have hfree : lock.locked = false := by
      by_contra hlocked
      rw [Bool.not_eq_false] at hlocked
      exact absurd (h.taken hlocked _ hmem) (by simp)
    -- The woken task stands first, so that nobody else has been woken.
    have hothers : ∀ waiter ∈ lock.waiters, waiter.1 ≠ found →
        waiter.2 = .pending ∨ waiter.2 = .cancelled := by
      intro waiter hwaiter hne
      cases hwaiters : lock.waiters with
      | nil => rw [hwaiters] at hwaiter; exact absurd hwaiter List.not_mem_nil
      | cons first others =>
        have hrest := h.rest
        rw [hwaiters, List.tail_cons] at hrest
        rw [hwaiters] at hmem hwaiter
        rcases List.mem_cons.mp hmem with rfl | hlater
        · rcases List.mem_cons.mp hwaiter with rfl | hother
          · exact absurd rfl hne
          · exact hrest waiter hother
        · exact absurd (hrest _ hlater) (by simp)
    refine ⟨List.mem_map_of_mem hmem, hfree, rfl, ⟨(h.without found).nodup, (h.without found).rest,
      fun _ waiter hwaiter => ?_⟩, tasks_without lock found⟩
    obtain ⟨hwaiter, hne⟩ := List.mem_filter.mp hwaiter
    exact hothers waiter hwaiter (by simpa using hne)
  · exact absurd hresume (by simp)
  · exact absurd hresume (by simp)
  · exact absurd hresume (by simp)

/-- A task that goes on without the lock leaves it as it was. -/
theorem Sound.resume_false (h : lock.Sound) {next : FairLock τ}
    (hresume : lock.resume task = some (false, next)) :
    task ∈ lock.tasks ∧ next.locked = lock.locked ∧ next.Sound ∧
      next.tasks = lock.tasks.filter (· ≠ task) := by
  have hleft : ∀ found wait, lock.waiters.find? (·.1 = task) = some (found, wait) →
      next = (if lock.locked then lock.without task else (lock.without task).wakeFirst) →
      task ∈ lock.tasks ∧ next.locked = lock.locked ∧ next.Sound ∧
        next.tasks = lock.tasks.filter (· ≠ task) := by
    rintro found wait hfound rfl
    have hself : found = task := by simpa using List.find?_some hfound
    subst hself
    refine ⟨List.mem_map_of_mem (List.mem_of_find?_eq_some hfound), ?_⟩
    split
    · exact ⟨rfl, h.without found, tasks_without lock found⟩
    · rename_i hfree
      rw [Bool.not_eq_true] at hfree
      refine ⟨by rw [locked_wakeFirst]; rfl, (h.without found).wakeFirst hfree, ?_⟩
      rw [tasks_wakeFirst, tasks_without]
  unfold resume at hresume
  split at hresume
  · exact absurd hresume (by simp)
  · rename_i hfound
    exact hleft _ _ hfound (Prod.mk.inj (Option.some.inj hresume)).2.symm
  · rename_i hfound
    exact hleft _ _ hfound (Prod.mk.inj (Option.some.inj hresume)).2.symm
  · exact absurd hresume (by simp)

end FairLock
end CapabilityCompiler.Foundation
