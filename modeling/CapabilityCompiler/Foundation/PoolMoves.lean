import CapabilityCompiler.Foundation.Pool

/-! Runs a pool can take: from a list of moves, and of one task while the others wait. -/
namespace CapabilityCompiler.Foundation.Pool

/-- One step of a pool, as it is chosen. -/
inductive Move (Call R τ : Type) where
  | spawn (call : Call)
  | send (task : ℕ)
  | perform (task : ℕ) (t : τ)
  | outside (task : ℕ) (r : R)
  | cancel (task : ℕ)
  | afterwards (index : ℕ) (t : τ)

variable {Call Q R E V ι τ ο σ : Type} (host : PoolHost Call Q R E V ι τ ο σ)
  (permitted : Q → R → Bool)

def play (world : World Call Q R E V ι τ ο σ) :
    Move Call R τ → Option (World Call Q R E V ι τ ο σ)
  | .spawn call => some { world with tasks := world.tasks ++ [(call, host.process call)] }
  | .send i => match world.tasks[i]? with
    | some (call, .request q resume) => some { world with
        tasks := world.tasks.set i (call, .waiting q resume)
        log := world.log ++ [.sent i q] }
    | _ => none
  | .perform i t => match world.tasks[i]? with
    | some (call, .waiting q resume) => (host.addressed q).map fun x => { world with
        tasks := world.tasks.set i
          (call, resume (host.reply (host.answer world.object (x, t)).1))
        log := world.log ++
          [.performed i true q (x, t) (host.answer world.object (x, t)).1]
        object := (host.answer world.object (x, t)).2 }
    | _ => none
  | .outside i r => match world.tasks[i]? with
    | some (call, .waiting q resume) =>
      if permitted q r then some { world with
        tasks := world.tasks.set i (call, resume r), log := world.log ++ [.replied i q r] }
      else none
    | _ => none
  | .cancel i => match world.tasks[i]? with
    | some (call, .waiting q resume) => some { world with
        tasks := world.tasks.set i (call, resume host.cancelled)
        late := world.late ++ [(i, q)]
        log := world.log ++ [.replied i q host.cancelled] }
    | _ => none
  | .afterwards n t => match world.late[n]? with
    | some (i, q) => (host.addressed q).map fun x => { world with
        late := world.late.take n ++ world.late.drop (n + 1)
        log := world.log ++
          [.performed i false q (x, t) (host.answer world.object (x, t)).1]
        object := (host.answer world.object (x, t)).2 }
    | none => none

variable {host permitted}

theorem step_of_play (hpermitted : ∀ q r, permitted q r = true → host.permitted q r)
    {world world' : World Call Q R E V ι τ ο σ} {move : Move Call R τ}
    (h : play host permitted world move = some world') : Step host world world' := by
  cases move with
  | spawn call =>
    obtain rfl := Option.some.inj h
    exact .spawn world call
  | send i =>
    rw [play] at h
    split at h
    · rename_i htask
      obtain rfl := Option.some.inj h
      exact .send htask
    · exact absurd h (by simp)
  | perform i t =>
    rw [play] at h
    split at h
    · rename_i htask
      obtain ⟨x, haddressed, rfl⟩ := Option.map_eq_some_iff.mp h
      exact .perform t htask haddressed
    · exact absurd h (by simp)
  | outside i r =>
    rw [play] at h
    split at h
    · rename_i q resume htask
      split at h
      · rename_i hallowed
        obtain rfl := Option.some.inj h
        exact .outside htask (hpermitted _ _ hallowed)
      · exact absurd h (by simp)
    · exact absurd h (by simp)
  | cancel i =>
    rw [play] at h
    split at h
    · rename_i htask
      obtain rfl := Option.some.inj h
      exact .cancel htask
    · exact absurd h (by simp)
  | afterwards n t =>
    rw [play] at h
    split at h
    · rename_i i q hlate
      obtain ⟨x, haddressed, rfl⟩ := Option.map_eq_some_iff.mp h
      obtain ⟨hlt, hget⟩ := List.getElem?_eq_some_iff.mp hlate
      have hsplit : world.late = world.late.take n ++ (i, q) :: world.late.drop (n + 1) := by
        rw [← hget, List.getElem_cons_drop, List.take_append_drop]
      exact .afterwards t hsplit haddressed
    · exact absurd h (by simp)

variable (host permitted)

/-- All the moves, one after the other. -/
def playAll (world : World Call Q R E V ι τ ο σ) :
    List (Move Call R τ) → Option (World Call Q R E V ι τ ο σ)
  | [] => some world
  | move :: rest => (play host permitted world move).bind (playAll · rest)

variable {host permitted}

theorem reachable_of_playAll (hpermitted : ∀ q r, permitted q r = true → host.permitted q r) {s : σ}
    {world world' : World Call Q R E V ι τ ο σ} (hreachable : Reachable host s world)
    {moves : List (Move Call R τ)} (h : playAll host permitted world moves = some world') :
    Reachable host s world' := by
  induction moves generalizing world with
  | nil =>
    obtain rfl := Option.some.inj h
    exact hreachable
  | cons move rest ih =>
    obtain ⟨next, hnext, hrest⟩ := Option.bind_eq_some_iff.mp h
    exact ih (.step hreachable (step_of_play hpermitted hnext)) hrest

/-! One task alone. -/

variable (host) in
/-- A process goes on alone with the object, and with replies the outside may give. -/
inductive Alone : σ → Process Q R E V → σ → Process Q R E V → Prop
  | refl (s p) : Alone s p s p
  | ask {s q resume x s' p'} (t : τ) (haddressed : host.addressed q = some x)
      (h : Alone (host.answer s (x, t)).2 (resume (host.reply (host.answer s (x, t)).1)) s' p') :
      Alone s (Process.request q resume) s' p'
  | told {s q resume s' p'} (r : R) (hpermitted : host.permitted q r)
      (h : Alone s (resume r) s' p') : Alone s (Process.request q resume) s' p'

/-- A pool can let one of its tasks go on alone. -/
theorem leads_of_alone {s s' : σ} {p p' : Process Q R E V} (h : Alone host s p s' p')
    {world : World Call Q R E V ι τ ο σ} (hobject : world.object = s) {i : ℕ} {call : Call}
    (htask : world.tasks[i]? = some (call, p)) :
    ∃ world', Leads host world world' ∧ world'.object = s' ∧
      world'.tasks[i]? = some (call, p') := by
  induction h generalizing world with
  | refl s p => exact ⟨world, .refl, hobject, htask⟩
  | @ask s q resume x s' p' t haddressed _ ih =>
    subst hobject
    have hlt : i < world.tasks.length := (List.getElem?_eq_some_iff.mp htask).1
    let waiting : World Call Q R E V ι τ ο σ := { world with
      tasks := world.tasks.set i (call, Process.waiting q resume)
      log := world.log ++ [.sent i q] }
    have hwaiting : waiting.tasks[i]? = some (call, Process.waiting q resume) :=
      List.getElem?_set_self hlt
    have hsend : Step host world waiting := .send htask
    have hperform : Step host waiting _ := .perform t hwaiting haddressed
    have hnext : (waiting.tasks.set i
        (call, resume (host.reply (host.answer world.object (x, t)).1)))[i]? =
        some (call, resume (host.reply (host.answer world.object (x, t)).1)) :=
      List.getElem?_set_self (by rwa [List.length_set])
    obtain ⟨world', hleads, hobject', htask'⟩ := ih
      (show World.object ⟨_, waiting.late, waiting.log ++ [.performed i true q (x, t)
        (host.answer world.object (x, t)).1], (host.answer world.object (x, t)).2⟩ = _ from rfl)
      hnext
    exact ⟨world', .head hsend (.head hperform hleads), hobject', htask'⟩
  | @told s q resume s' p' r hpermitted _ ih =>
    have hlt : i < world.tasks.length := (List.getElem?_eq_some_iff.mp htask).1
    let waiting : World Call Q R E V ι τ ο σ := { world with
      tasks := world.tasks.set i (call, Process.waiting q resume)
      log := world.log ++ [.sent i q] }
    have hwaiting : waiting.tasks[i]? = some (call, Process.waiting q resume) :=
      List.getElem?_set_self hlt
    have hsend : Step host world waiting := .send htask
    have houtside : Step host waiting _ := .outside hwaiting hpermitted
    have hnext : (waiting.tasks.set i (call, resume r))[i]? = some (call, resume r) :=
      List.getElem?_set_self (by rwa [List.length_set])
    obtain ⟨world', hleads, hobject', htask'⟩ := ih
      (show World.object ⟨_, waiting.late, waiting.log ++ [.replied i q r], world.object⟩ = s
        from hobject) hnext
    exact ⟨world', .head hsend (.head houtside hleads), hobject', htask'⟩

end CapabilityCompiler.Foundation.Pool
