import CapabilityCompiler.Foundation.Conduct
import CapabilityCompiler.Foundation.Machine
import Mathlib.Logic.Relation

/-! Concurrent tasks over one shared object. A request of a task may address the object; the others
go to the outside. A waiting task may be cancelled at any time, and what it has asked of the object
may still be performed later, once. -/
namespace CapabilityCompiler.Foundation

/-- The tasks' processes, the shared object, and the replies of the outside. -/
structure PoolHost (Call Q R E V ι τ ο σ : Type) where
  process : Call → Process Q R E V
  /-- What a request asks of the object. -/
  addressed : Q → Option ι
  /-- The object answers an input with the outside's part of it, such as a clock reading. -/
  answer : σ → ι × τ → ο × σ
  reply : ο → R
  /-- What the outside may reply on its own. -/
  permitted : Q → R → Prop
  cancelled : R

namespace Pool

/-- What has happened to a task: its requests, and the replies to them. -/
inductive Entry (Q R ι τ ο : Type) where
  | sent (task : ℕ) (q : Q)
  | performed (task : ℕ) (delivered : Bool) (q : Q) (input : ι × τ) (output : ο)
  | replied (task : ℕ) (q : Q) (r : R)

structure World (Call Q R E V ι τ ο σ : Type) where
  tasks : List (Call × Process Q R E V)
  /-- Requests to the object whose tasks were cancelled. -/
  late : List (ℕ × Q)
  log : List (Entry Q R ι τ ο)
  object : σ

variable {Call Q R E V ι τ ο σ : Type} (host : PoolHost Call Q R E V ι τ ο σ)

/-- One step of the pool. -/
inductive Step : World Call Q R E V ι τ ο σ → World Call Q R E V ι τ ο σ → Prop
  | spawn (world) (call : Call) :
      Step world { world with tasks := world.tasks ++ [(call, host.process call)] }
  | send {world} {i : ℕ} {call q resume}
      (htask : world.tasks[i]? = some (call, Process.request q resume)) :
      Step world { world with
        tasks := world.tasks.set i (call, Process.waiting q resume)
        log := world.log ++ [.sent i q] }
  | perform {world} {i : ℕ} {call q resume x} (t : τ)
      (htask : world.tasks[i]? = some (call, Process.waiting q resume))
      (haddressed : host.addressed q = some x) :
      Step world { world with
        tasks := world.tasks.set i
          (call, resume (host.reply (host.answer world.object (x, t)).1))
        log := world.log ++
          [.performed i true q (x, t) (host.answer world.object (x, t)).1]
        object := (host.answer world.object (x, t)).2 }
  | outside {world} {i : ℕ} {call q resume r}
      (htask : world.tasks[i]? = some (call, Process.waiting q resume))
      (hpermitted : host.permitted q r) :
      Step world { world with
        tasks := world.tasks.set i (call, resume r), log := world.log ++ [.replied i q r] }
  | cancel {world} {i : ℕ} {call q resume}
      (htask : world.tasks[i]? = some (call, Process.waiting q resume)) :
      Step world { world with
        tasks := world.tasks.set i (call, resume host.cancelled)
        late := world.late ++ [(i, q)]
        log := world.log ++ [.replied i q host.cancelled] }
  | afterwards {world} {i : ℕ} {q x} {before after : List (ℕ × Q)} (t : τ)
      (hlate : world.late = before ++ (i, q) :: after) (haddressed : host.addressed q = some x) :
      Step world { world with
        late := before ++ after
        log := world.log ++
          [.performed i false q (x, t) (host.answer world.object (x, t)).1]
        object := (host.answer world.object (x, t)).2 }

/-- The worlds of a run from an object without tasks. -/
inductive Reachable (s : σ) : World Call Q R E V ι τ ο σ → Prop
  | start : Reachable s ⟨[], [], [], s⟩
  | step {world world'} (h : Reachable s world) (hstep : Step host world world') :
      Reachable s world'

variable {host}

/-- The events of one task. -/
def eventOf (host : PoolHost Call Q R E V ι τ ο σ) (i : ℕ) :
    Entry Q R ι τ ο → Option (Process.Event Q R)
  | .sent task q => if task = i then some (.sent q) else none
  | .performed task delivered q _ output =>
    if task = i ∧ delivered = true then some (.replied q (host.reply output)) else none
  | .replied task q r => if task = i then some (.replied q r) else none

def eventsOf (host : PoolHost Call Q R E V ι τ ο σ) (i : ℕ) (log : List (Entry Q R ι τ ο)) :
    List (Process.Event Q R) :=
  log.filterMap (eventOf host i)

/-- The inputs of the object with its answers. -/
def performance : Entry Q R ι τ ο → Option ((ι × τ) × ο)
  | .performed _ _ _ input output => some (input, output)
  | _ => none

theorem eventsOf_append (i : ℕ) (log : List (Entry Q R ι τ ο)) (entry : Entry Q R ι τ ο) :
    eventsOf host i (log ++ [entry]) = eventsOf host i log ++ (eventOf host i entry).toList := by
  rw [eventsOf, List.filterMap_append]
  cases h : eventOf host i entry <;> simp [h, eventsOf]

/-! Every task runs its own process. -/

theorem run_of_reachable {s : σ} {world : World Call Q R E V ι τ ο σ} (h : Reachable host s world) :
    (∀ i call p, world.tasks[i]? = some (call, p) →
      Process.Run (host.process call) (eventsOf host i world.log) p) ∧
    ∀ i, world.tasks.length ≤ i → eventsOf host i world.log = [] := by
  induction h with
  | start => exact ⟨fun i call p h => by simp at h, fun i _ => rfl⟩
  | @step world world' _ hstep ih =>
    obtain ⟨hrun, hnone⟩ := ih
    have hmoved : ∀ {i : ℕ} {call p p'} {entry : Entry Q R ι τ ο} {event : Process.Event Q R},
        world.tasks[i]? = some (call, p) → Process.Step p [event] p' →
        (∀ j, eventOf host j entry = if i = j then some event else none) →
        (∀ j call' p'', (world.tasks.set i (call, p'))[j]? = some (call', p'') →
          Process.Run (host.process call') (eventsOf host j (world.log ++ [entry])) p'') ∧
        ∀ j, (world.tasks.set i (call, p')).length ≤ j →
          eventsOf host j (world.log ++ [entry]) = [] := by
      intro i call p p' entry event htask hstep hevent
      have hi : i < world.tasks.length := (List.getElem?_eq_some_iff.mp htask).1
      constructor
      · intro j call' p'' hj
        rw [eventsOf_append, hevent]
        by_cases hij : i = j
        · subst hij
          rw [List.getElem?_set_self hi, Option.some.injEq, Prod.mk.injEq] at hj
          obtain ⟨rfl, rfl⟩ := hj
          rw [if_pos rfl]
          exact (hrun i call p htask).trans (.single hstep)
        · rw [List.getElem?_set_ne hij] at hj
          rw [if_neg hij, Option.toList_none, List.append_nil]
          exact hrun j call' p'' hj
      · intro j hj
        rw [List.length_set] at hj
        have hij : i ≠ j := by omega
        rw [eventsOf_append, hevent, if_neg hij, Option.toList_none, List.append_nil]
        exact hnone j hj
    cases hstep with
    | spawn call =>
      constructor
      · intro i call' p hi
        rcases Nat.lt_trichotomy i world.tasks.length with hlt | heq | hgt
        · rw [List.getElem?_append_left hlt] at hi
          exact hrun i call' p hi
        · subst heq
          rw [List.getElem?_concat_length, Option.some.injEq, Prod.mk.injEq] at hi
          obtain ⟨rfl, rfl⟩ := hi
          have hnew := hnone world.tasks.length le_rfl
          simp only [hnew]
          exact .refl _
        · rw [List.getElem?_eq_none (by simp; omega)] at hi
          exact absurd hi (by simp)
      · intro i hi
        exact hnone i (by simp at hi; omega)
    | @send i call q resume htask => exact hmoved htask (.send q resume) fun j => rfl
    | @perform i call q resume x t htask haddressed =>
      refine hmoved htask (.reply q resume _) fun j => ?_
      simp [eventOf]
    | @outside i call q resume r htask _ => exact hmoved htask (.reply q resume r) fun j => rfl
    | @cancel i call q resume htask => exact hmoved htask (.reply q resume host.cancelled) fun j => rfl
    | @afterwards i q x before after t hlate haddressed =>
      have hevent : ∀ j, eventsOf host j (world.log ++
          [.performed i false q (x, t) (host.answer world.object (x, t)).1]) =
          eventsOf host j world.log := by
        intro j
        rw [eventsOf_append]
        simp [eventOf]
      constructor
      · intro j call' p hj
        simp only [hevent]
        exact hrun j call' p hj
      · intro j hj
        simp only [hevent]
        exact hnone j hj

/-! The object has answered what was performed, in its order. -/

def inputs (log : List (Entry Q R ι τ ο)) : List (ι × τ) := (log.filterMap performance).map Prod.fst

theorem inputs_append (first second : List (Entry Q R ι τ ο)) :
    inputs (first ++ second) = inputs first ++ inputs second := by
  simp [inputs]

theorem object_of_reachable {s : σ} {world : World Call Q R E V ι τ ο σ}
    (h : Reachable host s world) :
    world.object = Machine.after host.answer s (inputs world.log) ∧
      world.log.filterMap performance = Machine.trace host.answer s (inputs world.log) := by
  induction h with
  | start => exact ⟨rfl, rfl⟩
  | @step world world' _ hstep ih =>
    obtain ⟨hobject, htrace⟩ := ih
    have hquiet : ∀ entry : Entry Q R ι τ ο, performance entry = none →
        world.object = Machine.after host.answer s (inputs (world.log ++ [entry])) ∧
          (world.log ++ [entry]).filterMap performance =
            Machine.trace host.answer s (inputs (world.log ++ [entry])) := by
      intro entry hentry
      have hnone : [entry].filterMap performance = [] := by simp [hentry]
      have hinputs : inputs [entry] = ([] : List (ι × τ)) := by rw [inputs, hnone, List.map_nil]
      rw [inputs_append, hinputs, List.append_nil, List.filterMap_append, hnone, List.append_nil]
      exact ⟨hobject, htrace⟩
    have hperformed : ∀ (i : ℕ) (delivered : Bool) (q : Q) (input : ι × τ),
        (host.answer world.object input).2 = Machine.after host.answer s (inputs (world.log ++
          [Entry.performed i delivered q input (host.answer world.object input).1])) ∧
        (world.log ++ [Entry.performed i delivered q input (host.answer world.object input).1]).filterMap
            performance = Machine.trace host.answer s (inputs (world.log ++
          [Entry.performed i delivered q input (host.answer world.object input).1])) := by
      intro i delivered q input
      have hone : inputs [(Entry.performed i delivered q input (host.answer world.object input).1 :
          Entry Q R ι τ ο)] = [input] := rfl
      rw [inputs_append, hone, Machine.after_append, Machine.trace_append, List.filterMap_append,
        ← hobject, htrace]
      exact ⟨rfl, rfl⟩
    cases hstep with
    | spawn call => exact ⟨hobject, htrace⟩
    | send _ => exact hquiet _ rfl
    | perform t _ _ => exact hperformed _ _ _ _
    | outside _ _ => exact hquiet _ rfl
    | cancel _ => exact hquiet _ rfl
    | afterwards t _ _ => exact hperformed _ _ _ _

/-- What was performed was answered in the state that all before it had led to. -/
theorem answer_of_performed {s : σ} {world : World Call Q R E V ι τ ο σ}
    (h : Reachable host s world) {before after : List (Entry Q R ι τ ο)} {i : ℕ} {delivered : Bool}
    {q : Q} {input : ι × τ} {output : ο}
    (hlog : world.log = before ++ .performed i delivered q input output :: after) :
    output = (host.answer (Machine.after host.answer s (inputs before)) input).1 := by
  have htrace := (object_of_reachable h).2
  have hsplit : (before ++ Entry.performed i delivered q input output :: after).filterMap
      performance =
      before.filterMap performance ++ (input, output) :: after.filterMap performance := by
    rw [List.filterMap_append]
    rfl
  have hinputs : inputs (before ++ Entry.performed i delivered q input output :: after) =
      inputs before ++ (input :: inputs after) := by
    rw [inputs, hsplit, List.map_append]
    rfl
  rw [hlog, hsplit, hinputs, Machine.trace_append] at htrace
  have hlength : (before.filterMap performance).length =
      (Machine.trace host.answer s (inputs before)).length := by
    rw [Machine.length_trace, inputs, List.length_map]
  have hrest := (List.append_inj htrace hlength).2
  exact (Prod.mk.inj (List.cons.inj hrest).1).2

/-- The answers of an earlier log are those of the object so far. -/
theorem trace_of_reachable {s : σ} {world : World Call Q R E V ι τ ο σ}
    (h : Reachable host s world) {before after : List (Entry Q R ι τ ο)}
    (hlog : world.log = before ++ after) :
    before.filterMap performance = Machine.trace host.answer s (inputs before) := by
  have htrace := (object_of_reachable h).2
  rw [hlog, inputs_append, Machine.trace_append, List.filterMap_append] at htrace
  have hlength : (before.filterMap performance).length =
      (Machine.trace host.answer s (inputs before)).length := by
    rw [Machine.length_trace, inputs, List.length_map]
  exact (List.append_inj htrace hlength).1

theorem performed_of_trace {log : List (Entry Q R ι τ ο)} {input : ι × τ} {output : ο}
    (h : (input, output) ∈ log.filterMap performance) :
    ∃ i delivered q, .performed i delivered q input output ∈ log := by
  obtain ⟨entry, hmem, hperformed⟩ := List.mem_filterMap.mp h
  cases entry with
  | sent _ _ => simp [performance] at hperformed
  | replied _ _ _ => simp [performance] at hperformed
  | performed i delivered q input' output' =>
    obtain ⟨rfl, rfl⟩ : input' = input ∧ output' = output := by simpa [performance] using hperformed
    exact ⟨i, delivered, q, hmem⟩

theorem after_performed (s : σ) {before : List (Entry Q R ι τ ο)} (i : ℕ) (delivered : Bool) (q : Q)
    (input : ι × τ) (output : ο) (rest : List (Entry Q R ι τ ο)) :
    Machine.after host.answer s (inputs (before ++ .performed i delivered q input output :: rest)) =
      Machine.after host.answer
        (host.answer (Machine.after host.answer s (inputs before)) input).2 (inputs rest) := by
  rw [inputs_append, Machine.after_append]
  rfl

/-! Later worlds of a run. -/

/-- The worlds that a run comes to from another. -/
abbrev Leads (host : PoolHost Call Q R E V ι τ ο σ) :
    World Call Q R E V ι τ ο σ → World Call Q R E V ι τ ο σ → Prop :=
  Relation.ReflTransGen (Step host)

theorem reachable_of_leads {s : σ} {world world' : World Call Q R E V ι τ ο σ}
    (h : Reachable host s world) (hleads : Leads host world world') : Reachable host s world' := by
  induction hleads with
  | refl => exact h
  | tail _ hstep ih => exact .step ih hstep

theorem log_of_leads {world world' : World Call Q R E V ι τ ο σ}
    (hleads : Leads host world world') : ∃ rest, world'.log = world.log ++ rest := by
  induction hleads with
  | refl => exact ⟨[], (List.append_nil _).symm⟩
  | @tail next last _ hstep ih =>
    obtain ⟨rest, hrest⟩ := ih
    have hlast : ∃ more, last.log = next.log ++ more := by
      cases hstep with
      | spawn call => exact ⟨[], (List.append_nil _).symm⟩
      | send _ => exact ⟨_, rfl⟩
      | perform t _ _ => exact ⟨_, rfl⟩
      | outside _ _ => exact ⟨_, rfl⟩
      | cancel _ => exact ⟨_, rfl⟩
      | afterwards t _ _ => exact ⟨_, rfl⟩
    obtain ⟨more, hmore⟩ := hlast
    exact ⟨rest ++ more, by rw [hmore, hrest, List.append_assoc]⟩

/-! Tasks that keep to their conduct. -/

section Conduct
variable {may : Call → List (Process.Event Q R) → Q → Prop}
  {ends : Call → List (Process.Event Q R) → Except E V → Prop} {s : σ}
  {world : World Call Q R E V ι τ ο σ}

theorem keeps_of_task (hkeeps : ∀ call, Process.Keeps (may call) (ends call) [] (host.process call))
    (h : Reachable host s world) {i : ℕ} {call : Call} {p : Process Q R E V}
    (htask : world.tasks[i]? = some (call, p)) :
    Process.Keeps (may call) (ends call) (eventsOf host i world.log) p := by
  have hrun := (run_of_reachable h).1 i call p htask
  exact (hkeeps call).run hrun

theorem ends_of_done (hkeeps : ∀ call, Process.Keeps (may call) (ends call) [] (host.process call))
    (h : Reachable host s world) {i : ℕ} {call : Call} {v : V}
    (htask : world.tasks[i]? = some (call, .done v)) :
    ends call (eventsOf host i world.log) (.ok v) :=
  (keeps_of_task hkeeps h htask).of_done

theorem mem_of_sent {i : ℕ} {q : Q} {log : List (Entry Q R ι τ ο)}
    (h : .sent q ∈ eventsOf host i log) : .sent i q ∈ log := by
  obtain ⟨entry, hmem, hevent⟩ := List.mem_filterMap.mp h
  cases entry with
  | sent task q' =>
    rw [eventOf] at hevent
    split at hevent
    · rename_i htask
      obtain rfl : q' = q := by simpa using hevent
      rwa [← htask]
    · exact absurd hevent (by simp)
  | performed task delivered q' input output =>
    rw [eventOf] at hevent
    split at hevent
    · exact absurd hevent (by simp)
    · exact absurd hevent (by simp)
  | replied task q' r =>
    rw [eventOf] at hevent
    split at hevent
    · exact absurd hevent (by simp)
    · exact absurd hevent (by simp)

theorem mem_of_replied {i : ℕ} {q : Q} {r : R} {log : List (Entry Q R ι τ ο)}
    (h : .replied q r ∈ eventsOf host i log) :
    (∃ input output, .performed i true q input output ∈ log ∧ r = host.reply output) ∨
      .replied i q r ∈ log := by
  obtain ⟨entry, hmem, hevent⟩ := List.mem_filterMap.mp h
  cases entry with
  | sent task q' =>
    rw [eventOf] at hevent
    split at hevent
    · exact absurd hevent (by simp)
    · exact absurd hevent (by simp)
  | performed task delivered q' input output =>
    rw [eventOf] at hevent
    split at hevent
    · rename_i htask
      obtain ⟨rfl, rfl⟩ : q' = q ∧ host.reply output = r := by simpa using hevent
      rw [htask.1, htask.2] at hmem
      exact .inl ⟨input, output, hmem, rfl⟩
    · exact absurd hevent (by simp)
  | replied task q' r' =>
    rw [eventOf] at hevent
    split at hevent
    · rename_i htask
      obtain ⟨rfl, rfl⟩ : q' = q ∧ r' = r := by simpa using hevent
      rw [htask] at hmem
      exact .inr hmem
    · exact absurd hevent (by simp)

/-- A list that ends with one entry splits before it, or at it. -/
theorem split_concat {α : Type} {log before after : List α} {last entry : α}
    (h : log ++ [last] = before ++ entry :: after) :
    (before = log ∧ entry = last) ∨ ∃ rest, log = before ++ entry :: rest := by
  rcases List.eq_nil_or_concat after with rfl | ⟨rest, final, rfl⟩
  · have hlists := List.append_inj' h rfl
    exact .inl ⟨hlists.1.symm, (List.cons.inj hlists.2).1.symm⟩
  · rw [List.concat_eq_append, ← List.cons_append, ← List.append_assoc] at h
    exact .inr ⟨rest, (List.append_inj' h rfl).1⟩

/-- What holds of every entry when it is written, and stays, holds of the entries of the log. -/
theorem entry_induction {P : World Call Q R E V ι τ ο σ → List (Entry Q R ι τ ο) →
      Entry Q R ι τ ο → Prop}
    (hwritten : ∀ {world world' entry}, Reachable host s world → Step host world world' →
      world'.log = world.log ++ [entry] → P world' world.log entry)
    (hstays : ∀ {world world' before entry}, Step host world world' → P world before entry →
      P world' before entry)
    (h : Reachable host s world) {before after : List (Entry Q R ι τ ο)} {entry : Entry Q R ι τ ο}
    (hlog : world.log = before ++ entry :: after) : P world before entry := by
  induction h generalizing after with
  | start => exact absurd hlog (by simp)
  | @step world world' hreachable hstep ih =>
    have hlast : world'.log = world.log ∨ ∃ last, world'.log = world.log ++ [last] := by
      cases hstep with
      | spawn call => exact .inl rfl
      | send _ => exact .inr ⟨_, rfl⟩
      | perform t _ _ => exact .inr ⟨_, rfl⟩
      | outside _ _ => exact .inr ⟨_, rfl⟩
      | cancel _ => exact .inr ⟨_, rfl⟩
      | afterwards t _ _ => exact .inr ⟨_, rfl⟩
    rcases hlast with hsame | ⟨last, hlast⟩
    · exact hstays hstep (ih (hsame ▸ hlog))
    · rw [hlast] at hlog
      rcases split_concat hlog with ⟨rfl, rfl⟩ | ⟨rest, hrest⟩
      · exact hwritten hreachable hstep hlast
      · exact hstays hstep (ih hrest)

/-- The task of an entry keeps its call. -/
theorem call_stays {world' : World Call Q R E V ι τ ο σ} (hstep : Step host world world') {i : ℕ}
    {call : Call} {p : Process Q R E V} (htask : world.tasks[i]? = some (call, p)) :
    ∃ p', world'.tasks[i]? = some (call, p') := by
  have hset : ∀ {j : ℕ} {call' : Call} {p' p'' : Process Q R E V},
      world.tasks[j]? = some (call', p') →
      ∃ p', (world.tasks.set j (call', p''))[i]? = some (call, p') := by
    intro j call' p' p'' hj
    by_cases hij : j = i
    · subst hij
      obtain ⟨rfl, rfl⟩ : call = call' ∧ p = p' := by simpa using htask.symm.trans hj
      have hlt : j < world.tasks.length := (List.getElem?_eq_some_iff.mp hj).1
      exact ⟨p'', List.getElem?_set_self hlt⟩
    · exact ⟨p, by rw [List.getElem?_set_ne hij, htask]⟩
  cases hstep with
  | spawn call' =>
    have hlt : i < world.tasks.length := (List.getElem?_eq_some_iff.mp htask).1
    exact ⟨p, by simpa [List.getElem?_append_left hlt] using htask⟩
  | send hj => exact hset hj
  | perform t hj _ => exact hset hj
  | outside hj _ => exact hset hj
  | cancel hj => exact hset hj
  | afterwards t _ _ => exact ⟨p, htask⟩

/-- A request was sent by a task that might send it then. -/
theorem may_of_sent (hkeeps : ∀ call, Process.Keeps (may call) (ends call) [] (host.process call))
    (h : Reachable host s world) {before after : List (Entry Q R ι τ ο)} {i : ℕ} {q : Q}
    (hlog : world.log = before ++ .sent i q :: after) :
    ∃ call p, world.tasks[i]? = some (call, p) ∧ may call (eventsOf host i before) q := by
  refine entry_induction (P := fun world before entry => ∀ i q, entry = .sent i q →
    ∃ call p, world.tasks[i]? = some (call, p) ∧ may call (eventsOf host i before) q) ?_ ?_ h hlog
    i q rfl
  · rintro world world' entry hreachable hstep hlast i q rfl
    cases hstep with
    | spawn call => simp at hlast
    | @send j call q' resume htask =>
      obtain ⟨rfl, rfl⟩ : j = i ∧ q' = q := by simpa using hlast
      have hlt : j < world.tasks.length := (List.getElem?_eq_some_iff.mp htask).1
      exact ⟨call, _, List.getElem?_set_self hlt,
        (keeps_of_task hkeeps hreachable htask).may_of_request⟩
    | perform t _ _ => simp at hlast
    | outside _ _ => simp at hlast
    | cancel _ => simp at hlast
    | afterwards t _ _ => simp at hlast
  · intro world world' before entry hstep hP i q hentry
    obtain ⟨call, p, htask, hmay⟩ := hP i q hentry
    obtain ⟨p', htask'⟩ := call_stays hstep htask
    exact ⟨call, p', htask', hmay⟩

/-- What is performed late was sent. -/
theorem late_sent (hkeeps : ∀ call, Process.Keeps (may call) (ends call) [] (host.process call))
    (h : Reachable host s world) {i : ℕ} {q : Q} (hlate : (i, q) ∈ world.late) :
    .sent i q ∈ world.log := by
  induction h with
  | start => exact absurd hlate (by simp)
  | @step world world' hreachable hstep ih =>
    cases hstep with
    | spawn call => exact ih hlate
    | send _ => exact List.mem_append_left _ (ih hlate)
    | perform t _ _ => exact List.mem_append_left _ (ih hlate)
    | outside _ _ => exact List.mem_append_left _ (ih hlate)
    | @cancel j call q' resume htask =>
      refine List.mem_append_left _ ?_
      rcases List.mem_append.mp hlate with hearlier | hnew
      · exact ih hearlier
      · obtain ⟨rfl, rfl⟩ : i = j ∧ q = q' := by simpa using hnew
        exact mem_of_sent (keeps_of_task hkeeps hreachable htask).sent_of_waiting
    | @afterwards j q' x before after t hsplit haddressed =>
      refine List.mem_append_left _ (ih ?_)
      rw [hsplit]
      rcases List.mem_append.mp hlate with hbefore | hafter
      · exact List.mem_append_left _ hbefore
      · exact List.mem_append_right _ (List.mem_cons_of_mem _ hafter)

/-- What was performed was sent before, and addresses the object. -/
theorem sent_of_performed
    (hkeeps : ∀ call, Process.Keeps (may call) (ends call) [] (host.process call))
    (h : Reachable host s world) {before after : List (Entry Q R ι τ ο)} {i : ℕ} {delivered : Bool}
    {q : Q} {input : ι × τ} {output : ο}
    (hlog : world.log = before ++ .performed i delivered q input output :: after) :
    .sent i q ∈ before ∧ host.addressed q = some input.1 := by
  refine entry_induction (P := fun _ before entry => ∀ i delivered q input output,
    entry = .performed i delivered q input output →
      .sent i q ∈ before ∧ host.addressed q = some input.1) ?_ (fun _ hP => hP) h hlog
    i delivered q input output rfl
  rintro world world' entry hreachable hstep hlast i delivered q input output rfl
  cases hstep with
  | spawn call => simp at hlast
  | send _ => simp at hlast
  | @perform j call q' resume x t htask haddressed =>
    obtain ⟨rfl, -, rfl, rfl, -⟩ : j = i ∧ true = delivered ∧ q' = q ∧ (x, t) = input ∧ _ := by
      simpa using hlast
    exact ⟨mem_of_sent (keeps_of_task hkeeps hreachable htask).sent_of_waiting, haddressed⟩
  | outside _ _ => simp at hlast
  | cancel _ => simp at hlast
  | @afterwards j q' x first rest t hsplit haddressed =>
    obtain ⟨rfl, -, rfl, rfl, -⟩ : j = i ∧ false = delivered ∧ q' = q ∧ (x, t) = input ∧ _ := by
      simpa using hlast
    refine ⟨late_sent hkeeps hreachable ?_, haddressed⟩
    rw [hsplit]
    exact List.mem_append_right _ List.mem_cons_self

/-- What was replied to was sent before. -/
theorem sent_of_replied
    (hkeeps : ∀ call, Process.Keeps (may call) (ends call) [] (host.process call))
    (h : Reachable host s world) {before after : List (Entry Q R ι τ ο)} {i : ℕ} {q : Q} {r : R}
    (hlog : world.log = before ++ .replied i q r :: after) : .sent i q ∈ before := by
  refine entry_induction (P := fun _ before entry => ∀ i q r, entry = .replied i q r →
    .sent i q ∈ before) ?_ (fun _ hP => hP) h hlog i q r rfl
  rintro world world' entry hreachable hstep hlast i q r rfl
  cases hstep with
  | spawn call => simp at hlast
  | send _ => simp at hlast
  | perform t _ _ => simp at hlast
  | @outside j call q' resume r' htask hpermitted =>
    obtain ⟨rfl, rfl, -⟩ : j = i ∧ q' = q ∧ r' = r := by simpa using hlast
    exact mem_of_sent (keeps_of_task hkeeps hreachable htask).sent_of_waiting
  | @cancel j call q' resume htask =>
    obtain ⟨rfl, rfl, -⟩ : j = i ∧ q' = q ∧ host.cancelled = r := by simpa using hlast
    exact mem_of_sent (keeps_of_task hkeeps hreachable htask).sent_of_waiting
  | afterwards t _ _ => simp at hlast

end Conduct

/-- A request whose task was cancelled is still to be performed, or was so later. -/
theorem late_of_cancelled {s : σ} {world : World Call Q R E V ι τ ο σ}
    (h : Reachable host s world) {i : ℕ} {q : Q} (hforeign : ¬ host.permitted q host.cancelled)
    (hcancelled : .replied i q host.cancelled ∈ world.log) :
    (i, q) ∈ world.late ∨ ∃ input output, .performed i false q input output ∈ world.log := by
  obtain ⟨before, after, hlog⟩ := List.append_of_mem hcancelled
  refine entry_induction (P := fun world _ entry => ∀ i q, ¬ host.permitted q host.cancelled →
    entry = .replied i q host.cancelled →
    (i, q) ∈ world.late ∨ ∃ input output, .performed i false q input output ∈ world.log) ?_ ?_ h
    hlog i q hforeign rfl
  · rintro world world' entry - hstep hlast i q hforeign rfl
    cases hstep with
    | spawn call => simp at hlast
    | send _ => simp at hlast
    | perform t _ _ => simp at hlast
    | @outside j call q' resume r' htask hpermitted =>
      obtain ⟨rfl, rfl, rfl⟩ : j = i ∧ q' = q ∧ r' = host.cancelled := by simpa using hlast
      exact absurd hpermitted hforeign
    | @cancel j call q' resume htask =>
      obtain ⟨rfl, rfl⟩ : j = i ∧ q' = q := by simpa using hlast
      exact .inl (List.mem_append_right _ (List.mem_singleton_self _))
    | afterwards t _ _ => simp at hlast
  · intro world world' before entry hstep hP i q hforeign hentry
    have hearlier := hP i q hforeign hentry
    have hlonger : ∀ last, (i, q) ∈ world.late ∨
        (∃ input output, .performed i false q input output ∈ world.log) →
        (i, q) ∈ world.late ∨
          ∃ input output, .performed i false q input output ∈ world.log ++ [last] := by
      rintro last (hlate | ⟨input, output, hmem⟩)
      · exact .inl hlate
      · exact .inr ⟨input, output, List.mem_append_left _ hmem⟩
    cases hstep with
    | spawn call => exact hearlier
    | send _ => exact hlonger _ hearlier
    | perform t _ _ => exact hlonger _ hearlier
    | outside _ _ => exact hlonger _ hearlier
    | cancel _ =>
      rcases hlonger _ hearlier with hlate | hperformed
      · exact .inl (List.mem_append_left _ hlate)
      · exact .inr hperformed
    | @afterwards j q' x first rest t hsplit haddressed =>
      rcases hearlier with hlate | ⟨input, output, hmem⟩
      · rw [hsplit] at hlate
        rcases List.mem_append.mp hlate with hfirst | hlate
        · exact .inl (List.mem_append_left _ hfirst)
        · rcases List.mem_cons.mp hlate with hsame | hrest
          · obtain ⟨rfl, rfl⟩ := Prod.mk.inj hsame
            exact .inr ⟨_, _, List.mem_append_right _ (List.mem_singleton_self _)⟩
          · exact .inl (List.mem_append_right _ hrest)
      · exact .inr ⟨input, output, List.mem_append_left _ hmem⟩

/-- What the outside replied it was permitted to, or the task was cancelled. -/
theorem permitted_of_replied {s : σ} {world : World Call Q R E V ι τ ο σ}
    (h : Reachable host s world) {before after : List (Entry Q R ι τ ο)} {i : ℕ} {q : Q} {r : R}
    (hlog : world.log = before ++ .replied i q r :: after) :
    host.permitted q r ∨ r = host.cancelled := by
  refine entry_induction (P := fun _ _ entry => ∀ i q r, entry = .replied i q r →
    host.permitted q r ∨ r = host.cancelled) ?_ (fun _ hP => hP) h hlog i q r rfl
  rintro world world' entry hreachable hstep hlast i q r rfl
  cases hstep with
  | spawn call => simp at hlast
  | send _ => simp at hlast
  | perform t _ _ => simp at hlast
  | @outside j call q' resume r' htask hpermitted =>
    obtain ⟨-, rfl, rfl⟩ : j = i ∧ q' = q ∧ r' = r := by simpa using hlast
    exact .inl hpermitted
  | @cancel j call q' resume htask =>
    obtain ⟨-, -, rfl⟩ : j = i ∧ q' = q ∧ host.cancelled = r := by simpa using hlast
    exact .inr rfl
  | afterwards t _ _ => simp at hlast

end Pool
end CapabilityCompiler.Foundation
