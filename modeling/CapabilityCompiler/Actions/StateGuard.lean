import CapabilityCompiler.Actions.ResourceLock
import CapabilityCompiler.Actions.SealedArguments

/-! Commits with a local development state guard that share a table of resource locks. -/
namespace CapabilityCompiler.Actions
open Foundation Models Compiler Execution

/-- A commit of an action with a state guard. -/
structure GuardedCommit where
  {isValid : Json → Json → Bool}
  host : Host
  loaded : LoadedAction isValid
  guard : LocalDevelopmentStateGuard
  execution : ActionCommitExecution
  principalContext : PrincipalContext
  guarded : loaded.capability.action.localDevelopmentStateGuard = some guard

abbrev GuardedEvent := Process.Event ActionRequest ActionReply

/-- A request that does not mutate. -/
def Reads : ActionRequest → Prop
  | .mutate _ _ _ => False
  | _ => True

namespace GuardedCommit
variable (c : GuardedCommit)

def process : ActionProcess := commit c.host c.loaded c.execution c.principalContext

/-- The sealed input is previewed again. -/
def reread : ActionProcess :=
  preview c.host c.loaded c.execution.inputValue c.principalContext

/-- What the commit does with the fresh preview. -/
def afterReread (fresh : Json) : ActionProcess :=
  checked (validateLocalDevelopmentRecheck c.guard c.execution.previewValue fresh) fun terminal =>
    if terminal then validateActionOutput c.host c.loaded fresh (.done fresh)
    else commitLoaded c.host c.loaded
      { inputValue := c.execution.inputValue
        previewValue := fresh
        concurrencyToken := c.execution.concurrencyToken
        idempotencyKey := c.execution.idempotencyKey } c.principalContext

/-- What the commit does once it has asked for the lock. -/
def body : ActionReply → ActionProcess
  | .held => c.reread.bind c.afterReread
  | .error error => fail error
  | _ => .failed .exception

/-- The fresh state is the prepared one; it is allowed and not terminal. -/
def Unchanged (fresh : Json) : Prop :=
  ∃ prepared state,
    resolveJsonPointer c.execution.previewValue c.guard.statePointer = some prepared ∧
    resolveJsonPointer fresh c.guard.statePointer = some state ∧
    sameText state prepared = true ∧ hasText c.guard.allowedValues state = true ∧
    hasText c.guard.terminalValues state = false

variable {c}

theorem unchanged_of_recheck {fresh : Json}
    (h : validateLocalDevelopmentRecheck c.guard c.execution.previewValue fresh = .ok false) :
    c.Unchanged fresh := by
  unfold validateLocalDevelopmentRecheck at h
  split at h
  · rename_i prepared state hprepared hstate
    split_ifs at h with hpermitted hterminal hchanged
    · exact absurd h (by simp)
    · rw [Bool.or_eq_true, not_or, Bool.not_eq_true', Bool.not_eq_true'] at hchanged
      exact ⟨prepared, state, hprepared, hstate, by simpa using hchanged.2,
        by simpa using hchanged.1, by simpa using hterminal⟩
  · exact absurd h (by simp)

/-- A commit is refused, or asks for the lock of its resource. -/
theorem process_cases (c : GuardedCommit) :
    (∃ e, c.process = .failed e) ∨ ∃ key,
      resourceLockKey c.host c.loaded c.guard c.execution.inputValue = some key ∧
      c.process = .request (.hold key) c.body := by
  unfold process commit
  split
  · exact .inl ⟨_, rfl⟩
  · rw [c.guarded]
    dsimp only
    split
    · split
      · exact .inl ⟨_, rfl⟩
      · rename_i key hkey
        refine .inr ⟨key, hkey, congrArg _ (funext fun answer => ?_)⟩
        cases answer <;> rfl
    · exact .inl ⟨_, rfl⟩

theorem resourceLockKey_ne_empty {key : String}
    (h : resourceLockKey c.host c.loaded c.guard c.execution.inputValue = some key) : key ≠ "" := by
  have hnonempty : ∀ id digest : String, id ++ ":sha256:" ++ digest ≠ "" := by
    intro id digest hempty
    have hlist := congrArg String.toList hempty
    simp at hlist
  unfold resourceLockKey at h
  split at h
  · exact Option.some.inj h ▸ hnonempty _ _
  · exact Option.some.inj h ▸ hnonempty _ _
  · exact absurd h (by simp)

theorem key_ne_empty {key : String} (h : c.process = .request (.hold key) c.body) : key ≠ "" := by
  rcases process_cases c with ⟨e, hfailed⟩ | ⟨key', hkey, hprocess⟩
  · exact absurd (hfailed.symm.trans h) (by simp)
  · have hsame := hprocess.symm.trans h
    simp only [Process.request.injEq, ActionRequest.hold.injEq, and_true] at hsame
    exact hsame ▸ resourceLockKey_ne_empty hkey

theorem sends_reread (c : GuardedCommit) : Execution.Sends Reads c.reread := by
  have hasks : Asks Reads (c.loaded.caller c.host c.principalContext .preview) :=
    asks_of_read c.host c.loaded (fun _ => trivial) c.principalContext (by decide)
  exact sends_preview c.host c.loaded (performs_of_asks hasks) trivial

/-- Where the state was not kept, nothing is mutated. -/
theorem sends_afterReread {fresh : Json} (h : ¬ c.Unchanged fresh) :
    Execution.Sends Reads (c.afterReread fresh) := by
  refine sends_checked _ fun terminal hchecked => ?_
  cases terminal with
  | true => exact sends_validateActionOutput c.host c.loaded (.done _)
  | false => exact absurd (unchanged_of_recheck hchecked) h

/-- The body of a commit asks for no lock. -/
theorem sends_body (c : GuardedCommit) (answer : ActionReply) :
    Execution.Sends (fun asked => ∀ key, asked ≠ .hold key) (c.body answer) := by
  have hasks : ∀ caller, Asks (fun asked => ∀ key, asked ≠ .hold key) caller := by
    intro caller call asked hrequest key
    obtain ⟨enriched, -, rfl | ⟨-, -, -, rfl⟩⟩ := request_eq_ok hrequest <;> simp
  unfold body
  split
  · refine Process.Obeys.bind (sends_preview c.host c.loaded (performs_of_asks (hasks _)) (by simp))
      fun fresh => sends_checked _ fun terminal _ => ?_
    split
    · exact sends_validateActionOutput c.host c.loaded (.done _)
    · exact sends_commitLoaded_of_performs c.host c.loaded (performs_of_asks (hasks _)) (hasks _)
        (by simp)
  · exact .failed trivial
  · exact .failed trivial

/-- A run of the commit has asked for the lock, was answered, and goes on from there. -/
theorem run_cases {key : String} (hprocess : c.process = .request (.hold key) c.body)
    {events : List GuardedEvent} {p : ActionProcess} (hrun : Process.Run c.process events p) :
    events = [] ∨ events = [.sent (.hold key)] ∨
      ∃ answer rest, events = .sent (.hold key) :: .replied (.hold key) answer :: rest ∧
        Process.Run (c.body answer) rest p := by
  rw [hprocess] at hrun
  cases hrun with
  | refl => exact .inl rfl
  | step hstep hrest =>
    cases hstep
    cases hrest with
    | refl => exact .inr (.inl rfl)
    | step hstep hrest =>
      cases hstep with
      | reply _ _ answer => exact .inr (.inr ⟨answer, _, rfl, hrest⟩)

/-- A commit that waits for a lock waits for the one it asked for first. -/
theorem waiting_eq {key key' : String} (hprocess : c.process = .request (.hold key) c.body)
    {events : List GuardedEvent} {next : ActionReply → ActionProcess}
    (hrun : Process.Run c.process events (.waiting (.hold key') next)) :
    key' = key ∧ next = c.body := by
  rw [hprocess] at hrun
  rcases hrun.waiting_of_request with ⟨hkey, hnext⟩ | ⟨answer, later, hlater⟩
  · exact ⟨ActionRequest.hold.inj hkey, hnext⟩
  · cases ((sends_body c answer).run hlater).1 with
    | waiting hallowed _ => exact absurd rfl (hallowed key')

/-- Once it has mutated, the commit has read its state again under the lock, and it was kept. -/
theorem reread_of_mutate {key : String} (hprocess : c.process = .request (.hold key) c.body)
    {events : List GuardedEvent} {p : ActionProcess} (hrun : Process.Run c.process events p)
    {asked : ActionRequest} (hasked : ¬ Reads asked) (hsent : Process.Event.sent asked ∈ events) :
    ∃ rereading fresh rest,
      events = .sent (.hold key) :: .replied (.hold key) .held :: (rereading ++ rest) ∧
      Process.Run c.reread rereading (.done fresh) ∧ c.Unchanged fresh := by
  have hhold : ¬ Process.Event.sent asked ∈ [(.sent (.hold key) : GuardedEvent)] := by
    intro hmem
    obtain rfl : asked = .hold key := by simpa using hmem
    exact hasked trivial
  rcases run_cases hprocess hrun with rfl | rfl | ⟨answer, rest, rfl, hbody⟩
  · exact absurd hsent List.not_mem_nil
  · exact absurd hsent hhold
  · have hlater : Process.Event.sent asked ∈ rest := by
      rcases List.mem_cons.mp hsent with hfirst | hsent
      · exact absurd (List.mem_singleton.mpr hfirst) hhold
      · exact (List.mem_cons.mp hsent).resolve_left (by simp)
    have hfailed : ∀ e : Failure, c.body answer ≠ .failed e := by
      intro e heq
      rw [heq] at hbody
      obtain ⟨rfl, -⟩ := hbody.of_ended rfl
      exact absurd hlater List.not_mem_nil
    cases answer with
    | held =>
      rcases hbody.bind_cases with ⟨p', hreread, -⟩ |
        ⟨rereading, fresh, others, rfl, hreread, hnext⟩
      · exact absurd (((sends_reread c).run hreread).2 asked hlater) hasked
      · refine ⟨rereading, fresh, others, rfl, hreread, ?_⟩
        by_contra hchanged
        rcases List.mem_append.mp hlater with hfirst | hsecond
        · exact hasked (((sends_reread c).run hreread).2 asked hfirst)
        · exact hasked (((sends_afterReread hchanged).run hnext).2 asked hsecond)
    | _ => exact absurd rfl (hfailed _)

end GuardedCommit

/-! Commits that share one table of locks. -/

/-- A commit that has asked for its lock. -/
structure GuardedTask where
  commit : GuardedCommit
  key : String
  process : ActionProcess
  keyed : commit.process = .request (.hold key) commit.body

/-- The callers of the table are the tasks, in the same order. -/
structure GuardedWorld where
  lock : ResourceLock
  tasks : List GuardedTask
  log : List (ℕ × GuardedEvent)

/-- The commit waits for its lock. -/
def atLock : ActionProcess → Bool
  | .waiting (.hold _) _ => true
  | _ => false

/-- The commit has returned or raised. -/
def isOver (p : ActionProcess) : Bool := p.ended || p.failure?.isSome

theorem isOver_step {p q : ActionProcess} {events : List GuardedEvent} (h : isOver p = true)
    (hstep : Process.Step p events q) : isOver q = true := by
  cases hstep with
  | orphan hchild => rfl
  | _ => exact absurd h (by simp [isOver, Process.ended, Process.failure?])

namespace GuardedTask

/-- The task runs what the lock guards. -/
def inBody (task : GuardedTask) : Bool := !atLock task.process && !isOver task.process

end GuardedTask

namespace GuardedWorld

/-- The process of a task goes on. -/
def advance (world : GuardedWorld) (i : ℕ) (task : GuardedTask) (events : List GuardedEvent)
    (process : ActionProcess) : GuardedWorld :=
  { world with
    tasks := world.tasks.set i { task with process := process }
    log := world.log ++ events.map (i, ·) }

/-- The table of locks takes a step. -/
def locking (world : GuardedWorld) (input : HoldInput) : GuardedWorld :=
  { world with lock := world.lock.step input }

inductive Step : GuardedWorld → GuardedWorld → Prop
  /-- A commit asks for the lock of its resource. -/
  | start {world} (commit : GuardedCommit) {key : String}
      (hkeyed : commit.process = .request (.hold key) commit.body) :
      Step world
        { lock := world.lock.step (.hold key)
          tasks := world.tasks ++ [⟨commit, key, .waiting (.hold key) commit.body, hkeyed⟩]
          log := world.log ++ [(world.tasks.length, .sent (.hold key))] }
  /-- The table wakes a caller, or one that waits is cancelled. -/
  | schedule {world} (caller : ℕ) (input : HoldInput)
      (hinput : input = .cancel caller ∨ input = .resume caller) :
      Step world (world.locking input)
  | enter {world i task key body entry} (htask : world.tasks[i]? = some task)
      (hwaiting : task.process = .waiting (.hold key) body)
      (hinside : world.lock.phase? i = some (.inside entry)) :
      Step world (world.advance i task [.replied (.hold key) .held] (body .held))
  /-- The table is full, or the caller was cancelled. -/
  | refuse {world i task key body} (answer : ActionReply) (htask : world.tasks[i]? = some task)
      (hwaiting : task.process = .waiting (.hold key) body)
      (hleft : world.lock.phase? i = some .left) (hanswer : answer ≠ .held) :
      Step world (world.advance i task [.replied (.hold key) answer] (body answer))
  /-- Any other step of a commit, or of what it has left behind. -/
  | work {world i task events process} (htask : world.tasks[i]? = some task)
      (hbody : atLock task.process = false) (hstep : Process.Step task.process events process) :
      Step world (world.advance i task events process)
  /-- The body has come to its end and the lock is left. -/
  | exit {world i task} (htask : world.tasks[i]? = some task) (hover : isOver task.process = true) :
      Step world (world.locking (.exit i))
  /-- The body is cancelled. -/
  | abort {world i task} (htask : world.tasks[i]? = some task) (hbody : task.inBody = true) :
      Step world ((world.advance i task [] (.failed .exception)).locking (.exit i))

/-- The worlds of the runs that start with an empty table. -/
inductive Reachable (maxEntries : ℕ) : GuardedWorld → Prop
  | start : Reachable maxEntries ⟨{ maxEntries := maxEntries }, [], []⟩
  | step {world world'} (h : Reachable maxEntries world) (hstep : Step world world') :
      Reachable maxEntries world'

/-- The events of one task. -/
def eventsOf (i : ℕ) (log : List (ℕ × GuardedEvent)) : List GuardedEvent :=
  (log.filter (·.1 = i)).map Prod.snd

theorem eventsOf_append (i : ℕ) (first second : List (ℕ × GuardedEvent)) :
    eventsOf i (first ++ second) = eventsOf i first ++ eventsOf i second := by
  simp [eventsOf]

theorem eventsOf_self (i : ℕ) (events : List GuardedEvent) :
    eventsOf i (events.map (i, ·)) = events := by
  simp [eventsOf, List.filter_map, Function.comp_def]

theorem eventsOf_of_ne {i j : ℕ} (h : j ≠ i) (events : List GuardedEvent) :
    eventsOf i (events.map (j, ·)) = [] := by
  simp [eventsOf, List.filter_map, Function.comp_def, h]

/-- What every step keeps: the tasks run their commits, and who is in its body holds its lock. -/
structure Sound (world : GuardedWorld) : Prop where
  lock : world.lock.Consistent
  keys : world.lock.holds.map Hold.key = world.tasks.map GuardedTask.key
  runs : ∀ (i : ℕ) (task : GuardedTask), world.tasks[i]? = some task →
    ∃ reached, Process.Run task.commit.process (eventsOf i world.log) reached ∧
      (task.process = reached ∨ task.process = .failed .exception)
  fresh : ∀ i, world.tasks.length ≤ i → eventsOf i world.log = []
  holding : ∀ (i : ℕ) (task : GuardedTask), world.tasks[i]? = some task → task.inBody = true →
    ∃ hold entry, world.lock.holds[i]? = some hold ∧ hold.phase = .inside entry

variable {world : GuardedWorld} {i : ℕ} {task : GuardedTask} {events : List GuardedEvent}
  {process : ActionProcess}

/-- A task that goes on with a run of its own. -/
theorem Sound.advance (h : world.Sound) (htask : world.tasks[i]? = some task)
    (hruns : ∀ reached, Process.Run task.commit.process (eventsOf i world.log) reached →
      (task.process = reached ∨ task.process = .failed .exception) →
      ∃ reached', Process.Run task.commit.process (eventsOf i world.log ++ events) reached' ∧
        (process = reached' ∨ process = .failed .exception))
    (hholding : GuardedTask.inBody { task with process := process } = true →
      ∃ hold entry, world.lock.holds[i]? = some hold ∧ hold.phase = .inside entry) :
    (world.advance i task events process).Sound := by
  have hlt := (List.getElem?_eq_some_iff.mp htask).1
  have hevents : ∀ j, eventsOf j (world.advance i task events process).log =
      eventsOf j world.log ++ if j = i then events else [] := by
    intro j
    rw [GuardedWorld.advance, eventsOf_append]
    split
    · rename_i hsame
      rw [hsame, eventsOf_self]
    · rename_i hne
      rw [eventsOf_of_ne (Ne.symm hne)]
  refine ⟨h.lock, ?_, fun j other hother => ?_, fun j hj => ?_, fun j other hother hbody => ?_⟩
  · have hmapped : i < (world.tasks.map GuardedTask.key).length := by simpa using hlt
    have hkey : (world.tasks.map GuardedTask.key)[i] = task.key := by
      rw [List.getElem_map, (List.getElem?_eq_some_iff.mp htask).2]
    rw [GuardedWorld.advance, List.map_set, h.keys, ← hkey, List.set_getElem_self]
  · rw [hevents]
    by_cases hsame : j = i
    · subst hsame
      rw [GuardedWorld.advance, List.getElem?_set_self hlt] at hother
      obtain rfl := Option.some.inj hother
      rw [if_pos rfl]
      obtain ⟨reached, hrun, hreached⟩ := h.runs j task htask
      exact hruns reached hrun hreached
    · rw [GuardedWorld.advance, List.getElem?_set_ne (Ne.symm hsame)] at hother
      rw [if_neg hsame, List.append_nil]
      exact h.runs j other hother
  · rw [GuardedWorld.advance, List.length_set] at hj
    rw [hevents, h.fresh j hj, if_neg (by omega)]
    rfl
  · by_cases hsame : j = i
    · subst hsame
      rw [GuardedWorld.advance, List.getElem?_set_self hlt] at hother
      obtain rfl := Option.some.inj hother
      exact hholding hbody
    · rw [GuardedWorld.advance, List.getElem?_set_ne (Ne.symm hsame)] at hother
      exact h.holding j other hother hbody

theorem Sound.schedule (h : world.Sound) {input : HoldInput} {caller : ℕ}
    (hinput : input = .cancel caller ∨ input = .resume caller) : (world.locking input).Sound := by
  refine ⟨h.lock.step input, ?_, h.runs, h.fresh, fun j other hother hbody => ?_⟩
  · rw [locking, ResourceLock.keys_step]
    rcases hinput with rfl | rfl <;> exact h.keys
  · obtain ⟨hold, entry, hhold, hphase⟩ := h.holding j other hother hbody
    refine ⟨hold, entry, ResourceLock.inside_step hhold hphase ?_, hphase⟩
    rintro rfl
    rcases hinput with hinput | hinput <;> exact absurd hinput (by simp)

/-- A task that is over may leave the lock. -/
theorem Sound.exit (h : world.Sound) (htask : world.tasks[i]? = some task)
    (hbody : task.inBody = false) : (world.locking (.exit i)).Sound := by
  refine ⟨h.lock.step (.exit i), ?_, h.runs, h.fresh, fun j other hother hother' => ?_⟩
  · rw [locking, ResourceLock.keys_step]
    exact h.keys
  · obtain ⟨hold, entry, hhold, hphase⟩ := h.holding j other hother hother'
    refine ⟨hold, entry, ResourceLock.inside_step hhold hphase ?_, hphase⟩
    rintro heq
    obtain rfl : i = j := HoldInput.exit.inj heq
    obtain rfl := Option.some.inj (htask.symm.trans hother)
    rw [hbody] at hother'
    exact absurd hother' (by simp)

theorem Sound.start (h : world.Sound) (commit : GuardedCommit) {key : String}
    (hkeyed : commit.process = .request (.hold key) commit.body) :
    Sound
      { lock := world.lock.step (.hold key)
        tasks := world.tasks ++ [⟨commit, key, .waiting (.hold key) commit.body, hkeyed⟩]
        log := world.log ++ [(world.tasks.length, .sent (.hold key))] } := by
  have hevents : ∀ j, eventsOf j (world.log ++ [(world.tasks.length, .sent (.hold key))]) =
      eventsOf j world.log ++ if j = world.tasks.length then [.sent (.hold key)] else [] := by
    intro j
    rw [eventsOf_append]
    split
    · rename_i hsame
      simp [eventsOf, hsame]
    · rename_i hne
      simp [eventsOf, Ne.symm hne]
  refine ⟨h.lock.step (.hold key), ?_, fun j other hother => ?_, fun j hj => ?_,
    fun j other hother hbody => ?_⟩
  · rw [ResourceLock.keys_step]
    simp [h.keys, GuardedCommit.key_ne_empty hkeyed]
  · rw [hevents]
    rw [List.getElem?_append] at hother
    split at hother
    · rename_i hlt
      rw [if_neg (by omega), List.append_nil]
      exact h.runs j other hother
    · have hlast := (List.getElem?_eq_some_iff.mp hother).1
      rw [List.length_singleton] at hlast
      obtain rfl := List.mem_singleton.mp (List.mem_of_getElem? hother)
      refine ⟨_, ?_, .inl rfl⟩
      rw [h.fresh j (by omega), if_pos (by omega), List.nil_append, hkeyed]
      exact .single (.send _ _)
  · rw [List.length_append, List.length_singleton] at hj
    rw [hevents, h.fresh j (by omega), if_neg (by omega)]
    rfl
  · rw [List.getElem?_append] at hother
    split at hother
    · obtain ⟨hold, entry, hhold, hphase⟩ := h.holding j other hother hbody
      exact ⟨hold, entry, ResourceLock.inside_step hhold hphase (by simp), hphase⟩
    · obtain rfl := List.mem_singleton.mp (List.mem_of_getElem? hother)
      exact absurd hbody (by simp [GuardedTask.inBody, atLock])

theorem Sound.step {world' : GuardedWorld} (h : world.Sound) (hstep : Step world world') :
    world'.Sound := by
  cases hstep with
  | start commit hkeyed => exact h.start commit hkeyed
  | schedule caller input hinput => exact h.schedule hinput
  | @enter i task key body entry htask hwaiting hinside =>
    refine h.advance htask (fun reached hrun hreached => ?_) fun _ => ?_
    · obtain rfl := hreached.resolve_right (by simp [hwaiting])
      rw [hwaiting] at hrun
      exact ⟨body .held, hrun.trans (.single (.reply _ _ _)), .inl rfl⟩
    · obtain ⟨hold, hhold, hphase⟩ := ResourceLock.hold_of_phase? hinside
      exact ⟨hold, entry, hhold, hphase⟩
  | @refuse i task key body answer htask hwaiting hleft hanswer =>
    refine h.advance htask (fun reached hrun hreached => ?_) fun hbody => ?_
    · obtain rfl := hreached.resolve_right (by simp [hwaiting])
      rw [hwaiting] at hrun
      exact ⟨body answer, hrun.trans (.single (.reply _ _ _)), .inl rfl⟩
    · obtain ⟨reached, hrun, hreached⟩ := h.runs i task htask
      obtain rfl := hreached.resolve_right (by simp [hwaiting])
      rw [hwaiting] at hrun
      obtain ⟨-, rfl⟩ := GuardedCommit.waiting_eq task.keyed hrun
      -- Whatever else the commit hears, it fails.
      have hover : isOver (task.commit.body answer) = true := by
        cases answer with
        | held => exact absurd rfl hanswer
        | _ => rfl
      exact absurd hbody (by simp [GuardedTask.inBody, hover])
  | @work i task events process htask hbody hstep =>
    refine h.advance htask (fun reached hrun hreached => ?_) fun hbody' => ?_
    · rcases hreached with rfl | hfailed
      · exact ⟨process, hrun.trans (.single hstep), .inl rfl⟩
      · rw [hfailed] at hstep
        cases hstep
    · refine h.holding i task htask ?_
      cases hover : isOver task.process with
      | false => simp [GuardedTask.inBody, hbody, hover]
      | true => exact absurd hbody' (by simp [GuardedTask.inBody, isOver_step hover hstep])
  | @exit i task htask hover => exact h.exit htask (by simp [GuardedTask.inBody, hover])
  | @abort i task htask hbody =>
    have hlt := (List.getElem?_eq_some_iff.mp htask).1
    have hadvanced : (world.advance i task [] (.failed .exception)).Sound := by
      refine h.advance htask (fun reached hrun _ => ⟨reached, ?_, .inr rfl⟩) fun hbody => ?_
      · rwa [List.append_nil]
      · exact absurd hbody (by simp [GuardedTask.inBody, isOver, Process.ended])
    refine hadvanced.exit (List.getElem?_set_self hlt) ?_
    simp [GuardedTask.inBody, isOver, Process.ended]

theorem sound_of_reachable {maxEntries : ℕ} (h : Reachable maxEntries world) : world.Sound := by
  induction h with
  | start =>
    refine ⟨ResourceLock.consistent_empty maxEntries, rfl, fun i task htask => ?_, fun _ _ => rfl,
      fun i task htask => ?_⟩
    · exact absurd htask (by simp)
    · exact absurd htask (by simp)
  | step _ hstep ih => exact ih.step hstep

/-- A task that is past its lock may run on its own. -/
theorem reachable_work {maxEntries : ℕ} (h : Reachable maxEntries world)
    (htask : world.tasks[i]? = some task)
    (hsends : Execution.Sends (fun asked => ∀ key, asked ≠ .hold key) task.process)
    (hrun : Process.Run task.process events process) :
    ∃ world', Reachable maxEntries world' ∧ world'.log = world.log ++ events.map (i, ·) := by
  generalize hstart : task.process = p at hsends hrun
  induction hrun generalizing world task with
  | refl => exact ⟨world, h, by simp⟩
  | @step p between q events others hstep _ ih =>
    subst hstart
    have hpast : atLock task.process = false := by
      cases hprocess : task.process with
      | waiting asked next =>
        rw [hprocess] at hsends
        cases hsends with
        | waiting hallowed _ =>
          cases asked with
          | hold key => exact absurd rfl (hallowed key)
          | _ => rfl
      | _ => rfl
    have hlt := (List.getElem?_eq_some_iff.mp htask).1
    obtain ⟨world', hreachable, hlog⟩ := ih (h.step (.work htask hpast hstep))
      (List.getElem?_set_self hlt) rfl (hsends.step hstep).1
    refine ⟨world', hreachable, hlog.trans ?_⟩
    rw [GuardedWorld.advance, List.append_assoc, ← List.map_append]

/-- What precedes an event that comes later than the first ones. -/
theorem between_of_append {α : Type} {first rest before after : List α} {a : α}
    (h : first ++ rest = before ++ a :: after) (ha : a ∉ first) :
    ∃ between, before = first ++ between := by
  rcases List.append_eq_append_iff.mp h with ⟨between, hbefore, -⟩ | ⟨between, hfirst, hafter⟩
  · exact ⟨between, hbefore⟩
  · cases between with
    | nil => exact ⟨[], by rw [hfirst, List.append_nil, List.append_nil]⟩
    | cons b others =>
      obtain ⟨rfl, -⟩ := List.cons.inj hafter
      exact absurd (hfirst ▸ List.mem_append_right before List.mem_cons_self) ha

/-- However guarded commits run next to each other: who mutates has before read its state again
under its lock, and found it allowed and as it was prepared; who is in its body holds the lock of
its resource, alone; and a state that is terminal or has changed is not followed by a mutation. -/
theorem guarded_mutation {maxEntries : ℕ} {world : GuardedWorld} (h : Reachable maxEntries world) :
    (∀ (before after : List (ℕ × GuardedEvent)) (i : ℕ) (call : CallRequest)
        (idempotencyKey : String) (concurrencyToken : Json),
      world.log = before ++ (i, .sent (.mutate call idempotencyKey concurrencyToken)) :: after →
      ∃ task rereading fresh rest, world.tasks[i]? = some task ∧
        eventsOf i before =
          .sent (.hold task.key) :: .replied (.hold task.key) .held :: (rereading ++ rest) ∧
        Process.Run task.commit.reread rereading (.done fresh) ∧ task.commit.Unchanged fresh) ∧
    (∀ (i : ℕ) (task : GuardedTask), world.tasks[i]? = some task → task.inBody = true →
      ∃ entry, world.lock.holds[i]? = some ⟨task.key, .inside entry⟩) ∧
    (∀ (i j : ℕ) (first second : GuardedTask), world.tasks[i]? = some first →
      world.tasks[j]? = some second → first.inBody = true → second.inBody = true →
      first.key = second.key → i = j) ∧
    ∀ (commit : GuardedCommit) (fresh : Json) (events : List GuardedEvent) (p : ActionProcess),
      Process.Run (commit.afterReread fresh) events p → ¬ commit.Unchanged fresh →
      ∀ call idempotencyKey concurrencyToken,
        .sent (.mutate call idempotencyKey concurrencyToken) ∉ events := by
  have hsound := sound_of_reachable h
  have hholds : ∀ (i : ℕ) (task : GuardedTask), world.tasks[i]? = some task → task.inBody = true →
      ∃ entry, world.lock.holds[i]? = some ⟨task.key, .inside entry⟩ := by
    intro i task htask hbody
    obtain ⟨hold, entry, hhold, hphase⟩ := hsound.holding i task htask hbody
    have hkey : hold.key = task.key := by
      have hkeys := congrArg (fun keys : List String => keys[i]?) hsound.keys
      simpa [hhold, htask] using hkeys
    exact ⟨entry, by rw [hhold, ← hkey, ← hphase]⟩
  refine ⟨fun before after i call idempotencyKey concurrencyToken hlog => ?_, hholds, ?_, ?_⟩
  · have hevents : eventsOf i world.log = eventsOf i before ++
        .sent (.mutate call idempotencyKey concurrencyToken) :: eventsOf i after := by
      rw [hlog, eventsOf_append]
      simp [eventsOf]
    have hlt : i < world.tasks.length := by
      by_contra hge
      have hnone := hsound.fresh i (Nat.le_of_not_lt hge)
      rw [hevents] at hnone
      exact absurd hnone (by simp)
    have htask := List.getElem?_eq_getElem hlt
    obtain ⟨reached, hrun, -⟩ := hsound.runs i _ htask
    obtain ⟨rereading, fresh, rest, hsplit, hreread, hunchanged⟩ :=
      @GuardedCommit.reread_of_mutate _ _ world.tasks[i].keyed _ _ hrun
        (.mutate call idempotencyKey concurrencyToken) id (by simp [hevents])
    have hfirst : (.sent (.mutate call idempotencyKey concurrencyToken) : GuardedEvent) ∉
        .sent (.hold world.tasks[i].key) :: .replied (.hold world.tasks[i].key) .held ::
          rereading := by
      intro hmem
      rcases List.mem_cons.mp hmem with hhold | hmem
      · exact absurd hhold (by simp)
      · rcases List.mem_cons.mp hmem with hheld | hmem
        · exact absurd hheld (by simp)
        · exact ((GuardedCommit.sends_reread _).run hreread).2 _ hmem
    rw [hevents] at hsplit
    obtain ⟨between, hbetween⟩ := between_of_append hsplit.symm hfirst
    exact ⟨world.tasks[i], rereading, fresh, between, htask, hbetween, hreread, hunchanged⟩
  · intro i j first second hfirst hsecond hfirstBody hsecondBody hkey
    obtain ⟨entry, hholdsFirst⟩ := hholds i first hfirst hfirstBody
    obtain ⟨other, hholdsSecond⟩ := hholds j second hsecond hsecondBody
    rw [hkey] at hholdsFirst
    exact hsound.lock.inside_unique hholdsFirst hholdsSecond
  · intro commit fresh events p hrun hchanged call idempotencyKey concurrencyToken hmem
    exact ((GuardedCommit.sends_afterReread hchanged).run hrun).2 _ hmem

end GuardedWorld

/-! Cancelling an order is guarded by its state. -/

def stateSchema : Fields :=
  [("type", .str "object"), ("required", .arr [.str "state"]),
    ("properties", .obj [("state", .obj [("type", .str "string")])])]

def readState : Operation :=
  { readOrder with id := "read-state", outputSchema := stateSchema }

def cancelOrder : Operation where
  kind := .action
  id := "cancel-order"
  inputSchema := [("type", .str "object")]
  outputSchema := [("type", .str "object")]
  http :=
    { method := "POST"
      scopes := ["orders.write"]
      safety := ⟨.transition, .low, .reversible, .never, .runtimeDeduplicate, .notSupported⟩ }
  contextBindings := []
  evidence := []
  effect_read := by decide

def cancelOperations : Operations := [("read-state", readState), ("cancel-order", cancelOrder)]

def openGuard : LocalDevelopmentStateGuard :=
  ⟨"/id", "read-state", "/state", [.str "open"], [.str "cancelled"]⟩

def cancelCapability : ActionCapability where
  id := "cancel-order"
  inputSchema :=
    [("type", .str "object"), ("required", .arr [.str "id"]),
      ("properties", .obj [("id", .obj [("type", .str "integer")])])]
  outputSchema := [("type", .str "object")]
  policy := "orders"
  evals := []
  action := ⟨.single, .required, some openGuard⟩
  previewWorkflow :=
    [.call (some "state") "read-state" [("id", .str "$.input.id")],
      .emit none (.str "$.steps.state")]
  commitWorkflow :=
    [.call (some "cancel") "cancel-order" [("id", .str "$.prepared.input.id")],
      .emit none (.str "$.steps.cancel")]

def statePolicy : Policies.Policy := { orderPolicy with readableFields := ["$.state"] }

theorem cancel_proved :
    (proveActionCapability (fun _ _ => true) "" cancelCapability cancelOperations []
      (some statePolicy)).ok = true := by
  rfl

def loadedCancel : LoadedAction (fun _ _ => true) where
  capability := cancelCapability
  operations := cancelOperations
  policy := statePolicy
  semantics := []
  projectId := "orders"
  contextBindingAllowlist := []
  proved := cancel_proved

/-- The order was open when the action was prepared. -/
def cancelCommit : GuardedCommit where
  host := exampleHost
  loaded := loadedCancel
  guard := openGuard
  execution :=
    ⟨.obj [("id", .int 7)], .obj [("state", .str "open")], .null, "key", false, .null⟩
  principalContext := operator
  guarded := rfl

def cancelCall : CallRequest := ⟨cancelOrder, [("id", .int 7)], [0]⟩

/-- The order is still open when it is cancelled. -/
theorem guarded_mutation_cancelled : ∃ world task fresh, GuardedWorld.Reachable 1 world ∧
    (0, Process.Event.sent (.mutate cancelCall "key" .null)) ∈ world.log ∧
    world.tasks[0]? = some task ∧ task.commit.Unchanged fresh := by
  rcases GuardedCommit.process_cases cancelCommit with ⟨e, hfailed⟩ | ⟨key, hkey, hkeyed⟩
  · have hasks : ∃ key next, cancelCommit.process = .request (.hold key) next := ⟨_, _, rfl⟩
    obtain ⟨key, next, hasks⟩ := hasks
    exact absurd (hfailed.symm.trans hasks) (by simp)
  · obtain rfl : "cancel-order:sha256:7" = key := Option.some.inj (Eq.trans (by rfl) hkey)
    have hstarted := GuardedWorld.Reachable.start.step
      (@GuardedWorld.Step.start ⟨{ maxEntries := 1 }, [], []⟩ cancelCommit _ hkeyed)
    have hadmitted := hstarted.step (.enter (i := 0) rfl rfl (by rfl))
    obtain ⟨reached, hrun, -⟩ := Process.replay_run
      (answerWith (.obj [("state", .str "open")])) (cancelCommit.body .held)
    have hevents : (Process.replay (answerWith (.obj [("state", .str "open")]))
        (cancelCommit.body .held)).1 =
      [.sent (.read ⟨readState, [("id", .int 7)], [0]⟩),
        .replied (.read ⟨readState, [("id", .int 7)], [0]⟩)
          (.readResult (.obj [("state", .str "open")]) []),
        .sent .recorded, .replied .recorded (.recorded [] ["mutation"]),
        .sent (.mutate cancelCall "key" .null),
        .replied (.mutate cancelCall "key" .null) (.value (.obj [("id", .int 7)])),
        .sent .recorded, .replied .recorded (.recorded [] ["mutation"])] := by rfl
    rw [hevents] at hrun
    obtain ⟨world, hreachable, hlog⟩ := GuardedWorld.reachable_work hadmitted
      (List.getElem?_set_self (by simp)) (GuardedCommit.sends_body cancelCommit .held) hrun
    obtain ⟨before, after, hsplit⟩ : ∃ before after, world.log =
        before ++ (0, .sent (.mutate cancelCall "key" .null)) :: after := by
      refine List.append_of_mem ?_
      rw [hlog]
      exact List.mem_append_right _ (by simp)
    obtain ⟨task, rereading, fresh, rest, htask, -, -, hunchanged⟩ :=
      (GuardedWorld.guarded_mutation hreachable).1 before after 0 cancelCall "key" .null hsplit
    exact ⟨world, task, fresh, hreachable, by simp [hsplit], htask, hunchanged⟩

end CapabilityCompiler.Actions
