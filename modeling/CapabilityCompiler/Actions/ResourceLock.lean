import CapabilityCompiler.Foundation.FairLock
import CapabilityCompiler.Foundation.Table
import Mathlib.Data.Int.Notation
import Mathlib.Data.List.Count

/-! The process-local lock table of guarded actions. A step runs a caller of `hold` from one
suspension to the next one; the table's own lock is one of the locks a caller may wait for. -/
namespace CapabilityCompiler.Actions
open Foundation

/-- An entry object; the callers that hold it registered share it. -/
structure LockEntry where
  lock : FairLock ℕ := {}
  users : ℤ := 0

/-- Where a caller of `hold` is suspended, with the entry it is registered at. -/
inductive HoldPhase where
  /-- Before its registration, at the table's lock. -/
  | registering
  | waiting (entry : ℕ)
  /-- In the body. -/
  | inside (entry : ℕ)
  /-- Before its cleanup, at the table's lock. -/
  | cleaning (entry : ℕ)
  | left
deriving DecidableEq

/-- The entry a caller is registered at. -/
def HoldPhase.entry? : HoldPhase → Option ℕ
  | .waiting entry | .inside entry | .cleaning entry => some entry
  | _ => none

structure Hold where
  key : String
  phase : HoldPhase
deriving DecidableEq

/-- The table with the entry objects created so far and all callers of `hold`. -/
structure ResourceLock where
  maxEntries : ℕ
  entries : Table String ℕ := []
  objects : List LockEntry := []
  tableLock : FairLock ℕ := {}
  holds : List Hold := []

inductive HoldInput where
  | hold (key : String)
  /-- A suspended caller is cancelled. -/
  | cancel (caller : ℕ)
  /-- The event loop runs a caller that is no longer suspended. -/
  | resume (caller : ℕ)
  /-- The body ends: normally, by an exception or by cancellation. -/
  | exit (caller : ℕ)

namespace ResourceLock
variable (s : ResourceLock)

def phase? (caller : ℕ) : Option HoldPhase := s.holds[caller]?.map Hold.phase

def setPhase (caller : ℕ) (phase : HoldPhase) : ResourceLock :=
  { s with holds := s.holds.modify caller fun hold => { hold with phase := phase } }

/-- The registration ends and the entry's lock is asked for. -/
def join (caller entry : ℕ) : ResourceLock :=
  match s.objects[entry]? with
  | none => s
  | some object =>
    let acquired := object.lock.acquire caller
    { s with
      objects := s.objects.set entry ⟨acquired.2, object.users + 1⟩
      tableLock := s.tableLock.release }.setPhase caller
        (if acquired.1 then .inside entry else .waiting entry)

/-- The caller has the table's lock and registers at the entry of its key. -/
def register (caller : ℕ) (key : String) : ResourceLock :=
  match Table.get? key s.entries with
  | some entry => s.join caller entry
  | none =>
    if s.maxEntries ≤ s.entries.length then
      { s with tableLock := s.tableLock.release }.setPhase caller .left
    else
      { s with
        entries := Table.put key s.objects.length s.entries
        objects := s.objects ++ [({} : LockEntry)] }.join caller s.objects.length

/-- The caller has the table's lock and is no longer registered. -/
def cleanUp (caller entry : ℕ) (key : String) : ResourceLock :=
  match s.objects[entry]? with
  | none => s
  | some object =>
    { s with
      entries := if object.users - 1 = 0 then Table.erase key s.entries else s.entries
      objects := s.objects.set entry { object with users := object.users - 1 }
      tableLock := s.tableLock.release }.setPhase caller .left

/-- The table's lock is asked for at the end of `hold`. -/
def leave (caller entry : ℕ) (key : String) : ResourceLock :=
  let acquired := s.tableLock.acquire caller
  let asked := { s with tableLock := acquired.2 }
  if acquired.1 then asked.cleanUp caller entry key
  else asked.setPhase caller (.cleaning entry)

def setLock (entry : ℕ) (lock : FairLock ℕ) : ResourceLock :=
  { s with objects := s.objects.modify entry fun object => { object with lock := lock } }

/-- What a caller does first; an empty key is refused. -/
def enter (key : String) : ResourceLock :=
  if key = "" then s
  else
    let caller := s.holds.length
    let acquired := s.tableLock.acquire caller
    let asked := { s with tableLock := acquired.2, holds := s.holds ++ [⟨key, .registering⟩] }
    if acquired.1 then asked.register caller key else asked

def cancelled (caller : ℕ) : ResourceLock :=
  match s.phase? caller with
  | some .registering | some (.cleaning _) =>
    { s with tableLock := s.tableLock.cancel caller }
  | some (.waiting entry) =>
    { s with objects := s.objects.modify entry fun object =>
        { object with lock := object.lock.cancel caller } }
  | _ => s

def resumed (caller : ℕ) : ResourceLock :=
  match s.holds[caller]? with
  | some ⟨key, .registering⟩ => match s.tableLock.resume caller with
    | some (true, lock) => { s with tableLock := lock }.register caller key
    | some (false, lock) => { s with tableLock := lock }.setPhase caller .left
    | none => s
  | some ⟨key, .waiting entry⟩ =>
    match s.objects[entry]?.bind fun object => object.lock.resume caller with
    | some (true, lock) => (s.setLock entry lock).setPhase caller (.inside entry)
    | some (false, lock) => (s.setLock entry lock).leave caller entry key
    | none => s
  | some ⟨key, .cleaning entry⟩ => match s.tableLock.resume caller with
    | some (true, lock) => { s with tableLock := lock }.cleanUp caller entry key
    | some (false, lock) => { s with tableLock := lock }.setPhase caller .left
    | none => s
  | _ => s

def exited (caller : ℕ) : ResourceLock :=
  match s.holds[caller]? with
  | some ⟨key, .inside entry⟩ => match s.objects[entry]? with
    | some object => (s.setLock entry object.lock.release).leave caller entry key
    | none => s
  | _ => s

def step : HoldInput → ResourceLock
  | .hold key => s.enter key
  | .cancel caller => s.cancelled caller
  | .resume caller => s.resumed caller
  | .exit caller => s.exited caller

def run (inputs : List HoldInput) : ResourceLock := inputs.foldl step s

/-! What every step keeps. -/

/-- How many callers are registered at an entry. -/
def registeredAt (entry : ℕ) : ℕ := s.holds.countP fun hold => hold.phase.entry? = some entry

/-- An entry object belongs to the callers registered at it. -/
structure Kept (key : String) (entry : ℕ) (object : LockEntry) : Prop where
  users : object.users = s.registeredAt entry
  keyed : ∀ hold ∈ s.holds, hold.phase.entry? = some entry → hold.key = key
  sound : object.lock.Sound
  waiting : ∀ caller ∈ object.lock.tasks, s.phase? caller = some (.waiting entry)
  inside : ∀ caller, s.phase? caller = some (.inside entry) →
    object.lock.locked = true ∧ ∀ other, s.phase? other = some (.inside entry) → caller = other

/-- The entries of the table are those of the registered callers. -/
structure Shared : Prop where
  unique : Table.Unique s.entries
  apart : ∀ key other entry, Table.get? key s.entries = some entry →
    Table.get? other s.entries = some entry → key = other
  registered : ∀ hold ∈ s.holds, ∀ entry, hold.phase.entry? = some entry →
    Table.get? hold.key s.entries = some entry
  kept : ∀ key entry, Table.get? key s.entries = some entry →
    ∃ object, s.objects[entry]? = some object ∧ s.Kept key entry object

structure Consistent : Prop where
  /-- The table's lock is only taken within a step, so that nobody ever waits for it. -/
  free : s.tableLock = {}
  settled : ∀ caller phase, s.phase? caller = some phase →
    phase ≠ .registering ∧ ∀ entry, phase ≠ .cleaning entry
  bounded : s.entries.length ≤ s.maxEntries
  used : ∀ key entry, Table.get? key s.entries = some entry → 0 < s.registeredAt entry
  shared : s.Shared

variable {s} {caller entry : ℕ} {key : String} {phase : HoldPhase} {hold : Hold}

theorem phase?_setPhase (other : ℕ) : (s.setPhase caller phase).phase? other =
    if caller = other then (s.phase? other).map fun _ => phase else s.phase? other := by
  simp only [phase?, setPhase, List.getElem?_modify]
  split <;> cases s.holds[other]? <;> rfl

theorem hold_of_phase? (h : s.phase? caller = some phase) :
    ∃ hold, s.holds[caller]? = some hold ∧ hold.phase = phase :=
  Option.map_eq_some_iff.mp h

theorem setPhase_self (h : s.holds[caller]? = some hold) : s.setPhase caller hold.phase = s := by
  have hholds : s.holds.modify caller (fun other => { other with phase := hold.phase }) =
      s.holds := by
    refine List.ext_getElem? fun i => ?_
    rw [List.getElem?_modify]
    by_cases hcaller : caller = i
    · subst hcaller
      simp [h]
    · simp [hcaller]
  rw [setPhase, hholds]

theorem holds_setPhase (h : s.holds[caller]? = some hold) :
    (s.setPhase caller phase).holds = s.holds.set caller { hold with phase := phase } := by
  obtain ⟨hlt, hget⟩ := List.getElem?_eq_some_iff.mp h
  refine List.ext_getElem? fun i => ?_
  rw [setPhase, List.getElem?_modify, List.getElem?_set]
  by_cases hcaller : caller = i
  · subst hcaller
    simp [hlt, hget]
  · simp [hcaller]

theorem mem_setPhase (h : s.holds[caller]? = some hold) {other : Hold}
    (hother : other ∈ (s.setPhase caller phase).holds) :
    other ∈ s.holds ∨ other = { hold with phase := phase } := by
  rw [holds_setPhase h] at hother
  exact List.mem_or_eq_of_mem_set hother

theorem registeredAt_setPhase (h : s.holds[caller]? = some hold) (other : ℕ) :
    (s.setPhase caller phase).registeredAt other +
        (if hold.phase.entry? = some other then 1 else 0) =
      s.registeredAt other + (if phase.entry? = some other then 1 else 0) := by
  obtain ⟨hlt, hget⟩ := List.getElem?_eq_some_iff.mp h
  have hpositive : (if hold.phase.entry? = some other then 1 else 0) ≤ s.registeredAt other := by
    split
    · exact List.countP_pos_iff.mpr ⟨hold, List.mem_of_getElem? h, by simpa⟩
    · exact Nat.zero_le _
  rw [registeredAt, holds_setPhase h, List.countP_set hlt, hget]
  simp only [decide_eq_true_eq]
  unfold registeredAt at hpositive ⊢
  omega

/-- An entry is kept as long as no caller registers at it, leaves it or goes on there. -/
theorem Kept.frame {t : ResourceLock} {object : LockEntry} (h : s.Kept key entry object)
    (hcount : t.registeredAt entry = s.registeredAt entry)
    (hholds : ∀ hold ∈ t.holds, hold.phase.entry? = some entry → hold ∈ s.holds)
    (hphase : ∀ caller phase, HoldPhase.entry? phase = some entry →
      (t.phase? caller = some phase ↔ s.phase? caller = some phase)) :
    t.Kept key entry object := by
  refine ⟨h.users.trans (congrArg _ hcount.symm), fun hold hhold hentry => ?_, h.sound,
    fun caller hcaller => ?_, fun caller hcaller => ?_⟩
  · exact h.keyed hold (hholds hold hhold hentry) hentry
  · exact (hphase caller _ rfl).mpr (h.waiting caller hcaller)
  · obtain ⟨hlocked, hother⟩ := h.inside caller ((hphase caller _ rfl).mp hcaller)
    exact ⟨hlocked, fun other hinside => hother other ((hphase other _ rfl).mp hinside)⟩

/-- The caller changes its phase, and the entry of its key changes with it. -/
def change (s : ResourceLock) (caller entry : ℕ) (object : LockEntry) (phase : HoldPhase) :
    ResourceLock :=
  { s with objects := s.objects.set entry object }.setPhase caller phase

/-- How an entry changes with the phase of one of its callers. -/
structure Moves (caller entry : ℕ) (before after : HoldPhase) (object next : LockEntry) : Prop where
  leaves : before.entry? = none ∨ before.entry? = some entry
  reaches : after.entry? = none ∨ after.entry? = some entry
  users : next.users + (if before.entry? = some entry then 1 else 0) =
    object.users + (if after.entry? = some entry then 1 else 0)
  sound : next.lock.Sound
  waiting : ∀ other ∈ next.lock.tasks,
    other = caller ∧ after = .waiting entry ∨ other ≠ caller ∧ other ∈ object.lock.tasks
  inside : after = .inside entry → object.lock.locked = false ∧ next.lock.locked = true
  locked : object.lock.locked = true → next.lock.locked = true ∨ before = .inside entry

theorem phase?_change (object : LockEntry) (other : ℕ) :
    (s.change caller entry object phase).phase? other =
      if caller = other then (s.phase? other).map fun _ => phase else s.phase? other :=
  phase?_setPhase other

theorem registeredAt_change (h : s.holds[caller]? = some hold) (entry : ℕ) (phase : HoldPhase)
    (object : LockEntry) (other : ℕ) :
    (s.change caller entry object phase).registeredAt other +
        (if hold.phase.entry? = some other then 1 else 0) =
      s.registeredAt other + (if phase.entry? = some other then 1 else 0) :=
  registeredAt_setPhase (s := { s with objects := s.objects.set entry object }) h other

theorem mem_change (h : s.holds[caller]? = some hold) {object : LockEntry} {other : Hold}
    (hother : other ∈ (s.change caller entry object phase).holds) :
    other ∈ s.holds ∨ other = { hold with phase := phase } :=
  mem_setPhase (s := { s with objects := s.objects.set entry object }) h hother

theorem phase?_of_hold (h : s.holds[caller]? = some hold) : s.phase? caller = some hold.phase := by
  rw [phase?, h]
  rfl

theorem Kept.change {object next : LockEntry} (h : s.Kept hold.key entry object)
    (hhold : s.holds[caller]? = some hold)
    (hmoves : Moves caller entry hold.phase phase object next) :
    (s.change caller entry next phase).Kept hold.key entry next := by
  have hnow := phase?_of_hold hhold
  have hcount := registeredAt_change hhold entry phase next entry
  have hothers : ∀ other, other ≠ caller →
      (s.change caller entry next phase).phase? other = s.phase? other := by
    intro other hne
    rw [phase?_change, if_neg (Ne.symm hne)]
  have hself : (s.change caller entry next phase).phase? caller = some phase := by
    rw [phase?_change, if_pos rfl, hnow, Option.map_some]
  refine ⟨?_, fun other hother hat => ?_, hmoves.sound, fun other hother => ?_,
    fun other hother => ?_⟩
  · have husers := hmoves.users
    have hbefore := h.users
    by_cases hold' : hold.phase.entry? = some entry <;>
      by_cases phase' : phase.entry? = some entry <;>
      simp only [hold', phase', if_true, if_false] at hcount husers <;> omega
  · rcases mem_change hhold hother with hold' | rfl
    · exact h.keyed other hold' hat
    · rfl
  · rcases hmoves.waiting other hother with ⟨rfl, rfl⟩ | ⟨hne, hmem⟩
    · exact hself
    · rw [hothers other hne]
      exact h.waiting other hmem
  · by_cases hcaller : other = caller
    · subst hcaller
      obtain rfl := Option.some.inj (hself.symm.trans hother)
      obtain ⟨hfree, hlocked⟩ := hmoves.inside rfl
      refine ⟨hlocked, fun third hthird => ?_⟩
      by_contra hne
      rw [hothers third (Ne.symm hne)] at hthird
      exact absurd (h.inside third hthird).1 (by simp [hfree])
    · rw [hothers other hcaller] at hother
      obtain ⟨hlocked, honly⟩ := h.inside other hother
      have hnext : next.lock.locked = true := by
        refine (hmoves.locked hlocked).resolve_right fun hinside => hcaller ?_
        exact honly caller (by rw [hnow, hinside])
      refine ⟨hnext, fun third hthird => ?_⟩
      by_cases hthirdCaller : third = caller
      · subst hthirdCaller
        obtain rfl := Option.some.inj (hself.symm.trans hthird)
        exact absurd (hmoves.inside rfl).1 (by simp [hlocked])
      · rw [hothers third hthirdCaller] at hthird
        exact honly third hthird

theorem Shared.change {object next : LockEntry} (h : s.Shared)
    (hhold : s.holds[caller]? = some hold) (hentry : Table.get? hold.key s.entries = some entry)
    (hobject : s.objects[entry]? = some object)
    (hmoves : Moves caller entry hold.phase phase object next) :
    (s.change caller entry next phase).Shared := by
  have hlt := (List.getElem?_eq_some_iff.mp hobject).1
  have helsewhere : ∀ phase : HoldPhase, phase.entry? = none ∨ phase.entry? = some entry →
      ∀ place, place ≠ entry → phase.entry? ≠ some place := by
    rintro phase (hnone | hsome) place hplace heq
    · exact absurd (hnone.symm.trans heq) (by simp)
    · exact hplace (Option.some.inj (heq.symm.trans hsome))
  refine ⟨h.unique, h.apart, fun other hother place hplace => ?_, fun key place hkey => ?_⟩
  · rcases mem_change hhold hother with hold' | rfl
    · exact h.registered other hold' place hplace
    · obtain rfl : place = entry := by
        by_contra hne
        exact helsewhere phase hmoves.reaches place hne hplace
      exact hentry
  · by_cases hplace : place = entry
    · subst hplace
      obtain rfl := h.apart key hold.key place hkey hentry
      obtain ⟨found, hfound, hkept⟩ := h.kept hold.key place hentry
      obtain rfl := Option.some.inj (hobject.symm.trans hfound)
      exact ⟨next, by simp [ResourceLock.change, setPhase, hlt], hkept.change hhold hmoves⟩
    · obtain ⟨found, hfound, hkept⟩ := h.kept key place hkey
      refine ⟨found, ?_, hkept.frame ?_ (fun other hother hat => ?_) fun other later hat => ?_⟩
      · simp [ResourceLock.change, setPhase, Ne.symm hplace, hfound]
      · have hcount := registeredAt_change hhold entry phase next place
        rw [if_neg (helsewhere _ hmoves.leaves place hplace),
          if_neg (helsewhere _ hmoves.reaches place hplace)] at hcount
        exact hcount
      · refine (mem_change hhold hother).resolve_right ?_
        rintro rfl
        exact helsewhere phase hmoves.reaches place hplace hat
      · rw [phase?_change]
        split
        · rename_i hcaller
          subst hcaller
          rw [phase?_of_hold hhold, Option.map_some, Option.some.injEq, Option.some.injEq]
          constructor
          · rintro rfl
            exact absurd hat (helsewhere phase hmoves.reaches place hplace)
          · rintro rfl
            exact absurd hat (helsewhere _ hmoves.leaves place hplace)
        · rfl

theorem Shared.withTableLock (h : s.Shared) (tableLock : FairLock ℕ) :
    Shared { s with tableLock := tableLock } := by
  refine ⟨h.unique, h.apart, h.registered, fun key entry hkey => ?_⟩
  obtain ⟨object, hobject, hkept⟩ := h.kept key entry hkey
  exact ⟨object, hobject, hkept.frame rfl (fun _ hmem _ => hmem) fun _ _ _ => Iff.rfl⟩

/-- Where nobody is registered, the key's entry may go. -/
theorem Shared.erase (h : s.Shared) (hentry : Table.get? key s.entries = some entry)
    (hnone : s.registeredAt entry = 0) :
    Shared { s with entries := Table.erase key s.entries } := by
  have hkeys : ∀ {other place}, Table.get? other (Table.erase key s.entries) = some place →
      Table.get? other s.entries = some place := by
    intro other place hother
    by_cases hkey : other = key
    · rw [hkey, Table.get?_erase_self] at hother
      exact absurd hother (by simp)
    · rwa [Table.get?_erase_of_ne hkey] at hother
  refine ⟨h.unique.filter _, fun key other place hkey hother => h.apart key other place (hkeys hkey)
    (hkeys hother), fun hold hhold place hplace => ?_, fun other place hother => ?_⟩
  · have hold' := h.registered hold hhold place hplace
    have hkey : hold.key ≠ key := by
      rintro rfl
      obtain rfl := Option.some.inj (hold'.symm.trans hentry)
      have hpositive : 0 < s.registeredAt place :=
        List.countP_pos_iff.mpr ⟨hold, hhold, by simpa using hplace⟩
      omega
    exact (Table.get?_erase_of_ne hkey s.entries).trans hold'
  · obtain ⟨object, hobject, hkept⟩ := h.kept other place (hkeys hother)
    exact ⟨object, hobject, hkept.frame rfl (fun _ hmem _ => hmem) fun _ _ _ => Iff.rfl⟩

/-- The state after one more caller came. -/
def append (s : ResourceLock) (key : String) (phase : HoldPhase) : ResourceLock :=
  { s with holds := s.holds ++ [⟨key, phase⟩] }

/-- A new caller is not registered yet. -/
theorem Shared.append (h : s.Shared) (hphase : phase.entry? = none) (key : String) :
    (s.append key phase).Shared := by
  refine ⟨h.unique, h.apart, fun hold hhold place hplace => ?_, fun other place hother => ?_⟩
  · rcases List.mem_append.mp hhold with hold' | hnew
    · exact h.registered hold hold' place hplace
    · obtain rfl := List.mem_singleton.mp hnew
      exact absurd (hphase.symm.trans hplace) (by simp)
  · obtain ⟨object, hobject, hkept⟩ := h.kept other place hother
    refine ⟨object, hobject, hkept.frame ?_ (fun hold hhold hat => ?_) fun caller later hat => ?_⟩
    · simp [registeredAt, ResourceLock.append, hphase]
    · rcases List.mem_append.mp hhold with hold' | hnew
      · exact hold'
      · obtain rfl := List.mem_singleton.mp hnew
        exact absurd (hphase.symm.trans hat) (by simp)
    · simp only [phase?, ResourceLock.append, List.getElem?_append]
      split
      · rfl
      · rename_i hlength
        rw [List.getElem?_eq_none (Nat.le_of_not_lt hlength)]
        refine ⟨fun hsome => ?_, fun hsome => absurd hsome (by simp)⟩
        obtain ⟨hold, hhold, rfl⟩ := Option.map_eq_some_iff.mp hsome
        obtain rfl := List.mem_singleton.mp (List.mem_of_getElem? hhold)
        exact absurd (hphase.symm.trans hat) (by simp)

/-- A new entry has no callers yet. -/
theorem Shared.create (h : s.Shared) (hkey : Table.get? key s.entries = none) :
    Shared { s with
      entries := Table.put key s.objects.length s.entries
      objects := s.objects ++ [({} : LockEntry)] } := by
  have hbelow : ∀ {other place}, Table.get? other s.entries = some place →
      place < s.objects.length := by
    intro other place hother
    obtain ⟨object, hobject, -⟩ := h.kept other place hother
    exact (List.getElem?_eq_some_iff.mp hobject).1
  have hfresh : ∀ hold ∈ s.holds, hold.phase.entry? ≠ some s.objects.length := by
    intro hold hhold hat
    exact absurd (hbelow (h.registered hold hhold _ hat)) (Nat.lt_irrefl _)
  refine ⟨h.unique.put _ _, fun other third place hother hthird => ?_,
    fun hold hhold place hplace => ?_, fun other place hother => ?_⟩
  · rw [Table.get?_put] at hother hthird
    split at hother <;> split at hthird
    · rename_i hfirst hsecond
      rw [hfirst, hsecond]
    · obtain rfl := Option.some.inj hother
      exact absurd (hbelow hthird) (Nat.lt_irrefl _)
    · obtain rfl := Option.some.inj hthird
      exact absurd (hbelow hother) (Nat.lt_irrefl _)
    · exact h.apart other third place hother hthird
  · have hold' := h.registered hold hhold place hplace
    have hne : hold.key ≠ key := by
      intro heq
      rw [heq, hkey] at hold'
      exact absurd hold' (by simp)
    exact (Table.get?_put_of_ne hne _ _).trans hold'
  · rw [Table.get?_put] at hother
    split at hother
    · rename_i hself
      obtain rfl := Option.some.inj hother
      have hnobody : ∀ caller phase, HoldPhase.entry? phase = some s.objects.length →
          s.phase? caller ≠ some phase := by
        intro caller phase hat hphase
        obtain ⟨hold, hhold, rfl⟩ := hold_of_phase? hphase
        exact hfresh hold (List.mem_of_getElem? hhold) hat
      refine ⟨{}, by simp, ?_, fun hold hhold hat => absurd hat (hfresh hold hhold),
        FairLock.sound_free, fun caller hcaller => absurd hcaller List.not_mem_nil,
        fun caller hcaller => absurd hcaller (hnobody caller _ rfl)⟩
      have hcount : s.registeredAt s.objects.length = 0 :=
        List.countP_eq_zero.mpr fun hold hhold => by simpa using hfresh hold hhold
      exact (congrArg Int.ofNat hcount).symm
    · obtain ⟨object, hobject, hkept⟩ := h.kept other place hother
      refine ⟨object, ?_, hkept.frame rfl (fun _ hmem _ => hmem) fun _ _ _ => Iff.rfl⟩
      rw [List.getElem?_append_left (hbelow hother), hobject]

/-- A caller that asks for an entry's lock has it or waits for it. -/
theorem moves_acquire {object : LockEntry} (entry : ℕ) (h : object.lock.Sound)
    (hcaller : caller ∉ object.lock.tasks) :
    Moves caller entry .registering
      (if (object.lock.acquire caller).1 then .inside entry else .waiting entry) object
      ⟨(object.lock.acquire caller).2, object.users + 1⟩ := by
  have hsound := h.acquire hcaller
  have hothers : ∀ other ∈ object.lock.tasks, other ≠ caller := by
    rintro other hother rfl
    exact hcaller hother
  rcases FairLock.acquire_cases object.lock caller with ⟨hgot, hfree, hlocked, htasks⟩ |
    ⟨hgot, hlocked, htasks⟩
  · rw [if_pos hgot]
    refine ⟨.inl rfl, .inr rfl, by simp [HoldPhase.entry?], hsound, fun other hother => .inr ?_,
      fun _ => ⟨hfree, hlocked⟩, fun _ => .inl hlocked⟩
    rw [htasks] at hother
    exact ⟨hothers other hother, hother⟩
  · rw [if_neg (by simp [hgot])]
    refine ⟨.inl rfl, .inr rfl, by simp [HoldPhase.entry?], hsound, fun other hother => ?_,
      fun hinside => absurd hinside (by simp), fun hbefore => .inl (hlocked.trans hbefore)⟩
    rw [htasks] at hother
    rcases List.mem_append.mp hother with hold' | hnew
    · exact .inr ⟨hothers other hold', hold'⟩
    · exact .inl ⟨List.mem_singleton.mp hnew, rfl⟩

theorem join_eq {object : LockEntry} (hobject : s.objects[entry]? = some object) :
    s.join caller entry = { s.change caller entry ⟨(object.lock.acquire caller).2, object.users + 1⟩
        (if (object.lock.acquire caller).1 then .inside entry else .waiting entry) with
      tableLock := s.tableLock.release } := by
  rw [join, hobject]
  rfl

/-- Once a caller has joined an entry, nobody waits for the table's lock. -/
theorem Shared.join (h : s.Shared) (hhold : s.holds[caller]? = some ⟨key, .registering⟩)
    (hentry : Table.get? key s.entries = some entry) (hfree : s.tableLock.release = {})
    (hothers : ∀ other phase, other ≠ caller → s.phase? other = some phase →
      phase ≠ .registering ∧ ∀ entry, phase ≠ .cleaning entry)
    (hbounded : s.entries.length ≤ s.maxEntries)
    (hused : ∀ other place, place ≠ entry → Table.get? other s.entries = some place →
      0 < s.registeredAt place) : (s.join caller entry).Consistent := by
  obtain ⟨object, hobject, hkept⟩ := h.kept key entry hentry
  have hnow : s.phase? caller = some .registering := phase?_of_hold hhold
  have hcaller : caller ∉ object.lock.tasks := by
    intro hmem
    exact absurd (hnow.symm.trans (hkept.waiting caller hmem)) (by simp)
  have hmoves := moves_acquire entry hkept.sound hcaller
  have hphase : HoldPhase.entry?
      (if (object.lock.acquire caller).1 then .inside entry else .waiting entry) = some entry := by
    split <;> rfl
  have hshared := h.change hhold hentry hobject hmoves
  rw [join_eq hobject]
  refine ⟨hfree, fun other phase hother => ?_, hbounded, fun other place hother => ?_,
    hshared.withTableLock _⟩
  · replace hother := (phase?_change _ other).symm.trans hother
    by_cases hself : caller = other
    · subst hself
      rw [if_pos rfl, hnow, Option.map_some] at hother
      obtain rfl := Option.some.inj hother
      split <;> simp
    · rw [if_neg hself] at hother
      exact hothers other phase (Ne.symm hself) hother
  · have hcount := registeredAt_change hhold entry
      (if (object.lock.acquire caller).1 then .inside entry else .waiting entry)
      ⟨(object.lock.acquire caller).2, object.users + 1⟩ place
    have hbefore : HoldPhase.entry? (Hold.phase ⟨key, .registering⟩) ≠ some place := by
      simp [HoldPhase.entry?]
    rw [if_neg hbefore, hphase] at hcount
    refine Nat.lt_of_lt_of_eq ?_ hcount.symm
    by_cases hplace : place = entry
    · rw [if_pos (by rw [hplace])]
      omega
    · exact Nat.lt_of_lt_of_le (hused other place hplace hother) (Nat.le_add_right _ _)

theorem phase?_append {other : ℕ} {later : HoldPhase}
    (h : (s.append key phase).phase? other = some later) :
    s.phase? other = some later ∨ other = s.holds.length ∧ later = phase := by
  rw [phase?, ResourceLock.append, List.getElem?_append] at h
  split at h
  · exact .inl h
  · rename_i hlength
    have hmem := Option.map_eq_some_iff.mp h
    obtain ⟨hold, hhold, rfl⟩ := hmem
    have hindex := (List.getElem?_eq_some_iff.mp hhold).1
    obtain rfl := List.mem_singleton.mp (List.mem_of_getElem? hhold)
    rw [List.length_singleton] at hindex
    exact .inr ⟨by omega, rfl⟩

theorem registeredAt_append_le (key : String) (phase : HoldPhase) (entry : ℕ) :
    s.registeredAt entry ≤ (s.append key phase).registeredAt entry := by
  rw [registeredAt, registeredAt, ResourceLock.append, List.countP_append]
  exact Nat.le_add_right _ _

/-- A refused caller leaves no trace in the table. -/
theorem Consistent.refused (h : s.Consistent) (key : String) :
    (s.append key .left).Consistent := by
  refine ⟨h.free, fun other phase hphase => ?_, h.bounded, fun other place hother => ?_,
    h.shared.append rfl key⟩
  · rcases phase?_append hphase with hbefore | ⟨-, rfl⟩
    · exact h.settled other phase hbefore
    · simp
  · exact Nat.lt_of_lt_of_le (h.used other place hother) (registeredAt_append_le key .left place)

theorem setPhase_append (key : String) (phase : HoldPhase) :
    (s.append key phase).setPhase s.holds.length .left = s.append key .left := by
  have hholds : (s.holds ++ [(⟨key, phase⟩ : Hold)]).modify s.holds.length
      (fun hold => { hold with phase := .left }) = s.holds ++ [⟨key, .left⟩] := by
    rw [List.modify_eq_take_cons_drop (by simp)]
    simp
  rw [setPhase, ResourceLock.append, hholds]
  rfl

theorem Consistent.enter (h : s.Consistent) (key : String) : (s.enter key).Consistent := by
  unfold ResourceLock.enter
  by_cases hempty : key = ""
  · rw [if_pos hempty]
    exact h
  · rw [if_neg hempty, h.free]
    -- The table's lock is free, so that the caller goes on at once.
    change (register { s.append key .registering with tableLock := { locked := true } }
      s.holds.length key).Consistent
    have hshared := (h.shared.append (show HoldPhase.entry? .registering = none from rfl) key).withTableLock
      { locked := true }
    have hhold : (s.append key .registering).holds[s.holds.length]? = some ⟨key, .registering⟩ := by
      simp [ResourceLock.append]
    have hothers : ∀ other phase, other ≠ s.holds.length →
        (s.append key .registering).phase? other = some phase →
        phase ≠ .registering ∧ ∀ entry, phase ≠ .cleaning entry := by
      intro other phase hne hphase
      exact h.settled other phase ((phase?_append hphase).resolve_right fun hnew => hne hnew.1)
    have hused : ∀ other place, Table.get? other s.entries = some place →
        0 < (s.append key .registering).registeredAt place := fun other place hother =>
      Nat.lt_of_lt_of_le (h.used other place hother) (registeredAt_append_le _ _ place)
    unfold register
    split
    · rename_i entry hentry
      exact hshared.join hhold hentry rfl hothers h.bounded fun other place _ => hused other place
    · rename_i hentry
      split
      · have hleft : setPhase { s.append key .registering with tableLock := {} }
            s.holds.length .left = s.append key .left := by
          rw [← h.free]
          exact setPhase_append (s := s) key .registering
        exact hleft ▸ h.refused key
      · rename_i hroom
        refine (hshared.create hentry).join hhold (Table.get?_put_self _ _ _) rfl hothers ?_ ?_
        · exact Nat.le_trans (Table.length_put_le _ _ _) (Nat.lt_of_not_le hroom)
        · intro other place hplace hother
          refine hused other place ?_
          by_cases hsame : other = key
          · rw [hsame, Table.get?_put_self] at hother
            exact absurd (Option.some.inj hother).symm hplace
          · rwa [Table.get?_put_of_ne hsame] at hother

/-- A registered caller stays where it is or goes on. -/
theorem Consistent.change {object next : LockEntry} (h : s.Consistent)
    (hhold : s.holds[caller]? = some hold) (hobject : s.objects[entry]? = some object)
    (hbefore : hold.phase.entry? = some entry)
    (hafter : phase = .waiting entry ∨ phase = .inside entry)
    (hmoves : Moves caller entry hold.phase phase object next) :
    (s.change caller entry next phase).Consistent := by
  have hentry := h.shared.registered hold (List.mem_of_getElem? hhold) entry hbefore
  have hphase : phase.entry? = some entry := by
    rcases hafter with rfl | rfl <;> rfl
  refine ⟨h.free, fun other later hother => ?_, h.bounded, fun other place hother => ?_,
    h.shared.change hhold hentry hobject hmoves⟩
  · rw [phase?_change] at hother
    split at hother
    · obtain ⟨-, -, rfl⟩ := Option.map_eq_some_iff.mp hother
      rcases hafter with rfl | rfl <;> simp
    · exact h.settled other later hother
  · have hcount := registeredAt_change hhold entry phase next place
    rw [hbefore, hphase] at hcount
    exact Nat.lt_of_lt_of_eq (h.used other place hother) (Nat.add_right_cancel hcount).symm

theorem modify_object {object : LockEntry} (hobject : s.objects[entry]? = some object)
    (f : LockEntry → LockEntry) : s.objects.modify entry f = s.objects.set entry (f object) := by
  obtain ⟨hlt, hget⟩ := List.getElem?_eq_some_iff.mp hobject
  refine List.ext_getElem? fun i => ?_
  rw [List.getElem?_modify, List.getElem?_set]
  by_cases hentry : entry = i
  · subst hentry
    simp [hlt, hget]
  · simp [hentry]

/-- The caller leaves with the entry's lock as it should be, and the last one erases the entry. -/
theorem leave_eq {object : LockEntry} (hfree : s.tableLock = {})
    (hobject : s.objects[entry]? = some object) (lock : FairLock ℕ) (key : String) :
    (s.setLock entry lock).leave caller entry key =
      { s.change caller entry ⟨lock, object.users - 1⟩ .left with
        entries := if object.users - 1 = 0 then Table.erase key s.entries else s.entries } := by
  have hlt := (List.getElem?_eq_some_iff.mp hobject).1
  rw [setLock, modify_object hobject, hfree]
  change cleanUp { s with
    objects := s.objects.set entry { object with lock := lock }
    tableLock := { locked := true } } caller entry key = _
  unfold cleanUp
  rw [List.getElem?_set_self hlt]
  simp only [List.set_set, ResourceLock.change, setPhase]
  rw [hfree]
  rfl

theorem Consistent.leave {object : LockEntry} {lock : FairLock ℕ} (h : s.Consistent)
    (hhold : s.holds[caller]? = some hold) (hobject : s.objects[entry]? = some object)
    (hbefore : hold.phase.entry? = some entry)
    (hmoves : Moves caller entry hold.phase .left object ⟨lock, object.users - 1⟩) :
    ((s.setLock entry lock).leave caller entry hold.key).Consistent := by
  have hentry := h.shared.registered hold (List.mem_of_getElem? hhold) entry hbefore
  have hchanged := h.shared.change hhold hentry hobject hmoves
  obtain ⟨found, hfound, hkept⟩ := h.shared.kept hold.key entry hentry
  obtain rfl := Option.some.inj (hobject.symm.trans hfound)
  have husers := (hkept.change hhold hmoves).users
  have hsettled : ∀ other later,
      (s.change caller entry ⟨lock, object.users - 1⟩ .left).phase? other = some later →
      later ≠ .registering ∧ ∀ entry, later ≠ .cleaning entry := by
    intro other later hother
    rw [phase?_change] at hother
    split at hother
    · obtain ⟨-, -, rfl⟩ := Option.map_eq_some_iff.mp hother
      simp
    · exact h.settled other later hother
  have hothers : ∀ key place, place ≠ entry → Table.get? key s.entries = some place →
      0 < (s.change caller entry ⟨lock, object.users - 1⟩ .left).registeredAt place := by
    intro key place hplace hkey
    have hcount := registeredAt_change hhold entry .left
      ⟨lock, object.users - 1⟩ place
    rw [hbefore, if_neg (by simpa using Ne.symm hplace), if_neg (by simp [HoldPhase.entry?])]
      at hcount
    exact Nat.lt_of_lt_of_eq (h.used key place hkey) hcount.symm
  rw [leave_eq h.free hobject]
  by_cases hlast : object.users - 1 = 0
  · rw [if_pos hlast]
    have hnone : (s.change caller entry ⟨lock, object.users - 1⟩ .left).registeredAt entry = 0 := by
      have hzero := husers.symm.trans hlast
      exact_mod_cast hzero
    refine ⟨h.free, hsettled, Nat.le_trans (List.length_filter_le _ _) h.bounded,
      fun key place hkey => ?_, hchanged.erase hentry hnone⟩
    by_cases hsame : key = hold.key
    · rw [hsame, Table.get?_erase_self] at hkey
      exact absurd hkey (by simp)
    · rw [Table.get?_erase_of_ne hsame] at hkey
      refine hothers key place ?_ hkey
      rintro rfl
      exact hsame (h.shared.apart key hold.key place hkey hentry)
  · rw [if_neg hlast]
    refine ⟨h.free, hsettled, h.bounded, fun key place hkey => ?_, hchanged⟩
    by_cases hplace : place = entry
    · subst hplace
      refine Nat.pos_of_ne_zero fun hzero => hlast ?_
      exact husers.trans (congrArg Int.ofNat hzero)
    · exact hothers key place hplace hkey

/-- Cancelling a waiter moves nobody yet. -/
theorem Consistent.cancelled (h : s.Consistent) (caller : ℕ) : (s.cancelled caller).Consistent := by
  unfold ResourceLock.cancelled
  split
  · rename_i hphase
    exact absurd rfl (h.settled caller _ hphase).1
  · rename_i entry hphase
    exact absurd rfl ((h.settled caller _ hphase).2 entry)
  · rename_i entry hphase
    obtain ⟨hold, hhold, hwaits⟩ := hold_of_phase? hphase
    have hat : hold.phase.entry? = some entry := by rw [hwaits]; rfl
    obtain ⟨object, hobject, hkept⟩ :=
      h.shared.kept hold.key entry (h.shared.registered hold (List.mem_of_getElem? hhold) entry hat)
    have hmoves : Moves caller entry hold.phase hold.phase object
        ⟨object.lock.cancel caller, object.users⟩ := by
      rw [hwaits]
      refine ⟨.inr rfl, .inr rfl, rfl, hkept.sound.cancel caller, fun other hother => ?_,
        fun hinside => absurd hinside (by simp), fun hlocked => .inl hlocked⟩
      rw [FairLock.tasks_cancel] at hother
      by_cases hself : other = caller
      · exact .inl ⟨hself, rfl⟩
      · exact .inr ⟨hself, hother⟩
    have hchanged := h.change hhold hobject hat (.inl hwaits) hmoves
    rw [ResourceLock.change, setPhase_self (by exact hhold)] at hchanged
    rw [modify_object hobject]
    exact hchanged
  · exact h

theorem Consistent.resumed (h : s.Consistent) (caller : ℕ) : (s.resumed caller).Consistent := by
  unfold ResourceLock.resumed
  split
  · rename_i key hhold
    exact absurd rfl (h.settled caller _ (phase?_of_hold hhold)).1
  · rename_i key entry hhold
    have hat : HoldPhase.entry? (Hold.phase ⟨key, .waiting entry⟩) = some entry := rfl
    obtain ⟨object, hobject, hkept⟩ :=
      h.shared.kept key entry (h.shared.registered _ (List.mem_of_getElem? hhold) entry hat)
    rw [hobject, Option.bind_some]
    split
    · rename_i lock hresume
      obtain ⟨-, hfree, hlocked, hsound, htasks⟩ := hkept.sound.resume_true hresume
      have hmoves : Moves caller entry (.waiting entry) (.inside entry) object
          ⟨lock, object.users⟩ := by
        refine ⟨.inr rfl, .inr rfl, rfl, hsound, fun other hother => .inr ?_,
          fun _ => ⟨hfree, hlocked⟩, fun hbefore => absurd hbefore (by simp [hfree])⟩
        rw [htasks] at hother
        obtain ⟨hmem, hne⟩ := List.mem_filter.mp hother
        exact ⟨by simpa using hne, hmem⟩
      rw [setLock, modify_object hobject]
      exact h.change hhold hobject hat (.inr rfl) hmoves
    · rename_i lock hresume
      obtain ⟨-, hlocked, hsound, htasks⟩ := hkept.sound.resume_false hresume
      refine h.leave hhold hobject hat ⟨.inr rfl, .inl rfl, ?_, hsound, fun other hother => .inr ?_,
        fun hinside => absurd hinside (by simp), fun hbefore => .inl (hlocked.trans hbefore)⟩
      · simp [HoldPhase.entry?]
      · rw [htasks] at hother
        obtain ⟨hmem, hne⟩ := List.mem_filter.mp hother
        exact ⟨by simpa using hne, hmem⟩
    · exact h
  · rename_i key entry hhold
    exact absurd rfl ((h.settled caller _ (phase?_of_hold hhold)).2 entry)
  · exact h

theorem Consistent.exited (h : s.Consistent) (caller : ℕ) : (s.exited caller).Consistent := by
  unfold ResourceLock.exited
  split
  · rename_i key entry hhold
    have hat : HoldPhase.entry? (Hold.phase ⟨key, .inside entry⟩) = some entry := rfl
    obtain ⟨object, hobject, hkept⟩ :=
      h.shared.kept key entry (h.shared.registered _ (List.mem_of_getElem? hhold) entry hat)
    rw [hobject]
    refine h.leave hhold hobject hat ⟨.inr rfl, .inl rfl, ?_, hkept.sound.release,
      fun other hother => .inr ⟨?_, ?_⟩, fun hinside => absurd hinside (by simp),
      fun _ => .inr rfl⟩
    · simp [HoldPhase.entry?]
    · rintro rfl
      rw [FairLock.tasks_release] at hother
      have hwaits := hkept.waiting other hother
      rw [phase?_of_hold hhold] at hwaits
      exact absurd hwaits (by simp)
    · rwa [FairLock.tasks_release] at hother
  · exact h

theorem Consistent.step (h : s.Consistent) (input : HoldInput) : (s.step input).Consistent := by
  cases input with
  | hold key => exact h.enter key
  | cancel caller => exact h.cancelled caller
  | resume caller => exact h.resumed caller
  | exit caller => exact h.exited caller

theorem Consistent.run (h : s.Consistent) (inputs : List HoldInput) :
    (s.run inputs).Consistent := by
  induction inputs generalizing s with
  | nil => exact h
  | cons input rest ih => exact ih (h.step input)

theorem consistent_empty (maxEntries : ℕ) :
    ({ maxEntries := maxEntries } : ResourceLock).Consistent :=
  ⟨rfl, by simp [phase?], Nat.zero_le _, by simp, List.nodup_nil, by simp, by simp, by simp⟩

/-! What a step leaves as it was. -/

/-- Only one caller may have changed its phase. -/
structure Touches (caller : ℕ) (s t : ResourceLock) : Prop where
  maxEntries : t.maxEntries = s.maxEntries
  holds : t.holds = s.holds ∨
    ∃ phase, t.holds = s.holds.modify caller fun hold => { hold with phase := phase }

theorem touches_join (s : ResourceLock) (caller entry : ℕ) :
    Touches caller s (s.join caller entry) := by
  unfold join
  split
  · exact ⟨rfl, .inl rfl⟩
  · exact ⟨rfl, .inr ⟨_, rfl⟩⟩

theorem touches_register (s : ResourceLock) (caller : ℕ) (key : String) :
    Touches caller s (s.register caller key) := by
  unfold register
  split
  · exact touches_join s caller _
  · split
    · exact ⟨rfl, .inr ⟨_, rfl⟩⟩
    · have htouches := touches_join { s with
        entries := Table.put key s.objects.length s.entries
        objects := s.objects ++ [({} : LockEntry)] } caller s.objects.length
      exact ⟨htouches.maxEntries, htouches.holds⟩

theorem touches_cleanUp (s : ResourceLock) (caller entry : ℕ) (key : String) :
    Touches caller s (s.cleanUp caller entry key) := by
  unfold cleanUp
  split
  · exact ⟨rfl, .inl rfl⟩
  · exact ⟨rfl, .inr ⟨_, rfl⟩⟩

theorem touches_leave (s : ResourceLock) (caller entry : ℕ) (key : String) :
    Touches caller s (s.leave caller entry key) := by
  unfold ResourceLock.leave
  dsimp only
  split
  · have htouches := touches_cleanUp { s with tableLock := (s.tableLock.acquire caller).2 } caller
      entry key
    exact ⟨htouches.maxEntries, htouches.holds⟩
  · exact ⟨rfl, .inr ⟨_, rfl⟩⟩

theorem touches_enter (s : ResourceLock) {key : String} (hkey : key ≠ "") :
    Touches s.holds.length (s.append key .registering) (s.enter key) := by
  unfold ResourceLock.enter
  rw [if_neg hkey]
  dsimp only
  split
  · have htouches := touches_register { s.append key .registering with
      tableLock := (s.tableLock.acquire s.holds.length).2 } s.holds.length key
    exact ⟨htouches.maxEntries, htouches.holds⟩
  · exact ⟨rfl, .inl rfl⟩

theorem touches_cancelled (s : ResourceLock) (caller : ℕ) :
    Touches caller s (s.cancelled caller) := by
  unfold ResourceLock.cancelled
  split <;> exact ⟨rfl, .inl rfl⟩

theorem touches_resumed (s : ResourceLock) (caller : ℕ) :
    Touches caller s (s.resumed caller) := by
  unfold ResourceLock.resumed
  split
  · rename_i key _
    split
    · rename_i lock _
      have htouches := touches_register { s with tableLock := lock } caller key
      exact ⟨htouches.maxEntries, htouches.holds⟩
    · exact ⟨rfl, .inr ⟨_, rfl⟩⟩
    · exact ⟨rfl, .inl rfl⟩
  · rename_i key entry _
    split
    · exact ⟨rfl, .inr ⟨_, rfl⟩⟩
    · rename_i lock _
      have htouches := touches_leave (s.setLock entry lock) caller entry key
      exact ⟨htouches.maxEntries, htouches.holds⟩
    · exact ⟨rfl, .inl rfl⟩
  · rename_i key entry _
    split
    · rename_i lock _
      have htouches := touches_cleanUp { s with tableLock := lock } caller entry key
      exact ⟨htouches.maxEntries, htouches.holds⟩
    · exact ⟨rfl, .inr ⟨_, rfl⟩⟩
    · exact ⟨rfl, .inl rfl⟩
  · exact ⟨rfl, .inl rfl⟩

theorem touches_exited (s : ResourceLock) (caller : ℕ) : Touches caller s (s.exited caller) := by
  unfold ResourceLock.exited
  split
  · rename_i key entry _
    split
    · rename_i object _
      have htouches := touches_leave (s.setLock entry object.lock.release) caller entry key
      exact ⟨htouches.maxEntries, htouches.holds⟩
    · exact ⟨rfl, .inl rfl⟩
  · exact ⟨rfl, .inl rfl⟩

@[simp] theorem maxEntries_step (input : HoldInput) : (s.step input).maxEntries = s.maxEntries := by
  cases input with
  | hold key =>
    by_cases hkey : key = ""
    · rw [step, ResourceLock.enter, if_pos hkey]
    · exact (touches_enter s hkey).maxEntries
  | cancel caller => exact (touches_cancelled s caller).maxEntries
  | resume caller => exact (touches_resumed s caller).maxEntries
  | exit caller => exact (touches_exited s caller).maxEntries

theorem maxEntries_run (inputs : List HoldInput) : (s.run inputs).maxEntries = s.maxEntries := by
  induction inputs generalizing s with
  | nil => rfl
  | cons input rest ih => exact ih.trans (maxEntries_step input)

theorem Touches.length_eq {t : ResourceLock} (h : Touches caller s t) :
    t.holds.length = s.holds.length := by
  rcases h.holds with hsame | ⟨phase, hmodified⟩
  · rw [hsame]
  · rw [hmodified, List.length_modify]

/-- A caller keeps its key. -/
theorem Touches.key_eq {t : ResourceLock} (h : Touches caller s t) (other : ℕ) :
    t.holds[other]?.map Hold.key = s.holds[other]?.map Hold.key := by
  rcases h.holds with hsame | ⟨phase, hmodified⟩
  · rw [hsame]
  · rw [hmodified, List.getElem?_modify]
    cases s.holds[other]? with
    | none => rfl
    | some hold => by_cases hcaller : caller = other <;> simp [hcaller]

theorem Touches.hold_eq {t : ResourceLock} (h : Touches caller s t) {other : ℕ}
    (hne : other ≠ caller) : t.holds[other]? = s.holds[other]? := by
  rcases h.holds with hsame | ⟨phase, hmodified⟩
  · rw [hsame]
  · rw [hmodified, List.getElem?_modify_ne _ _ (Ne.symm hne)]

/-- A caller in its body stays there until it exits. -/
theorem inside_step {other : ℕ} {hold : Hold} (h : s.holds[other]? = some hold)
    (hinside : hold.phase = .inside entry) {input : HoldInput} (hinput : input ≠ .exit other) :
    (s.step input).holds[other]? = some hold := by
  have hlt := (List.getElem?_eq_some_iff.mp h).1
  cases input with
  | hold key =>
    by_cases hkey : key = ""
    · rw [step, ResourceLock.enter, if_pos hkey]
      exact h
    · refine ((touches_enter s hkey).hold_eq (Nat.ne_of_lt hlt)).trans ?_
      rw [ResourceLock.append, List.getElem?_append_left hlt, h]
  | cancel caller =>
    by_cases hcaller : other = caller
    · subst hcaller
      rw [step, ResourceLock.cancelled, phase?_of_hold h, hinside]
      exact h
    · exact ((touches_cancelled s caller).hold_eq hcaller).trans h
  | resume caller =>
    by_cases hcaller : other = caller
    · subst hcaller
      obtain ⟨key, phase⟩ := hold
      obtain rfl : phase = .inside entry := hinside
      rw [step, ResourceLock.resumed, h]
      exact h
    · exact ((touches_resumed s caller).hold_eq hcaller).trans h
  | exit caller =>
    have hcaller : other ≠ caller := by
      rintro rfl
      exact hinput rfl
    exact ((touches_exited s caller).hold_eq hcaller).trans h

/-- Every caller keeps its key, and a new one comes last. -/
theorem keys_step (input : HoldInput) : (s.step input).holds.map Hold.key =
    match input with
    | .hold key => if key = "" then s.holds.map Hold.key else s.holds.map Hold.key ++ [key]
    | _ => s.holds.map Hold.key := by
  have hkeys : ∀ {caller : ℕ} {s t : ResourceLock}, Touches caller s t →
      t.holds.map Hold.key = s.holds.map Hold.key := by
    intro caller s t htouches
    refine List.ext_getElem? fun i => ?_
    rw [List.getElem?_map, List.getElem?_map]
    exact htouches.key_eq i
  cases input with
  | hold key =>
    by_cases hkey : key = ""
    · simp only [if_pos hkey]
      rw [step, ResourceLock.enter, if_pos hkey]
    · simp only [if_neg hkey]
      rw [step, hkeys (touches_enter s hkey), ResourceLock.append, List.map_append]
      rfl
  | cancel caller => exact hkeys (touches_cancelled s caller)
  | resume caller => exact hkeys (touches_resumed s caller)
  | exit caller => exact hkeys (touches_exited s caller)

/-- A key has an entry while a caller is registered for it, and only then. -/
theorem Consistent.isSome_iff (h : s.Consistent) (key : String) :
    (Table.get? key s.entries).isSome ↔
      ∃ hold ∈ s.holds, hold.key = key ∧ hold.phase.entry?.isSome := by
  constructor
  · intro hsome
    obtain ⟨entry, hentry⟩ := Option.isSome_iff_exists.mp hsome
    obtain ⟨object, -, hkept⟩ := h.shared.kept key entry hentry
    obtain ⟨hold, hhold, hat⟩ := List.countP_pos_iff.mp (h.used key entry hentry)
    rw [decide_eq_true_eq] at hat
    exact ⟨hold, hhold, hkept.keyed hold hhold hat, by rw [hat]; rfl⟩
  · rintro ⟨hold, hhold, rfl, hsome⟩
    obtain ⟨entry, hat⟩ := Option.isSome_iff_exists.mp hsome
    rw [h.shared.registered hold hhold entry hat]
    rfl

/-- Two callers that are in their bodies hold different keys. -/
theorem Consistent.inside_unique (h : s.Consistent) {first second place other : ℕ} {key : String}
    (hfirst : s.holds[first]? = some ⟨key, .inside place⟩)
    (hsecond : s.holds[second]? = some ⟨key, .inside other⟩) : first = second := by
  have hplace := h.shared.registered _ (List.mem_of_getElem? hfirst) place rfl
  have hother := h.shared.registered _ (List.mem_of_getElem? hsecond) other rfl
  obtain rfl := Option.some.inj (hplace.symm.trans hother)
  obtain ⟨object, -, hkept⟩ := h.shared.kept key place hplace
  exact (hkept.inside first (phase?_of_hold hfirst)).2 second (phase?_of_hold hsecond)

/-- However the callers are scheduled and cancelled: one body a key, never more entries than
allowed, an entry for exactly the keys with registered callers, and none when all have left. -/
theorem lock_table (maxEntries : ℕ) (inputs : List HoldInput) :
    let s : ResourceLock := run { maxEntries := maxEntries } inputs
    (∀ (first second : ℕ) (key : String) (place other : ℕ),
      s.holds[first]? = some ⟨key, .inside place⟩ →
      s.holds[second]? = some ⟨key, .inside other⟩ → first = second) ∧
    s.entries.length ≤ maxEntries ∧
    (∀ key, (Table.get? key s.entries).isSome ↔
      ∃ hold ∈ s.holds, hold.key = key ∧ hold.phase.entry?.isSome) ∧
    ((∀ hold ∈ s.holds, hold.phase = .left) → s.entries = []) := by
  intro s
  have h : s.Consistent := (consistent_empty maxEntries).run inputs
  refine ⟨fun _ _ _ _ _ => h.inside_unique, ?_, h.isSome_iff, fun hleft => ?_⟩
  · exact Nat.le_trans h.bounded (Nat.le_of_eq (maxEntries_run inputs))
  · refine List.eq_nil_iff_forall_not_mem.mpr fun bound hbound => ?_
    have hsome := Table.get?_of_mem h.shared.unique hbound
    obtain ⟨hold, hhold, -, hregistered⟩ := (h.isSome_iff bound.1).mp (by rw [hsome]; rfl)
    rw [hleft hold hhold] at hregistered
    exact absurd hregistered (by simp [HoldPhase.entry?])

/-- Two callers of one key: the second one waits, is woken and cancelled at once, and leaves. -/
example : (({ maxEntries := 1 } : ResourceLock).run [.hold "a", .hold "a", .hold "b", .exit 0,
    .cancel 1, .resume 1]).holds.map Hold.phase = [.left, .left, .left] := by decide

end ResourceLock
end CapabilityCompiler.Actions
