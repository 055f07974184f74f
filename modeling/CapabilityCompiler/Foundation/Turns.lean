import CapabilityCompiler.Foundation.Machine
import CapabilityCompiler.Foundation.Process

/-! Calls of processes that take turns at one object: a turn is one request of one of them. -/
namespace CapabilityCompiler.Foundation

namespace Process
variable {Q R E V : Type} {good : Q → R → Prop} {allowed : Q → Prop}

/-- As long as its replies are good, the process sends allowed requests only. -/
inductive Within (good : Q → R → Prop) (allowed : Q → Prop) : Process Q R E V → Prop
  | done (v) : Within good allowed (done v)
  | failed (e) : Within good allowed (failed e)
  | request {q resume} (h : allowed q) (hresume : ∀ r, good q r → Within good allowed (resume r)) :
      Within good allowed (request q resume)

theorem Within.mono {wider : Q → Prop} (hwider : ∀ q, allowed q → wider q) {p : Process Q R E V}
    (h : Within good allowed p) : Within good wider p := by
  induction h with
  | done v => exact .done v
  | failed e => exact .failed e
  | request h _ ih => exact .request (hwider _ h) ih

theorem Within.of_request {q : Q} {resume : R → Process Q R E V}
    (h : Within good allowed (Process.request q resume)) :
    allowed q ∧ ∀ r, good q r → Within good allowed (resume r) := by
  cases h with
  | request h hresume => exact ⟨h, hresume⟩

end Process

namespace Turns

/-- An object with the calls made so far and what is left of them. -/
structure World (Call Q R E V σ : Type) where
  object : σ
  tasks : List (Call × Process Q R E V) := []

inductive Input (Call ι : Type) where
  | call (call : Call)
  | turn (task : ℕ) (input : ι)

variable {Call Q R E V ι σ : Type} (process : Call → Process Q R E V)
  (answer : σ → Q × ι → R × σ)

/-- The next request of a call is answered, if there is one. -/
def turn (world : World Call Q R E V σ) (i : ℕ) (input : ι) :
    Option (Call × Q × R) × World Call Q R E V σ :=
  match world.tasks[i]? with
  | some (call, .request q resume) =>
    let answered := answer world.object (q, input)
    (some (call, q, answered.1),
      { object := answered.2, tasks := world.tasks.set i (call, resume answered.1) })
  | _ => (none, world)

def step (world : World Call Q R E V σ) :
    Input Call ι → Option (Call × Q × R) × World Call Q R E V σ
  | .call call => (none, { world with tasks := world.tasks ++ [(call, process call)] })
  | .turn i input => turn answer world i input

/-- The object and the call, if any, that is answered meet the condition. -/
def Meets (condition : σ → Q × ι → Prop) (world : World Call Q R E V σ) : Input Call ι → Prop
  | .call _ => True
  | .turn i input => ∀ call q resume, world.tasks[i]? = some (call, .request q resume) →
      condition world.object (q, input)

variable {process answer} {condition : σ → Q × ι → Prop}

/-- A step that answers nothing leaves the object alone. -/
theorem object_of_none {world : World Call Q R E V σ} {input : Input Call ι}
    (h : (step process answer world input).1 = none) :
    (step process answer world input).2.object = world.object := by
  cases input with
  | call call => rfl
  | turn i input =>
    rw [step, turn] at h ⊢
    split at h
    · exact absurd h (by simp)
    · rfl

/-- A step that answers a request answers the next one of a call. -/
theorem answered_of_some {world : World Call Q R E V σ} {input : Input Call ι} {call : Call} {q : Q}
    {r : R} (h : (step process answer world input).1 = some (call, q, r)) :
    ∃ i given resume, input = .turn i given ∧ world.tasks[i]? = some (call, .request q resume) ∧
      answer world.object (q, given) = (r, (step process answer world input).2.object) := by
  cases input with
  | call call => exact absurd h (by simp [step])
  | turn i given =>
    rw [step, turn] at h ⊢
    split at h
    · rename_i other asked resume htask
      obtain ⟨rfl, rfl, rfl⟩ : other = call ∧ asked = q ∧
          (answer world.object (asked, given)).1 = r := by simpa using h
      exact ⟨i, given, resume, rfl, htask, rfl⟩
    · exact absurd h (by simp)

section Kept
variable {kept : σ → Prop} {good : Q → R → Prop} {allowed : Call → Q → Prop}

/-- The object is kept and every call stays within what it is allowed. -/
structure Kept (kept : σ → Prop) (good : Q → R → Prop) (allowed : Call → Q → Prop)
    (world : World Call Q R E V σ) : Prop where
  object : kept world.object
  within : ∀ call p, (call, p) ∈ world.tasks → Process.Within good (allowed call) p

/-- Allowed requests that keep the object and are answered well under a condition keep a world in
every step that meets the condition. -/
theorem Kept.step (hprocess : ∀ call, Process.Within good (allowed call) (process call))
    (hanswer : ∀ s call q input, kept s → allowed call q → condition s (q, input) →
      good q (answer s (q, input)).1 ∧ kept (answer s (q, input)).2)
    {world : World Call Q R E V σ} {input : Input Call ι} (hmeets : Meets condition world input)
    (h : Kept kept good allowed world) :
    Kept kept good allowed (Turns.step process answer world input).2 := by
  cases input with
  | call call =>
    refine ⟨h.object, fun other p hmem => ?_⟩
    rcases List.mem_append.mp hmem with hold | hnew
    · exact h.within other p hold
    · obtain ⟨rfl, rfl⟩ := Prod.mk.inj (List.mem_singleton.mp hnew)
      exact hprocess other
  | turn i input =>
    rw [Turns.step, turn]
    split
    · rename_i call q resume htask
      have hmem := List.mem_of_getElem? htask
      obtain ⟨hallowed, hresume⟩ := (h.within _ _ hmem).of_request
      obtain ⟨hgood, hkept⟩ := hanswer world.object call q input h.object hallowed
        (hmeets call q resume htask)
      refine ⟨hkept, fun other p hother => ?_⟩
      rcases List.mem_or_eq_of_mem_set hother with hold | hnew
      · exact h.within other p hold
      · obtain ⟨rfl, rfl⟩ := Prod.mk.inj hnew
        exact hresume _ hgood
    · exact h

theorem Kept.along (hprocess : ∀ call, Process.Within good (allowed call) (process call))
    (hanswer : ∀ s call q input, kept s → allowed call q → condition s (q, input) →
      good q (answer s (q, input)).1 ∧ kept (answer s (q, input)).2)
    {world : World Call Q R E V σ} {inputs : List (Input Call ι)}
    (hrun : Machine.Along (Turns.step process answer) (Meets condition) world inputs)
    (h : Kept kept good allowed world) :
    Kept kept good allowed (Machine.after (Turns.step process answer) world inputs) :=
  hrun.invariant (fun _ _ hmeets hkept => hkept.step hprocess hanswer hmeets) h

end Kept
end Turns
end CapabilityCompiler.Foundation
