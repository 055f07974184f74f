import Mathlib.Algebra.BigOperators.Fin
import Mathlib.Data.List.OfFn

/-! Processes that send requests, wait for the replies and gather children, under every schedule
and every reply. A failing child ends its gathering at once; the siblings keep running unobserved. -/
namespace CapabilityCompiler.Foundation

/-- A process with requests `Q`, replies `R`, failures `E` and results `V`. -/
inductive Process (Q R E V : Type) where
  | done (v : V)
  | failed (e : E)
  | request (q : Q) (resume : R → Process Q R E V)
  | waiting (q : Q) (resume : R → Process Q R E V)
  | gather (n : ℕ) (children : Fin n → Process Q R E V) (resume : List V → Process Q R E V)
  | lost (n : ℕ) (children : Fin n → Process Q R E V) (e : E)

namespace Process

/-- What the other side of the requests sees. -/
inductive Event (Q R : Type) where
  | sent (q : Q)
  | replied (q : Q) (r : R)
deriving DecidableEq

variable {Q R E V : Type}

def failure? : Process Q R E V → Option E
  | failed e => some e
  | lost _ _ e => some e
  | _ => none

/-- The process has come to its end. -/
def ended : Process Q R E V → Bool
  | done _ => true
  | failed _ => true
  | _ => false

/-- One step of one of the tasks of a process. -/
inductive Step : Process Q R E V → List (Event Q R) → Process Q R E V → Prop
  | send (q resume) : Step (request q resume) [.sent q] (waiting q resume)
  | reply (q resume r) : Step (waiting q resume) [.replied q r] (resume r)
  | child {n children resume i t p} (h : Step (children i) t p) :
      Step (gather n children resume) t (gather n (Function.update children i p) resume)
  | join {n children resume vs} (h : ∀ i, children i = done (vs i)) :
      Step (gather n children resume) [] (resume (List.ofFn vs))
  | abandon {n children resume i e} (h : (children i).failure? = some e) :
      Step (gather n children resume) [] (lost n children e)
  | orphan {n children e i t p} (h : Step (children i) t p) :
      Step (lost n children e) t (lost n (Function.update children i p) e)

/-- Any number of steps with the events they show. -/
inductive Run : Process Q R E V → List (Event Q R) → Process Q R E V → Prop
  | refl (p) : Run p [] p
  | step {p q r t u} (h : Step p t q) (rest : Run q u r) : Run p (t ++ u) r

theorem Run.trans {p q r : Process Q R E V} {t u : List (Event Q R)} (h : Run p t q)
    (h' : Run q u r) : Run p (t ++ u) r := by
  induction h with
  | refl => exact h'
  | step hstep _ ih =>
    rw [List.append_assoc]
    exact .step hstep (ih h')

theorem Run.single {p q : Process Q R E V} {t : List (Event Q R)} (h : Step p t q) : Run p t q := by
  have hrun := Run.step h (.refl q)
  rwa [List.append_nil] at hrun

/-- The process goes on as `f` once it has a result. -/
def bind : Process Q R E V → (V → Process Q R E V) → Process Q R E V
  | done v, f => f v
  | failed e, _ => failed e
  | request q resume, f => request q fun r => (resume r).bind f
  | waiting q resume, f => waiting q fun r => (resume r).bind f
  | gather n children resume, f => gather n children fun vs => (resume vs).bind f
  | lost n children e, _ => lost n children e

/-- The process of a computation without requests. -/
def ofExcept : Except E V → Process Q R E V
  | .ok v => done v
  | .error e => failed e

/-- A failure at the process itself or at one of its tasks, observed or not. -/
inductive Raises (e : E) : Process Q R E V → Prop
  | failed : Raises e (failed e)
  | lost {n children} : Raises e (lost n children e)
  | gathered {n children resume i} (h : Raises e (children i)) : Raises e (gather n children resume)
  | orphaned {n children e' i} (h : Raises e (children i)) : Raises e (Process.lost n children e')

/-! What every request and every failure of a process satisfies. -/

section Obeys
variable {allowed : Q → Prop} {tolerated : E → Prop}

/-- Every request the process may send is allowed and every failure it may raise tolerated. -/
inductive Obeys (allowed : Q → Prop) (tolerated : E → Prop) : Process Q R E V → Prop
  | done (v) : Obeys allowed tolerated (done v)
  | failed {e} (h : tolerated e) : Obeys allowed tolerated (failed e)
  | request {q resume} (h : allowed q) (hresume : ∀ r, Obeys allowed tolerated (resume r)) :
      Obeys allowed tolerated (request q resume)
  | waiting {q resume} (h : allowed q) (hresume : ∀ r, Obeys allowed tolerated (resume r)) :
      Obeys allowed tolerated (waiting q resume)
  | gather {n children resume} (hchildren : ∀ i, Obeys allowed tolerated (children i))
      (hresume : ∀ vs, Obeys allowed tolerated (resume vs)) :
      Obeys allowed tolerated (gather n children resume)
  | lost {n children e} (hchildren : ∀ i, Obeys allowed tolerated (children i))
      (h : tolerated e) : Obeys allowed tolerated (lost n children e)

theorem Obeys.of_failure? {p : Process Q R E V} (h : Obeys allowed tolerated p) {e : E}
    (he : p.failure? = some e) : tolerated e := by
  cases h with
  | failed h => exact Option.some.inj he ▸ h
  | lost _ h => exact Option.some.inj he ▸ h
  | _ => simp [failure?] at he

theorem Obeys.update {n : ℕ} {children : Fin n → Process Q R E V} {p : Process Q R E V}
    (h : ∀ i, Obeys allowed tolerated (children i)) (hp : Obeys allowed tolerated p) (i : Fin n) :
    ∀ j, Obeys allowed tolerated (Function.update children i p j) := by
  intro j
  by_cases hj : j = i
  · subst hj
    rwa [Function.update_self]
  · rw [Function.update_of_ne hj]
    exact h j

theorem Obeys.step {p q : Process Q R E V} {t : List (Event Q R)} (h : Obeys allowed tolerated p)
    (hstep : Step p t q) :
    Obeys allowed tolerated q ∧ ∀ a, Event.sent a ∈ t → allowed a := by
  induction hstep with
  | send q resume =>
    cases h with
    | request h hresume => exact ⟨.waiting h hresume, by simpa using h⟩
  | reply q resume r =>
    cases h with
    | waiting _ hresume => exact ⟨hresume r, by simp⟩
  | @child _ _ _ i _ _ _ ih =>
    cases h with
    | gather hchildren hresume =>
      obtain ⟨hp, hsent⟩ := ih (hchildren i)
      exact ⟨.gather (Obeys.update hchildren hp i) hresume, hsent⟩
  | join _ =>
    cases h with
    | gather _ hresume => exact ⟨hresume _, by simp⟩
  | @abandon _ _ _ i _ he =>
    cases h with
    | gather hchildren _ => exact ⟨.lost hchildren ((hchildren i).of_failure? he), by simp⟩
  | @orphan _ _ _ i _ _ _ ih =>
    cases h with
    | lost hchildren he =>
      obtain ⟨hp, hsent⟩ := ih (hchildren i)
      exact ⟨.lost (Obeys.update hchildren hp i) he, hsent⟩

theorem Obeys.run {p q : Process Q R E V} {t : List (Event Q R)} (h : Obeys allowed tolerated p)
    (hrun : Run p t q) :
    Obeys allowed tolerated q ∧ ∀ a, Event.sent a ∈ t → allowed a := by
  induction hrun with
  | refl => exact ⟨h, by simp⟩
  | step hstep _ ih =>
    obtain ⟨hq, hsent⟩ := h.step hstep
    obtain ⟨hr, hrest⟩ := ih hq
    exact ⟨hr, fun a ha => (List.mem_append.mp ha).elim (hsent a) (hrest a)⟩

theorem Obeys.of_raises {p : Process Q R E V} (h : Obeys allowed tolerated p) {e : E}
    (hraises : Raises e p) : tolerated e := by
  induction hraises with
  | failed => cases h with | failed h => exact h
  | lost => cases h with | lost _ h => exact h
  | gathered _ ih => cases h with | gather hchildren _ => exact ih (hchildren _)
  | orphaned _ ih => cases h with | lost hchildren _ => exact ih (hchildren _)

theorem Obeys.bind {p : Process Q R E V} {f : V → Process Q R E V}
    (h : Obeys allowed tolerated p) (hf : ∀ v, Obeys allowed tolerated (f v)) :
    Obeys allowed tolerated (p.bind f) := by
  induction h with
  | done v => exact hf v
  | failed h => exact .failed h
  | request h _ ih => exact .request h ih
  | waiting h _ ih => exact .waiting h ih
  | gather hchildren _ _ ih => exact .gather hchildren ih
  | lost hchildren h _ => exact .lost hchildren h

theorem Obeys.ofExcept {x : Except E V} (h : ∀ e, x = .error e → tolerated e) :
    Obeys allowed tolerated (ofExcept x : Process Q R E V) := by
  cases x with
  | ok v => exact .done v
  | error e => exact .failed (h e rfl)

end Obeys

/-! How many weighted requests a process sends. -/

section Tally
variable {w : Q → ℕ}

/-- The total weight of the requests sent. -/
def weight (w : Q → ℕ) : List (Event Q R) → ℕ
  | [] => 0
  | .sent q :: rest => w q + weight w rest
  | .replied _ _ :: rest => weight w rest

theorem weight_append (w : Q → ℕ) (t u : List (Event Q R)) :
    weight w (t ++ u) = weight w t + weight w u := by
  induction t with
  | nil => simp [weight]
  | cons a t ih => cases a <;> simp [weight, ih, Nat.add_assoc]

theorem weight_congr {w' : Q → ℕ} {t : List (Event Q R)}
    (h : ∀ q, Event.sent q ∈ t → w q = w' q) : weight w t = weight w' t := by
  induction t with
  | nil => rfl
  | cons a t ih =>
    have hrest : weight w t = weight w' t := ih fun q hq => h q (List.mem_cons_of_mem _ hq)
    cases a with
    | sent q =>
      have hfirst : w q = w' q := h q List.mem_cons_self
      simp only [weight]
      omega
    | replied q r => exact hrest

theorem weight_eq_zero {t : List (Event Q R)} (h : ∀ q, Event.sent q ∈ t → w q = 0) :
    weight w t = 0 := by
  induction t with
  | nil => rfl
  | cons a t ih =>
    have hrest : weight w t = 0 := ih fun q hq => h q (List.mem_cons_of_mem _ hq)
    cases a with
    | sent q =>
      have hfirst : w q = 0 := h q List.mem_cons_self
      simp only [weight]
      omega
    | replied q r => exact hrest

/-- On every path to a result exactly this weight is sent, and never more before a failure. -/
inductive Tally (w : Q → ℕ) : ℕ → Process Q R E V → Prop
  | done (v) : Tally w 0 (done v)
  | failed (n e) : Tally w n (failed e)
  | request {n q resume} (hresume : ∀ r, Tally w n (resume r)) :
      Tally w (w q + n) (request q resume)
  | waiting {n q resume} (hresume : ∀ r, Tally w n (resume r)) : Tally w n (waiting q resume)
  | gather {m n children resume} (c : Fin m → ℕ) (hchildren : ∀ i, Tally w (c i) (children i))
      (hresume : ∀ vs, Tally w n (resume vs)) :
      Tally w (∑ i, c i + n) (gather m children resume)
  | lost {m n children e} (c : Fin m → ℕ) (hchildren : ∀ i, Tally w (c i) (children i))
      (hle : ∑ i, c i ≤ n) : Tally w n (lost m children e)

theorem Tally.eq_zero {n : ℕ} {v : V} (h : Tally w n (Process.done v : Process Q R E V)) :
    n = 0 := by
  cases h
  rfl

/-- One child of a family goes on with a smaller tally. -/
theorem Tally.update {m : ℕ} {children : Fin m → Process Q R E V} {c : Fin m → ℕ}
    (h : ∀ i, Tally w (c i) (children i)) {p : Process Q R E V} {i : Fin m} {sent rest : ℕ}
    (hp : Tally w rest p) (hi : c i = sent + rest) :
    (∀ j, Tally w (Function.update c i rest j) (Function.update children i p j)) ∧
      ∑ j, c j = sent + ∑ j, Function.update c i rest j := by
  constructor
  · intro j
    by_cases hj : j = i
    · subst hj
      rwa [Function.update_self, Function.update_self]
    · rw [Function.update_of_ne hj, Function.update_of_ne hj]
      exact h j
  · rw [Finset.sum_update_of_mem (Finset.mem_univ i), ← Nat.add_assoc, ← hi]
    have hsplit := Finset.sum_sdiff (f := c) (Finset.subset_univ {i})
    rw [Finset.sum_singleton] at hsplit
    rw [← hsplit, Nat.add_comm]

theorem Tally.step {p q : Process Q R E V} {t : List (Event Q R)} {n : ℕ} (h : Tally w n p)
    (hstep : Step p t q) : ∃ rest, Tally w rest q ∧ n = weight w t + rest := by
  induction hstep generalizing n with
  | send q resume =>
    cases h with
    | request hresume => exact ⟨_, .waiting hresume, by simp [weight]⟩
  | reply q resume r =>
    cases h with
    | waiting hresume => exact ⟨n, hresume r, by simp [weight]⟩
  | @child _ _ _ i t _ _ ih =>
    cases h with
    | gather c hchildren hresume =>
      obtain ⟨rest, hp, hi⟩ := ih (hchildren i)
      obtain ⟨hupdated, hsum⟩ := Tally.update hchildren hp hi
      exact ⟨_, .gather _ hupdated hresume, by rw [hsum, Nat.add_assoc]⟩
  | join hdone =>
    cases h with
    | gather c hchildren hresume =>
      have hzero : ∀ i, c i = 0 := fun i => (hdone i ▸ hchildren i).eq_zero
      exact ⟨_, hresume _, by simp [weight, hzero]⟩
  | abandon _ =>
    cases h with
    | @gather _ n _ _ c hchildren hresume =>
      exact ⟨_, .lost c hchildren (Nat.le_add_right _ n), by simp [weight]⟩
  | @orphan _ _ _ i t _ _ ih =>
    cases h with
    | lost c hchildren hle =>
      obtain ⟨rest, hp, hi⟩ := ih (hchildren i)
      obtain ⟨hupdated, hsum⟩ := Tally.update hchildren hp hi
      refine ⟨n - weight w t, .lost _ hupdated ?_, ?_⟩
      · omega
      · omega

theorem Tally.run {p q : Process Q R E V} {t : List (Event Q R)} {n : ℕ} (h : Tally w n p)
    (hrun : Run p t q) : ∃ rest, Tally w rest q ∧ n = weight w t + rest := by
  induction hrun generalizing n with
  | refl => exact ⟨n, h, by simp [weight]⟩
  | step hstep _ ih =>
    obtain ⟨between, hq, hn⟩ := h.step hstep
    obtain ⟨rest, hr, hbetween⟩ := ih hq
    exact ⟨rest, hr, by rw [weight_append, hn, hbetween, Nat.add_assoc]⟩

theorem Tally.le {p q : Process Q R E V} {t : List (Event Q R)} {n : ℕ} (h : Tally w n p)
    (hrun : Run p t q) : weight w t ≤ n := by
  obtain ⟨rest, -, hn⟩ := h.run hrun
  omega

theorem Tally.eq_of_done {p : Process Q R E V} {t : List (Event Q R)} {n : ℕ} {v : V}
    (h : Tally w n p) (hrun : Run p t (Process.done v)) : weight w t = n := by
  obtain ⟨rest, hrest, hn⟩ := h.run hrun
  have hzero := hrest.eq_zero
  omega

theorem Tally.bind {p : Process Q R E V} {f : V → Process Q R E V} {m n : ℕ} (h : Tally w m p)
    (hf : ∀ v, Tally w n (f v)) : Tally w (m + n) (p.bind f) := by
  induction h with
  | done v => simpa [Process.bind] using hf v
  | failed m e => exact .failed _ e
  | request _ ih =>
    rw [Nat.add_assoc]
    exact .request ih
  | waiting _ ih => exact .waiting ih
  | gather c hchildren _ _ ih =>
    rw [Nat.add_assoc]
    exact .gather c hchildren ih
  | lost c hchildren hle => exact .lost c hchildren (by omega)

theorem Tally.gather_list {children : List (Process Q R E V)} {counts : List ℕ} {n : ℕ}
    (resume : List V → Process Q R E V) (h : List.Forall₂ (Tally w) counts children)
    (hresume : ∀ vs, Tally w n (resume vs)) :
    Tally w (counts.sum + n) (Process.gather children.length children.get resume) := by
  obtain ⟨hlength, hget⟩ := List.forall₂_iff_get.mp h
  have hsum : ∑ i : Fin children.length, counts.get (i.cast hlength.symm) = counts.sum := by
    rw [← Fin.sum_univ_getElem counts]
    exact Fintype.sum_equiv (finCongr hlength.symm) _ _ fun _ => rfl
  rw [← hsum]
  exact .gather _ (fun i => hget i.val (i.cast hlength.symm).isLt i.isLt) hresume

theorem Tally.ofExcept (x : Except E V) : Tally w 0 (ofExcept x : Process Q R E V) := by
  cases x with
  | ok v => exact .done v
  | error e => exact .failed 0 e

end Tally

/-! How the parts of a process have run. -/

section Parts

/-- Before a process has its result, what goes on as `f` steps as the process. -/
theorem step_of_bind {p q : Process Q R E V} {f : V → Process Q R E V} {t : List (Event Q R)}
    (hp : ∀ v, p ≠ done v) (h : Step (p.bind f) t q) : ∃ p', Step p t p' ∧ q = p'.bind f := by
  cases p with
  | done v => exact absurd rfl (hp v)
  | failed e => cases h
  | request a resume =>
    cases h
    exact ⟨waiting a resume, .send a resume, rfl⟩
  | waiting a resume =>
    cases h with
    | reply _ _ r => exact ⟨resume r, .reply a resume r, rfl⟩
  | gather n children resume =>
    cases h with
    | @child _ _ _ i _ c hchild =>
      exact ⟨gather n (Function.update children i c) resume, .child hchild, rfl⟩
    | @join _ _ _ vs hdone => exact ⟨resume (List.ofFn vs), .join hdone, rfl⟩
    | @abandon _ _ _ i e he => exact ⟨lost n children e, .abandon he, rfl⟩
  | lost n children e =>
    cases h with
    | @orphan _ _ _ i _ c hchild =>
      exact ⟨lost n (Function.update children i c) e, .orphan hchild, rfl⟩

/-- A run of a process that goes on as `f` has not finished the process, or is a run of `f` from
its result on. -/
theorem Run.bind_cases {p q : Process Q R E V} {f : V → Process Q R E V} {t : List (Event Q R)}
    (h : Run (p.bind f) t q) :
    (∃ p', Run p t p' ∧ q = p'.bind f) ∨
      ∃ t₁ u t₂, t = t₁ ++ t₂ ∧ Run p t₁ (done u) ∧ Run (f u) t₂ q := by
  generalize hstart : p.bind f = start at h
  induction h generalizing p with
  | refl start => exact .inl ⟨p, .refl _, hstart.symm⟩
  | @step start between final t u hstep hrest ih =>
    cases p with
    | done w =>
      rw [bind] at hstart
      subst hstart
      exact .inr ⟨[], w, t ++ u, rfl, .refl _, .step hstep hrest⟩
    | failed e =>
      subst hstart
      cases hstep
    | _ =>
      subst hstart
      have hfirst : ∃ p', Step _ t p' ∧ between = p'.bind f := step_of_bind (by simp) hstep
      obtain ⟨p', hp', rfl⟩ := hfirst
      rcases ih rfl with ⟨p'', hrun, rfl⟩ | ⟨t₁, w, t₂, rfl, hrun, hnext⟩
      · exact .inl ⟨p'', .step hp' hrun, rfl⟩
      · exact .inr ⟨t ++ t₁, w, t₂, (List.append_assoc ..).symm, .step hp' hrun, hnext⟩

/-- A run of a process that goes on as `f` is a run of the process, and a run of `f` once there is
a result. -/
theorem Run.of_bind {p : Process Q R E V} {f : V → Process Q R E V} {t : List (Event Q R)} {v : V}
    (h : Run (p.bind f) t (done v)) :
    ∃ t₁ u t₂, t = t₁ ++ t₂ ∧ Run p t₁ (done u) ∧ Run (f u) t₂ (done v) := by
  rcases h.bind_cases with ⟨p', hrun, hdone⟩ | hnext
  · cases p' with
    | done u => exact ⟨t, u, [], (List.append_nil t).symm, hrun, hdone ▸ .refl _⟩
    | _ => exact absurd hdone (by simp [bind])
  · exact hnext

theorem Run.waiting_of_request {q q' : Q} {resume resume' : R → Process Q R E V}
    {t : List (Event Q R)} (h : Run (request q resume) t (waiting q' resume')) :
    (q' = q ∧ resume' = resume) ∨ ∃ r t', Run (resume r) t' (waiting q' resume') := by
  cases h with
  | step hstep hrest =>
    cases hstep
    cases hrest with
    | refl => exact .inl ⟨rfl, rfl⟩
    | step hstep hrest =>
      cases hstep with
      | reply _ _ r => exact .inr ⟨r, _, hrest⟩

/-- An ended process does nothing more. -/
theorem Run.of_ended {p q : Process Q R E V} (hp : p.ended = true) {t : List (Event Q R)}
    (h : Run p t q) : t = [] ∧ q = p := by
  cases h with
  | refl => exact ⟨rfl, rfl⟩
  | step hstep hrest =>
    cases hstep with
    | _ => exact absurd hp (by simp [ended])

theorem Run.not_waiting_of_ended {p : Process Q R E V} (hp : p.ended = true) {q : Q}
    {resume : R → Process Q R E V} {t : List (Event Q R)} : ¬ Run p t (waiting q resume) := by
  intro h
  obtain ⟨-, rfl⟩ := h.of_ended hp
  exact absurd hp (by simp [ended])

/-- A request that the process itself cannot wait for is waited for by what goes on after it. -/
theorem Run.waiting_of_bind {allowed : Q → Prop} {tolerated : E → Prop} {p : Process Q R E V}
    {f : V → Process Q R E V} {t : List (Event Q R)} {q : Q} {resume : R → Process Q R E V}
    (hp : Obeys allowed tolerated p) (hq : ¬ allowed q)
    (h : Run (p.bind f) t (waiting q resume)) : ∃ u t', Run (f u) t' (waiting q resume) := by
  rcases h.bind_cases with ⟨p', hrun, hwaiting⟩ | ⟨t₁, u, t₂, -, -, hnext⟩
  · cases p' with
    | done u => exact ⟨u, [], hwaiting ▸ .refl _⟩
    | waiting q' resume' =>
      obtain ⟨rfl, -⟩ : q = q' ∧ _ := by simpa [bind] using hwaiting
      cases (hp.run hrun).1 with
      | waiting hallowed _ => exact absurd hallowed hq
    | _ => exact absurd hwaiting (by simp [bind])
  · exact ⟨u, t₂, hnext⟩

/-- Every member of a family has got where it is by events of its own. -/
def Advanced {n : ℕ} (children : Fin n → Process Q R E V) (t : List (Event Q R))
    (children' : Fin n → Process Q R E V) : Prop :=
  ∀ i, ∃ u : List (Event Q R), u.Sublist t ∧ Run (children i) u (children' i)

theorem Advanced.refl {n : ℕ} (children : Fin n → Process Q R E V) :
    Advanced children [] children :=
  fun _ => ⟨[], List.Sublist.refl _, .refl _⟩

theorem Advanced.step {n : ℕ} {children children' : Fin n → Process Q R E V}
    {t u : List (Event Q R)} {i : Fin n} {p : Process Q R E V} (hstep : Step (children i) t p)
    (h : Advanced (Function.update children i p) u children') :
    Advanced children (t ++ u) children' := by
  intro j
  obtain ⟨w, hw, hrun⟩ := h j
  by_cases hj : j = i
  · subst hj
    rw [Function.update_self] at hrun
    exact ⟨t ++ w, hw.append_left t, .step hstep hrun⟩
  · rw [Function.update_of_ne hj] at hrun
    exact ⟨w, hw.trans (List.sublist_append_right t u), hrun⟩

/-- The state of an abandoned gathering. -/
theorem Run.of_lost {n : ℕ} {children : Fin n → Process Q R E V} {e : E} {t : List (Event Q R)}
    {p : Process Q R E V} (h : Run (lost n children e) t p) :
    ∃ children', p = lost n children' e ∧ Advanced children t children' := by
  generalize hq : lost n children e = q at h
  induction h generalizing children with
  | refl q => exact ⟨children, hq.symm, .refl _⟩
  | step hstep _ ih =>
    subst hq
    cases hstep with
    | @orphan _ _ _ i _ c hchild =>
      obtain ⟨children', hp, hadvanced⟩ := ih rfl
      exact ⟨children', hp, .step hchild hadvanced⟩

/-- A gathering is still going on, has joined the results of all its children, or was abandoned.
In each case every child has run on its own. -/
theorem Run.of_gather {n : ℕ} {children : Fin n → Process Q R E V}
    {resume : List V → Process Q R E V} {t : List (Event Q R)} {p : Process Q R E V}
    (h : Run (gather n children resume) t p) :
    (∃ children', p = gather n children' resume ∧ Advanced children t children') ∨
    (∃ vs t₁ t₂, t = t₁ ++ t₂ ∧ Advanced children t₁ (fun i => done (vs i)) ∧
      Run (resume (List.ofFn vs)) t₂ p) ∨
    ∃ children' e, p = lost n children' e ∧ Advanced children t children' := by
  generalize hq : gather n children resume = q at h
  induction h generalizing children with
  | refl q => exact .inl ⟨children, hq.symm, .refl _⟩
  | @step q between r t u hstep hrest ih =>
    subst hq
    cases hstep with
    | @child _ _ _ i _ c hchild =>
      rcases ih rfl with ⟨children', hp, hadvanced⟩ | ⟨vs, t₁, t₂, rfl, hadvanced, hresumed⟩ |
        ⟨children', e, hp, hadvanced⟩
      · exact .inl ⟨children', hp, .step hchild hadvanced⟩
      · exact .inr (.inl ⟨vs, t ++ t₁, t₂, (List.append_assoc ..).symm, .step hchild hadvanced,
          hresumed⟩)
      · exact .inr (.inr ⟨children', e, hp, .step hchild hadvanced⟩)
    | @join _ _ _ vs hdone =>
      refine .inr (.inl ⟨vs, [], u, rfl, ?_, hrest⟩)
      have hchildren : children = fun i => done (vs i) := funext hdone
      exact hchildren ▸ .refl _
    | @abandon _ _ _ i e he =>
      obtain ⟨children', hp, hadvanced⟩ := Run.of_lost hrest
      exact .inr (.inr ⟨children', e, hp, hadvanced⟩)

/-- The process has a run to a result. -/
def Completes (p : Process Q R E V) : Prop := ∃ t v, Run p t (done v)

theorem not_completes_failed (e : E) : ¬ Completes (failed e : Process Q R E V) := by
  rintro ⟨t, v, h⟩
  cases h with
  | step hstep _ => cases hstep

theorem Completes.of_bind {p : Process Q R E V} {f : V → Process Q R E V}
    (h : Completes (p.bind f)) : Completes p ∧ ∃ v, Completes (f v) := by
  obtain ⟨t, v, hrun⟩ := h
  obtain ⟨t₁, u, t₂, -, hp, hf⟩ := hrun.of_bind
  exact ⟨⟨t₁, u, hp⟩, u, t₂, v, hf⟩

theorem Completes.of_gather {n : ℕ} {children : Fin n → Process Q R E V}
    {resume : List V → Process Q R E V} (h : Completes (gather n children resume)) :
    ∀ i, Completes (children i) := by
  obtain ⟨t, v, hrun⟩ := h
  rcases hrun.of_gather with ⟨children', hp, -⟩ | ⟨vs, t₁, t₂, -, hadvanced, -⟩ |
    ⟨children', e, hp, -⟩
  · exact absurd hp (by simp)
  · intro i
    obtain ⟨u, -, hchild⟩ := hadvanced i
    exact ⟨u, vs i, hchild⟩
  · exact absurd hp (by simp)

theorem Completes.of_request {q : Q} {resume : R → Process Q R E V}
    (h : Completes (request q resume)) : ∃ r, Completes (resume r) := by
  obtain ⟨t, v, hrun⟩ := h
  cases hrun with
  | step hstep hrest =>
    cases hstep
    cases hrest with
    | step hstep hrest =>
      cases hstep
      exact ⟨_, _, _, hrest⟩

end Parts

/-! The schedule that runs one task after the other. -/

section Replay
variable (answer : Q → R)

/-- The results of tasks that all have one, or the first failure. -/
def collect : List (Except E V) → Except E (List V)
  | [] => .ok []
  | .ok v :: rest => (collect rest).map (v :: ·)
  | .error e :: _ => .error e

/-- The events and the outcome when every request is answered by `answer`, task after task. -/
def replay : Process Q R E V → List (Event Q R) × Except E V
  | done v => ([], .ok v)
  | failed e => ([], .error e)
  | request q resume =>
    let rest := replay (resume (answer q))
    (.sent q :: .replied q (answer q) :: rest.1, rest.2)
  | waiting q resume =>
    let rest := replay (resume (answer q))
    (.replied q (answer q) :: rest.1, rest.2)
  | gather n children resume =>
    let runs := List.ofFn fun i : Fin n => replay (children i)
    match collect (runs.map Prod.snd) with
    | .ok vs =>
      let rest := replay (resume vs)
      (runs.flatMap Prod.fst ++ rest.1, rest.2)
    | .error e => (runs.flatMap Prod.fst, .error e)
  | lost _ _ e => ([], .error e)

/-- A process that stands for this outcome. -/
def Settled (outcome : Except E V) (p : Process Q R E V) : Prop :=
  match outcome with
  | .ok v => p = done v
  | .error e => p.failure? = some e

/-- One child of a gathering may run while the others rest. -/
theorem Run.child {n : ℕ} (children : Fin n → Process Q R E V) (resume : List V → Process Q R E V)
    {i : Fin n} {t : List (Event Q R)} {p q : Process Q R E V} (h : Run p t q)
    (hi : children i = p) :
    Run (gather n children resume) t (gather n (Function.update children i q) resume) := by
  induction h generalizing children with
  | refl p =>
    rw [← hi, Function.update_eq_self]
    exact .refl _
  | @step _ between _ _ _ hstep _ ih =>
    have hrest := ih (Function.update children i between) (Function.update_self ..)
    rw [Function.update_idem] at hrest
    exact .step (.child (hi ▸ hstep)) hrest

/-- The children of a gathering may run one after the other. -/
theorem Run.children {n : ℕ} {children final : Fin n → Process Q R E V}
    (resume : List V → Process Q R E V) {t : Fin n → List (Event Q R)}
    (h : ∀ i, Run (children i) (t i) (final i)) :
    Run (gather n children resume) (List.ofFn t).flatten (gather n final resume) := by
  have hfirst : ∀ m (hm : m ≤ n), Run (gather n children resume)
      (List.ofFn fun i : Fin m => t (i.castLE hm)).flatten
      (gather n (fun i => if i.val < m then final i else children i) resume) := by
    intro m
    induction m with
    | zero =>
      intro _
      simpa using Run.refl (gather n children resume)
    | succ m ih =>
      intro hm
      have hnext : (fun i : Fin n => if i.val < m then final i else children i) ⟨m, hm⟩ =
          children ⟨m, hm⟩ := if_neg (Nat.lt_irrefl m)
      have hrun := (ih (Nat.le_of_succ_le hm)).trans (Run.child _ resume (h ⟨m, hm⟩) hnext)
      have hevents : (List.ofFn fun i : Fin (m + 1) => t (i.castLE hm)) =
          (List.ofFn fun i : Fin m => t (i.castLE (Nat.le_of_succ_le hm))) ++ [t ⟨m, hm⟩] := by
        rw [List.ofFn_succ', List.concat_eq_append]
        rfl
      have hstate : (fun i : Fin n => if i.val < m + 1 then final i else children i) =
          Function.update (fun i => if i.val < m then final i else children i) ⟨m, hm⟩
            (final ⟨m, hm⟩) := by
        funext i
        by_cases hi : i = ⟨m, hm⟩
        · subst hi
          simp
        · have hne : i.val ≠ m := fun hval => hi (Fin.ext hval)
          rw [Function.update_of_ne hi]
          have hiff : i.val < m + 1 ↔ i.val < m := by omega
          simp only [hiff]
      rw [hevents, hstate, List.flatten_append, List.flatten_singleton]
      exact hrun
  have hall := hfirst n le_rfl
  simpa using hall

theorem collect_ofFn {n : ℕ} {outcome : Fin n → Except E V} :
    (∃ vs : Fin n → V, (∀ i, outcome i = .ok (vs i)) ∧
      collect (List.ofFn outcome) = .ok (List.ofFn vs)) ∨
    ∃ i e, outcome i = .error e ∧ collect (List.ofFn outcome) = .error e := by
  induction n with
  | zero => exact .inl ⟨Fin.elim0, fun i => i.elim0, by simp [collect]⟩
  | succ n ih =>
    rw [List.ofFn_succ]
    cases hzero : outcome 0 with
    | error e => exact .inr ⟨0, e, hzero, rfl⟩
    | ok v =>
      rw [collect]
      rcases @ih fun i => outcome i.succ with ⟨vs, hvs, hcollect⟩ | ⟨i, e, he, hcollect⟩
      · refine .inl ⟨Fin.cons v vs, fun i => Fin.cases hzero hvs i, ?_⟩
        rw [hcollect, List.ofFn_succ]
        rfl
      · exact .inr ⟨i.succ, e, he, by rw [hcollect]; rfl⟩

/-- The task-after-task schedule is one of the runs, and it ends. -/
theorem replay_run (p : Process Q R E V) :
    ∃ q, Run p (replay answer p).1 q ∧ Settled (replay answer p).2 q := by
  induction p with
  | done v => exact ⟨_, .refl _, rfl⟩
  | failed e => exact ⟨_, .refl _, rfl⟩
  | request q resume ih =>
    obtain ⟨p, hrun, hp⟩ := ih (answer q)
    exact ⟨p, .step (.send q resume) (.step (.reply q resume _) hrun), hp⟩
  | waiting q resume ih =>
    obtain ⟨p, hrun, hp⟩ := ih (answer q)
    exact ⟨p, .step (.reply q resume _) hrun, hp⟩
  | gather n children resume ihchildren ih =>
    choose final hrun hfinal using ihchildren
    have hgathered := Run.children resume hrun
    have hevents : (List.ofFn fun i => replay answer (children i)).flatMap Prod.fst =
        (List.ofFn fun i => (replay answer (children i)).1).flatten := by
      rw [List.flatMap_def, List.map_ofFn]
      rfl
    have houtcomes : (List.ofFn fun i => replay answer (children i)).map Prod.snd =
        List.ofFn fun i => (replay answer (children i)).2 := by
      rw [List.map_ofFn]
      rfl
    rcases @collect_ofFn E V n fun i => (replay answer (children i)).2 with
      ⟨vs, hvs, hcollect⟩ | ⟨i, e, he, hcollect⟩
    · obtain ⟨p, hrest, hp⟩ := ih (List.ofFn vs)
      have hjoin : ∀ i, final i = done (vs i) := fun i => by
        have hsettled := hfinal i
        rwa [hvs i] at hsettled
      simp only [replay, houtcomes, hcollect, hevents]
      exact ⟨p, hgathered.trans (.step (.join hjoin) hrest), hp⟩
    · have hfailed : (final i).failure? = some e := by
        have hsettled := hfinal i
        rwa [he] at hsettled
      have habandon := hgathered.trans (.single (.abandon hfailed))
      rw [List.append_nil] at habandon
      simp only [replay, houtcomes, hcollect, hevents]
      exact ⟨_, habandon, rfl⟩
  | lost n children e => exact ⟨_, .refl _, rfl⟩

end Replay

/-! A process that is fed with replies. -/

/-- The events and the process when a single task gets these replies, one after the other. -/
def feed : List R → Process Q R E V → List (Event Q R) × Process Q R E V
  | [], request q resume => ([.sent q], waiting q resume)
  | r :: rest, request q resume =>
    let fed := feed rest (resume r)
    (.sent q :: .replied q r :: fed.1, fed.2)
  | _, p => ([], p)

theorem feed_run (rs : List R) (p : Process Q R E V) : Run p (feed rs p).1 (feed rs p).2 := by
  induction rs generalizing p with
  | nil =>
    cases p with
    | request q resume => exact .single (.send q resume)
    | _ => exact .refl _
  | cons r rest ih =>
    cases p with
    | request q resume => exact .step (.send q resume) (.step (.reply q resume r) (ih (resume r)))
    | _ => exact .refl _

end Process
end CapabilityCompiler.Foundation
