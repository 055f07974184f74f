import Mathlib.Order.Basic
import Mathlib.Tactic.Common

/-! Worklists: keys are visited from a queue, and a visit queues the targets that it changes. -/
namespace CapabilityCompiler.Foundation.Worklist

variable {κ σ : Type} (targets : κ → List κ) (update : κ → κ → σ → σ × Bool)

/-- Update these targets of a key in turn; the changed ones are queued. -/
def visit (key : κ) : List κ → σ → σ × List κ
  | [], s => (s, [])
  | target :: rest, s =>
    let updated := update key target s
    let visited := visit key rest updated.1
    (visited.1, if updated.2 then target :: visited.2 else visited.2)

/-- Visit the keys of the queue until none is left. -/
def run : ℕ → List κ → σ → Option σ
  | _, [], s => some s
  | 0, _ :: _, _ => none
  | fuel + 1, key :: queue, s =>
    let visited := visit update key (targets key) s
    run fuel (queue ++ visited.2) visited.1

/-- What every update keeps. -/
def Keeps (P : σ → Prop) : Prop :=
  ∀ key target s, target ∈ targets key → P s → P (update key target s).1

variable {targets update}

theorem visit_keeps {P : σ → Prop} (hkeeps : Keeps targets update P) {key : κ} {rest : List κ}
    (hrest : rest ⊆ targets key) {s : σ} (h : P s) : P (visit update key rest s).1 := by
  induction rest generalizing s with
  | nil => exact h
  | cons target rest ih =>
    obtain ⟨htarget, hrest⟩ := List.cons_subset.mp hrest
    exact ih hrest (hkeeps key target s htarget h)

theorem run_keeps {P : σ → Prop} (hkeeps : Keeps targets update P) {fuel : ℕ} {queue : List κ}
    {s result : σ} (h : P s) (hrun : run targets update fuel queue s = some result) :
    P result := by
  induction fuel generalizing queue s with
  | zero =>
    cases queue with
    | nil => exact Option.some.inj hrun ▸ h
    | cons key queue => exact absurd hrun (by simp [run])
  | succ fuel ih =>
    cases queue with
    | nil => exact Option.some.inj hrun ▸ h
    | cons key queue => exact ih (visit_keeps hkeeps (fun _ => id) h) hrun

/-! Termination: every change makes a bounded size larger. -/

/-- A bounded size that no update makes smaller and every change makes larger. -/
structure Bounded (targets : κ → List κ) (update : κ → κ → σ → σ × Bool) (P : σ → Prop)
    (size : σ → ℕ) (bound : ℕ) : Prop where
  keeps : Keeps targets update P
  le_bound : ∀ s, P s → size s ≤ bound
  mono : ∀ key target s, target ∈ targets key → P s → size s ≤ size (update key target s).1
  grows : ∀ key target s, target ∈ targets key → P s → (update key target s).2 = true →
    size s < size (update key target s).1

section Termination
variable {P : σ → Prop} {size : σ → ℕ} {bound : ℕ}

theorem Bounded.size_visit (hbounded : Bounded targets update P size bound) {key : κ}
    {rest : List κ} (hrest : rest ⊆ targets key) {s : σ} (h : P s) :
    size s + (visit update key rest s).2.length ≤ size (visit update key rest s).1 := by
  induction rest generalizing s with
  | nil => exact Nat.le_refl _
  | cons target rest ih =>
    obtain ⟨htarget, hrest⟩ := List.cons_subset.mp hrest
    have hnext := ih hrest (hbounded.keeps key target s htarget h)
    have hmono := hbounded.mono key target s htarget h
    simp only [visit]
    split
    · rename_i hchanged
      have hgrows := hbounded.grows key target s htarget h hchanged
      rw [List.length_cons]
      omega
    · omega

/-- The queue is emptied in as many visits as it has keys and the size has room. -/
theorem Bounded.run_isSome (hbounded : Bounded targets update P size bound) {fuel : ℕ}
    {queue : List κ} {s : σ} (h : P s) (hfuel : queue.length + (bound - size s) ≤ fuel) :
    (run targets update fuel queue s).isSome = true := by
  induction fuel generalizing queue s with
  | zero =>
    obtain rfl : queue = [] := List.length_eq_zero_iff.mp (by omega)
    rfl
  | succ fuel ih =>
    cases queue with
    | nil => rfl
    | cons key queue =>
      have hvisited := hbounded.size_visit (List.Subset.refl (targets key)) h
      have hnext := visit_keeps hbounded.keeps (List.Subset.refl (targets key)) h
      have hle := hbounded.le_bound _ hnext
      refine ih hnext ?_
      rw [List.length_append]
      rw [List.length_cons] at hfuel
      omega

end Termination

/-! Results: when the queue is empty, every active key is done with all its targets. -/

/-- An update makes its target done and unsettles at most the keys that it queues. -/
structure Settles (targets : κ → List κ) (update : κ → κ → σ → σ × Bool) (P : σ → Prop)
    (Active : κ → σ → Prop) (Done : κ → κ → σ → Prop) : Prop where
  keeps : Keeps targets update P
  active_mono : ∀ key target s k, Active k s → Active k (update key target s).1
  active_of : ∀ key target s k, Active k (update key target s).1 →
    Active k s ∨ (update key target s).2 = true ∧ target = k
  done : ∀ key target s, target ∈ targets key → P s → Active key s →
    (update key target s).2 = true ∧ target = key ∨ Done key target (update key target s).1
  done_mono : ∀ key target s k t, target ∈ targets key → P s → Active k s → Done k t s →
    (update key target s).2 = true ∧ target = k ∨ Done k t (update key target s).1

section Results
variable {P : σ → Prop} {Active : κ → σ → Prop} {Done : κ → κ → σ → Prop}

/-- Every active key waits in the queue or is done with all its targets. -/
def Settled (targets : κ → List κ) (Active : κ → σ → Prop) (Done : κ → κ → σ → Prop)
    (queue : List κ) (s : σ) : Prop :=
  ∀ k, Active k s → k ∈ queue ∨ ∀ t ∈ targets k, Done k t s

theorem mem_visit_of_mem {key target k : κ} {rest : List κ} {s : σ}
    (h : k ∈ (visit update key rest (update key target s).1).2) :
    k ∈ (visit update key (target :: rest) s).2 := by
  simp only [visit]
  split
  · exact List.mem_cons_of_mem _ h
  · exact h

theorem mem_visit_of_changed {key target k : κ} {rest : List κ} {s : σ}
    (h : (update key target s).2 = true ∧ target = k) :
    k ∈ (visit update key (target :: rest) s).2 := by
  obtain ⟨hchanged, rfl⟩ := h
  simp only [visit, hchanged, if_true, List.mem_cons_self]

theorem Settles.active_visit (hsettles : Settles targets update P Active Done) {key k : κ}
    {rest : List κ} {s : σ} (h : Active k (visit update key rest s).1) :
    Active k s ∨ k ∈ (visit update key rest s).2 := by
  induction rest generalizing s with
  | nil => exact .inl h
  | cons target rest ih =>
    rcases ih h with hactive | hqueued
    · rcases hsettles.active_of key target s k hactive with hbefore | hchanged
      · exact .inl hbefore
      · exact .inr (mem_visit_of_changed hchanged)
    · exact .inr (mem_visit_of_mem hqueued)

theorem Settles.done_visit (hsettles : Settles targets update P Active Done) {key k t : κ}
    {rest : List κ} (hrest : rest ⊆ targets key) {s : σ} (h : P s) (hactive : Active k s)
    (hdone : Done k t s) :
    k ∈ (visit update key rest s).2 ∨ Done k t (visit update key rest s).1 := by
  induction rest generalizing s with
  | nil => exact .inr hdone
  | cons target rest ih =>
    obtain ⟨htarget, hrest⟩ := List.cons_subset.mp hrest
    rcases hsettles.done_mono key target s k t htarget h hactive hdone with hchanged | hnext
    · exact .inl (mem_visit_of_changed hchanged)
    · have hkept := hsettles.keeps key target s htarget h
      rcases ih hrest hkept (hsettles.active_mono key target s k hactive) hnext with hqueued | hdone
      · exact .inl (mem_visit_of_mem hqueued)
      · exact .inr hdone

theorem Settles.visited (hsettles : Settles targets update P Active Done) {key t : κ}
    {rest : List κ} (hrest : rest ⊆ targets key) {s : σ} (h : P s) (hactive : Active key s)
    (ht : t ∈ rest) :
    key ∈ (visit update key rest s).2 ∨ Done key t (visit update key rest s).1 := by
  induction rest generalizing s with
  | nil => exact absurd ht List.not_mem_nil
  | cons target rest ih =>
    obtain ⟨htarget, htail⟩ := List.cons_subset.mp hrest
    have hkept := hsettles.keeps key target s htarget h
    have hstill := hsettles.active_mono key target s key hactive
    rcases List.mem_cons.mp ht with rfl | ht
    · rcases hsettles.done key t s htarget h hactive with hchanged | hdone
      · exact .inl (mem_visit_of_changed hchanged)
      · rcases hsettles.done_visit htail hkept hstill hdone with hqueued | hlater
        · exact .inl (mem_visit_of_mem hqueued)
        · exact .inr hlater
    · rcases ih htail hkept hstill ht with hqueued | hdone
      · exact .inl (mem_visit_of_mem hqueued)
      · exact .inr hdone

theorem Settles.settled_visit (hsettles : Settles targets update P Active Done) {key : κ}
    {queue : List κ} {s : σ} (h : P s) (hsettled : Settled targets Active Done (key :: queue) s) :
    Settled targets Active Done (queue ++ (visit update key (targets key) s).2)
      (visit update key (targets key) s).1 := by
  intro k hk
  by_cases hqueued : k ∈ (visit update key (targets key) s).2
  · exact .inl (List.mem_append_right _ hqueued)
  have hactive : Active k s := (hsettles.active_visit hk).resolve_right hqueued
  rcases hsettled k hactive with hwaits | hdone
  · rcases List.mem_cons.mp hwaits with rfl | hwaits
    · exact .inr fun t ht =>
        (hsettles.visited (List.Subset.refl _) h hactive ht).resolve_left hqueued
    · exact .inl (List.mem_append_left _ hwaits)
  · exact .inr fun t ht =>
      (hsettles.done_visit (List.Subset.refl _) h hactive (hdone t ht)).resolve_left hqueued

/-- At the end every active key is done with all its targets. -/
theorem Settles.run_done (hsettles : Settles targets update P Active Done) {fuel : ℕ}
    {queue : List κ} {s result : σ} (h : P s) (hsettled : Settled targets Active Done queue s)
    (hrun : run targets update fuel queue s = some result) {k t : κ} (hk : Active k result)
    (ht : t ∈ targets k) : Done k t result := by
  induction fuel generalizing queue s with
  | zero =>
    cases queue with
    | nil =>
      obtain rfl := Option.some.inj hrun
      exact (hsettled k hk).resolve_left List.not_mem_nil t ht
    | cons key queue => exact absurd hrun (by simp [run])
  | succ fuel ih =>
    cases queue with
    | nil =>
      obtain rfl := Option.some.inj hrun
      exact (hsettled k hk).resolve_left List.not_mem_nil t ht
    | cons key queue =>
      exact ih (visit_keeps hsettles.keeps (List.Subset.refl _) h)
        (hsettles.settled_visit h hsettled) hrun

end Results

/-! Reached keys: what only visits of these keep. -/

/-- Visits of reached keys keep a property and queue reached keys. -/
structure Reaches (targets : κ → List κ) (update : κ → κ → σ → σ × Bool) (Reached : κ → Prop)
    (P : σ → Prop) : Prop where
  keeps : ∀ key target s, Reached key → target ∈ targets key → P s → P (update key target s).1
  queues : ∀ key target s, Reached key → target ∈ targets key → P s →
    (update key target s).2 = true → Reached target

section Reached
variable {Reached : κ → Prop} {P : σ → Prop}

theorem Reaches.visit (hreaches : Reaches targets update Reached P) {key : κ} (hkey : Reached key)
    {rest : List κ} (hrest : rest ⊆ targets key) {s : σ} (h : P s) :
    P (visit update key rest s).1 ∧ ∀ k ∈ (visit update key rest s).2, Reached k := by
  induction rest generalizing s with
  | nil => exact ⟨h, fun k hk => absurd hk List.not_mem_nil⟩
  | cons target rest ih =>
    obtain ⟨htarget, hrest⟩ := List.cons_subset.mp hrest
    obtain ⟨hkept, hqueued⟩ := ih hrest (hreaches.keeps key target s hkey htarget h)
    refine ⟨hkept, ?_⟩
    simp only [Worklist.visit]
    split
    · rename_i hchanged
      exact List.forall_mem_cons.mpr ⟨hreaches.queues key target s hkey htarget h hchanged, hqueued⟩
    · exact hqueued

theorem Reaches.run (hreaches : Reaches targets update Reached P) {fuel : ℕ} {queue : List κ}
    (hqueue : ∀ k ∈ queue, Reached k) {s result : σ} (h : P s)
    (hrun : run targets update fuel queue s = some result) : P result := by
  induction fuel generalizing queue s with
  | zero =>
    cases queue with
    | nil => exact Option.some.inj hrun ▸ h
    | cons key queue => exact absurd hrun (by simp [Worklist.run])
  | succ fuel ih =>
    cases queue with
    | nil => exact Option.some.inj hrun ▸ h
    | cons key queue =>
      obtain ⟨hkey, hqueue⟩ := List.forall_mem_cons.mp hqueue
      obtain ⟨hkept, hqueued⟩ := hreaches.visit hkey (List.Subset.refl (targets key)) h
      exact ih (List.forall_mem_append.mpr ⟨hqueue, hqueued⟩) hkept hrun

end Reached

/-! The order in which the targets of a key are listed does not matter. -/

section Order
variable {P : σ → Prop} {others : κ → List κ}

theorem Keeps.of_subset (h : Keeps targets update P) (hsub : ∀ k, others k ⊆ targets k) :
    Keeps others update P :=
  fun key target s htarget => h key target s (hsub key htarget)

theorem Bounded.of_subset {size : σ → ℕ} {bound : ℕ} (h : Bounded targets update P size bound)
    (hsub : ∀ k, others k ⊆ targets k) : Bounded others update P size bound where
  keeps := h.keeps.of_subset hsub
  le_bound := h.le_bound
  mono key target s htarget := h.mono key target s (hsub key htarget)
  grows key target s htarget := h.grows key target s (hsub key htarget)

theorem Settles.of_subset {Active : κ → σ → Prop} {Done : κ → κ → σ → Prop}
    (h : Settles targets update P Active Done) (hsub : ∀ k, others k ⊆ targets k) :
    Settles others update P Active Done where
  keeps := h.keeps.of_subset hsub
  active_mono := h.active_mono
  active_of := h.active_of
  done key target s htarget := h.done key target s (hsub key htarget)
  done_mono key target s k t htarget := h.done_mono key target s k t (hsub key htarget)

end Order

/-! The visits of a run. -/

/-- The keys in the order of their visits, with the states they are visited in. -/
def visits (targets : κ → List κ) (update : κ → κ → σ → σ × Bool) :
    ℕ → List κ → σ → List (κ × σ)
  | _, [], _ => []
  | 0, _ :: _, _ => []
  | fuel + 1, key :: queue, s =>
    let visited := visit update key (targets key) s
    (key, s) :: visits targets update fuel (queue ++ visited.2) visited.1

/-- What holds of the visits so far and the state, and is kept by a visit, holds at the end. -/
theorem run_visits {Q : List (κ × σ) → σ → Prop}
    (hstep : ∀ done key s, Q done s → Q (done ++ [(key, s)]) (visit update key (targets key) s).1)
    {fuel : ℕ} {queue : List κ} {done : List (κ × σ)} {s result : σ} (h : Q done s)
    (hrun : run targets update fuel queue s = some result) :
    Q (done ++ visits targets update fuel queue s) result := by
  induction fuel generalizing queue done s with
  | zero =>
    cases queue with
    | nil =>
      rw [visits, List.append_nil]
      exact Option.some.inj hrun ▸ h
    | cons key queue => exact absurd hrun (by simp [run])
  | succ fuel ih =>
    cases queue with
    | nil =>
      rw [visits, List.append_nil]
      exact Option.some.inj hrun ▸ h
    | cons key queue =>
      have hrest := ih (hstep done key s h) hrun
      rw [List.append_assoc] at hrest
      exact hrest

section Projection
variable {τ : Type} {project : σ → τ} {other : κ → κ → τ → τ × Bool}

/-- The update does the same to the part of the state. -/
def Projects (project : σ → τ) (update : κ → κ → σ → σ × Bool) (other : κ → κ → τ → τ × Bool) :
    Prop :=
  ∀ key target s, other key target (project s) =
    (project (update key target s).1, (update key target s).2)

theorem Projects.visit_eq (h : Projects project update other) (key : κ) (rest : List κ) (s : σ) :
    visit other key rest (project s) =
      (project (visit update key rest s).1, (visit update key rest s).2) := by
  induction rest generalizing s with
  | nil => rfl
  | cons target rest ih => simp only [visit, h key target s, ih]

theorem Projects.run_eq (h : Projects project update other) (fuel : ℕ) (queue : List κ) (s : σ) :
    run targets other fuel queue (project s) = (run targets update fuel queue s).map project := by
  induction fuel generalizing queue s with
  | zero => cases queue <;> rfl
  | succ fuel ih =>
    cases queue with
    | nil => rfl
    | cons key queue =>
      simp only [run, h.visit_eq]
      exact ih _ _

theorem Projects.visits_eq (h : Projects project update other) (fuel : ℕ) (queue : List κ) (s : σ) :
    visits targets other fuel queue (project s) =
      (visits targets update fuel queue s).map fun entry => (entry.1, project entry.2) := by
  induction fuel generalizing queue s with
  | zero => cases queue <;> rfl
  | succ fuel ih =>
    cases queue with
    | nil => rfl
    | cons key queue =>
      simp only [visits, h.visit_eq, List.map_cons]
      rw [ih]

end Projection
end CapabilityCompiler.Foundation.Worklist
