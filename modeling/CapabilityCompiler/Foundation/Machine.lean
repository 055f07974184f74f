import Mathlib.Data.List.Induction

/-! Machines: a state that answers inputs one after the other. -/
namespace CapabilityCompiler.Foundation.Machine

variable {σ ι ο : Type} (step : σ → ι → ο × σ)

/-- The state after some inputs. -/
def after (s : σ) : List ι → σ
  | [] => s
  | input :: rest => after (step s input).2 rest

/-- The inputs with the answers to them. -/
def trace (s : σ) : List ι → List (ι × ο)
  | [] => []
  | input :: rest => (input, (step s input).1) :: trace (step s input).2 rest

/-- Every input comes in a state that it is related to. -/
def Along (R : σ → ι → Prop) (s : σ) : List ι → Prop
  | [] => True
  | input :: rest => R s input ∧ Along R (step s input).2 rest

variable {step}

theorem after_append (s : σ) (first second : List ι) :
    after step s (first ++ second) = after step (after step s first) second := by
  induction first generalizing s with
  | nil => rfl
  | cons input rest ih => exact ih _

theorem trace_append (s : σ) (first second : List ι) :
    trace step s (first ++ second) =
      trace step s first ++ trace step (after step s first) second := by
  induction first generalizing s with
  | nil => rfl
  | cons input rest ih => rw [List.cons_append, trace, ih, trace, after, List.cons_append]

@[simp] theorem length_trace (s : σ) (inputs : List ι) :
    (trace step s inputs).length = inputs.length := by
  induction inputs generalizing s with
  | nil => rfl
  | cons input rest ih => rw [trace, List.length_cons, ih, List.length_cons]

/-- What the steps keep, the runs keep. -/
theorem invariant {P : σ → Prop} (hstep : ∀ s input, P s → P (step s input).2) {s : σ} (h : P s)
    (inputs : List ι) : P (after step s inputs) := by
  induction inputs generalizing s with
  | nil => exact h
  | cons input rest ih => exact ih (hstep s input h)

/-- What the steps keep under a condition, the runs keep that meet it at every step. -/
theorem Along.invariant {R : σ → ι → Prop} {P : σ → Prop}
    (hstep : ∀ s input, R s input → P s → P (step s input).2) {s : σ} {inputs : List ι}
    (hrun : Along step R s inputs) (h : P s) : P (after step s inputs) := by
  induction inputs generalizing s with
  | nil => exact h
  | cons input rest ih => exact ih hrun.2 (hstep s input hrun.1 h)

theorem Along.append {R : σ → ι → Prop} {s : σ} {first second : List ι} :
    Along step R s (first ++ second) ↔
      Along step R s first ∧ Along step R (after step s first) second := by
  induction first generalizing s with
  | nil => simp [Along, after]
  | cons input rest ih => rw [List.cons_append, Along, ih, Along, after, and_assoc]

theorem Along.mono {R R' : σ → ι → Prop} (h : ∀ s input, R s input → R' s input) {s : σ}
    {inputs : List ι} (hrun : Along step R s inputs) : Along step R' s inputs := by
  induction inputs generalizing s with
  | nil => trivial
  | cons input rest ih => exact ⟨h _ _ hrun.1, ih hrun.2⟩

/-- Relations that agree where an invariant holds agree along the runs from there. -/
theorem along_congr {R R' : σ → ι → Prop} {P : σ → Prop}
    (hstep : ∀ s input, P s → P (step s input).2) (h : ∀ s input, P s → (R s input ↔ R' s input))
    {s : σ} (hs : P s) (inputs : List ι) : Along step R s inputs ↔ Along step R' s inputs := by
  induction inputs generalizing s with
  | nil => exact Iff.rfl
  | cons input rest ih => exact and_congr (h s input hs) (ih (hstep s input hs))

theorem Along.and_mem {R : σ → ι → Prop} {P : ι → Prop} {s : σ} {inputs : List ι}
    (hrun : Along step R s inputs) (h : ∀ input ∈ inputs, P input) :
    Along step (fun s input => R s input ∧ P input) s inputs := by
  induction inputs generalizing s with
  | nil => trivial
  | cons input rest ih =>
    exact ⟨⟨hrun.1, h input List.mem_cons_self⟩,
      ih hrun.2 fun other hother => h other (List.mem_cons_of_mem _ hother)⟩

/-- What relates the past to the state is shown along the run. -/
theorem trace_induction {P : List (ι × ο) → σ → Prop} {s : σ} (h : P [] s)
    (hstep : ∀ t s input, P t s → P (t ++ [(input, (step s input).1)]) (step s input).2)
    (inputs : List ι) : P (trace step s inputs) (after step s inputs) := by
  induction inputs using List.reverseRecOn with
  | nil => exact h
  | append_singleton inputs input ih =>
    rw [trace_append, after_append]
    exact hstep _ _ _ ih

/-- A trace that is split at an entry comes from inputs that are split there. -/
theorem split_of_trace_eq {s : σ} {inputs : List ι} {before rest : List (ι × ο)} {entry : ι × ο}
    (h : trace step s inputs = before ++ entry :: rest) :
    ∃ first others : List ι, inputs = first ++ entry.1 :: others ∧ trace step s first = before ∧
      entry.2 = (step (after step s first) entry.1).1 ∧
      trace step (step (after step s first) entry.1).2 others = rest := by
  induction inputs generalizing s before with
  | nil => simp [trace] at h
  | cons input others ih =>
    rw [trace] at h
    cases before with
    | nil =>
      obtain ⟨rfl, hrest⟩ := List.cons.inj h
      exact ⟨[], others, rfl, rfl, rfl, hrest⟩
    | cons head tail =>
      obtain ⟨rfl, htail⟩ := List.cons.inj h
      obtain ⟨first, rest, rfl, hfirst, hentry, hrest⟩ := ih htail
      exact ⟨input :: first, rest, rfl, by rw [trace, hfirst], hentry, hrest⟩

/-- An entry of a trace was answered in the state that the entries before it led to. -/
theorem exists_of_trace_eq {s : σ} {inputs : List ι} {before rest : List (ι × ο)} {entry : ι × ο}
    (h : trace step s inputs = before ++ entry :: rest) :
    ∃ first : List ι, trace step s first = before ∧
      entry.2 = (step (after step s first) entry.1).1 := by
  obtain ⟨first, -, -, hfirst, hentry, -⟩ := split_of_trace_eq h
  exact ⟨first, hfirst, hentry⟩

end CapabilityCompiler.Foundation.Machine
