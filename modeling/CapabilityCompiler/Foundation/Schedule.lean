import CapabilityCompiler.Foundation.Process

/-! Replies that depend on their requests only: the result of a process does not depend on the
schedule of its tasks. -/
namespace CapabilityCompiler.Foundation.Process

variable {Q R E V : Type} {answer : Q → R}

/-- Every reply is the one that `answer` gives to its request. -/
def Answered (answer : Q → R) (t : List (Event Q R)) : Prop :=
  ∀ q r, .replied q r ∈ t → r = answer q

theorem Answered.nil : Answered answer ([] : List (Event Q R)) :=
  fun _ _ h => absurd h List.not_mem_nil

theorem Answered.append {t u : List (Event Q R)} (ht : Answered answer t)
    (hu : Answered answer u) : Answered answer (t ++ u) := by
  intro q r h
  rcases List.mem_append.mp h with hleft | hright
  · exact ht q r hleft
  · exact hu q r hright

theorem Answered.left {t u : List (Event Q R)} (h : Answered answer (t ++ u)) :
    Answered answer t :=
  fun q r hmem => h q r (List.mem_append_left _ hmem)

theorem Answered.right {t u : List (Event Q R)} (h : Answered answer (t ++ u)) :
    Answered answer u :=
  fun q r hmem => h q r (List.mem_append_right _ hmem)

/-- The replay of a gathering has a result if all its children have one. -/
theorem replay_gather_ok {n : ℕ} {children : Fin n → Process Q R E V}
    {resume : List V → Process Q R E V} {v : V} :
    (replay answer (gather n children resume)).2 = .ok v ↔
      ∃ vs : Fin n → V, (∀ i, (replay answer (children i)).2 = .ok (vs i)) ∧
        (replay answer (resume (List.ofFn vs))).2 = .ok v := by
  have houtcomes : (List.ofFn fun i => replay answer (children i)).map Prod.snd =
      List.ofFn fun i => (replay answer (children i)).2 := by
    rw [List.map_ofFn]
    rfl
  rw [replay]
  simp only [houtcomes]
  rcases @collect_ofFn E V n fun i => (replay answer (children i)).2 with
    ⟨vs, hvs, hcollect⟩ | ⟨i, e, he, hcollect⟩
  · rw [hcollect]
    constructor
    · intro h
      exact ⟨vs, hvs, h⟩
    · rintro ⟨vs', hvs', h⟩
      have hsame : vs' = vs := funext fun i => Except.ok.inj ((hvs' i).symm.trans (hvs i))
      rw [← hsame]
      exact h
  · rw [hcollect]
    constructor
    · intro h
      exact absurd h (by simp)
    · rintro ⟨vs, hvs, -⟩
      exact absurd ((hvs i).symm.trans he) (by simp)

theorem replay_failure {p : Process Q R E V} {e : E} (h : p.failure? = some e) :
    (replay answer p).2 = .error e := by
  cases p with
  | failed e' =>
    obtain rfl : e' = e := by simpa [failure?] using h
    rfl
  | lost n children e' =>
    obtain rfl : e' = e := by simpa [failure?] using h
    rfl
  | _ => exact absurd h (by simp [failure?])

/-- A step keeps the result that the task-after-task schedule comes to. -/
theorem replay_step {p p' : Process Q R E V} {t : List (Event Q R)} (hstep : Step p t p')
    (h : Answered answer t) (v : V) :
    (replay answer p).2 = .ok v ↔ (replay answer p').2 = .ok v := by
  induction hstep generalizing v with
  | send q resume => rfl
  | reply q resume r =>
    obtain rfl : r = answer q := h q r (List.mem_singleton_self _)
    rfl
  | @child n children resume i t p' hchild ih =>
    rw [replay_gather_ok, replay_gather_ok]
    have hchildren : ∀ vs : Fin n → V,
        (∀ j, (replay answer (children j)).2 = .ok (vs j)) ↔
          ∀ j, (replay answer (Function.update children i p' j)).2 = .ok (vs j) := by
      intro vs
      refine forall_congr' fun j => ?_
      by_cases hj : j = i
      · subst hj
        rw [Function.update_self]
        exact ih h (vs j)
      · rw [Function.update_of_ne hj]
    exact exists_congr fun vs => and_congr_left fun _ => hchildren vs
  | @join n children resume vs hdone =>
    rw [replay_gather_ok]
    constructor
    · rintro ⟨vs', hvs', hresumed⟩
      have hsame : vs' = vs := by
        funext i
        have hi := hvs' i
        rw [hdone i] at hi
        exact (Except.ok.inj hi).symm
      rwa [hsame] at hresumed
    · intro hresumed
      exact ⟨vs, fun i => by rw [hdone i]; rfl, hresumed⟩
  | @abandon n children resume i e he =>
    rw [replay_gather_ok]
    constructor
    · rintro ⟨vs, hvs, -⟩
      exact absurd ((hvs i).symm.trans (replay_failure he)) (by simp)
    · intro hlost
      exact absurd hlost (by simp [replay])
  | orphan _ _ => rfl

theorem replay_of_run {p p' : Process Q R E V} {t : List (Event Q R)} (hrun : Run p t p')
    (h : Answered answer t) (v : V) :
    (replay answer p).2 = .ok v ↔ (replay answer p').2 = .ok v := by
  induction hrun with
  | refl => rfl
  | step hstep _ ih => exact (replay_step hstep h.left v).trans (ih h.right)

/-- A run that ends has the result of the task-after-task schedule. -/
theorem replay_of_done {p : Process Q R E V} {t : List (Event Q R)} {v : V}
    (hrun : Run p t (done v)) (h : Answered answer t) : (replay answer p).2 = .ok v :=
  (replay_of_run hrun h v).mpr rfl

/-- If the task-after-task schedule has a result, every run can go on to it. -/
theorem done_of_replay {p p' : Process Q R E V} {t : List (Event Q R)} {v : V}
    (hreplay : (replay answer p).2 = .ok v) (hrun : Run p t p') (h : Answered answer t) :
    ∃ rest, Run p' rest (done v) := by
  have hrest := (replay_of_run hrun h v).mp hreplay
  obtain ⟨q, hq, hsettled⟩ := replay_run answer p'
  rw [hrest] at hsettled
  obtain rfl : q = done v := hsettled
  exact ⟨_, hq⟩

/-- A run that cannot go on has come to the result of the task-after-task schedule. -/
theorem eq_done_of_replay {p p' : Process Q R E V} {t : List (Event Q R)} {v : V}
    (hreplay : (replay answer p).2 = .ok v) (hrun : Run p t p') (h : Answered answer t)
    (hstuck : ∀ u p'', ¬ Step p' u p'') : p' = done v := by
  obtain ⟨rest, hrest⟩ := done_of_replay hreplay hrun h
  cases hrest with
  | refl => rfl
  | step hstep _ => exact absurd hstep (hstuck _ _)

/-! Gatherings from the outside. -/

/-- A process that gathers children and goes on with their results: every child has run alone, and
what follows has only the results, in their order. -/
inductive Gathered (children : List (Process Q R E V)) (next : List V → Process Q R E V) :
    List (Event Q R) → Process Q R E V → Prop
  | during {t children'} (h : Advanced children.get t children') :
      Gathered children next t (gather children.length children' next)
  | after {vs : Fin children.length → V} {t u p}
      (h : Advanced children.get t fun i => done (vs i)) (hnext : Run (next (List.ofFn vs)) u p) :
      Gathered children next (t ++ u) p
  | abandoned {t children' e} (h : Advanced children.get t children') :
      Gathered children next t (lost children.length children' e)

theorem Run.gathered {children : List (Process Q R E V)} {next : List V → Process Q R E V}
    {t : List (Event Q R)} {p : Process Q R E V}
    (h : Run (gather children.length children.get next) t p) : Gathered children next t p := by
  rcases h.of_gather with ⟨children', rfl, hadvanced⟩ | ⟨vs, t₁, t₂, rfl, hadvanced, hnext⟩ |
    ⟨children', e, rfl, hadvanced⟩
  · exact .during hadvanced
  · exact .after hadvanced hnext
  · exact .abandoned hadvanced

end CapabilityCompiler.Foundation.Process
