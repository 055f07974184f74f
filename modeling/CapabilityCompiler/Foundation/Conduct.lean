import CapabilityCompiler.Foundation.Process

/-! Sequential processes whose requests and ends are justified by what has happened before. -/
namespace CapabilityCompiler.Foundation.Process

variable {Q R E V : Type} {may : List (Event Q R) → Q → Prop}
  {ends : List (Event Q R) → Except E V → Prop}

/-- After this history, every request the process sends may be sent and its end is a fitting one. -/
inductive Keeps (may : List (Event Q R) → Q → Prop)
    (ends : List (Event Q R) → Except E V → Prop) : List (Event Q R) → Process Q R E V → Prop
  | done {h v} (hend : ends h (.ok v)) : Keeps may ends h (done v)
  | failed {h e} (hend : ends h (.error e)) : Keeps may ends h (failed e)
  | request {h q resume} (hmay : may h q)
      (hresume : ∀ r, Keeps may ends (h ++ [.sent q, .replied q r]) (resume r)) :
      Keeps may ends h (request q resume)
  | waiting {h q resume} (hsent : .sent q ∈ h) (hresume : ∀ r, Keeps may ends (h ++ [.replied q r]) (resume r)) :
      Keeps may ends h (waiting q resume)

theorem Keeps.step {h : List (Event Q R)} {p p' : Process Q R E V} {t : List (Event Q R)}
    (hp : Keeps may ends h p) (hstep : Step p t p') :
    Keeps may ends (h ++ t) p' ∧ ∀ q, t = [.sent q] → may h q := by
  cases hp with
  | done _ => cases hstep
  | failed _ => cases hstep
  | @request _ q resume hmay hresume =>
    cases hstep
    refine ⟨.waiting (List.mem_append_right _ (List.mem_singleton_self _)) fun r => ?_,
      fun a ha => ?_⟩
    · rw [List.append_assoc]
      exact hresume r
    · obtain rfl : q = a := by simpa using ha
      exact hmay
  | waiting _ hresume =>
    cases hstep with
    | reply _ _ r => exact ⟨hresume r, by simp⟩

theorem Keeps.run {h : List (Event Q R)} {p p' : Process Q R E V} {t : List (Event Q R)}
    (hp : Keeps may ends h p) (hrun : Run p t p') : Keeps may ends (h ++ t) p' := by
  induction hrun generalizing h with
  | refl => rwa [List.append_nil]
  | step hstep _ ih =>
    rw [← List.append_assoc]
    exact ih (hp.step hstep).1

theorem Keeps.of_done {h : List (Event Q R)} {v : V}
    (hp : Keeps may ends h (Process.done v)) : ends h (.ok v) := by
  cases hp with
  | done hend => exact hend

theorem Keeps.of_failed {h : List (Event Q R)} {e : E}
    (hp : Keeps may ends h (Process.failed e)) : ends h (.error e) := by
  cases hp with
  | failed hend => exact hend

theorem Keeps.of_ended {h : List (Event Q R)} {p : Process Q R E V} (hp : Keeps may ends h p)
    (hended : p.ended = true) : ∃ outcome, ends h outcome := by
  cases hp with
  | done hend => exact ⟨_, hend⟩
  | failed hend => exact ⟨_, hend⟩
  | request _ _ => exact absurd hended (by simp [ended])
  | waiting _ _ => exact absurd hended (by simp [ended])

theorem Keeps.sent_of_waiting {h : List (Event Q R)} {q : Q} {resume : R → Process Q R E V}
    (hp : Keeps may ends h (Process.waiting q resume)) : .sent q ∈ h := by
  cases hp with
  | waiting hsent _ => exact hsent

theorem Keeps.may_of_request {h : List (Event Q R)} {q : Q} {resume : R → Process Q R E V}
    (hp : Keeps may ends h (Process.request q resume)) : may h q := by
  cases hp with
  | request hmay _ => exact hmay

theorem Keeps.imp {may' : List (Event Q R) → Q → Prop}
    {ends' : List (Event Q R) → Except E V → Prop} (hmay : ∀ h q, may h q → may' h q)
    (hends : ∀ h x, ends h x → ends' h x) {h : List (Event Q R)} {p : Process Q R E V}
    (hp : Keeps may ends h p) : Keeps may' ends' h p := by
  induction hp with
  | done hend => exact .done (hends _ _ hend)
  | failed hend => exact .failed (hends _ _ hend)
  | request hq _ ih => exact .request (hmay _ _ hq) ih
  | waiting hsent _ ih => exact .waiting hsent ih

end CapabilityCompiler.Foundation.Process
