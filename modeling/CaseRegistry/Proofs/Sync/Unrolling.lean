import CaseRegistry.Proofs.Sync.Callers

/-! A call of `run` as its steps.

`run` takes its steps without a break, with a schedule of calls that others make while its cycles
run. The same steps, taken one by one by a call made with `LoopStep.run`, lead to the same
synchronizer, and leave the call at the phase that the answer of `run` tells of
(`leads_run`). So what holds of callers after any steps holds of `run`. -/
namespace CaseRegistry

namespace Synchronizer

/-- Where a call of `run` stands with an answer. It was refused, or its loop has ended, or the schedule
came to its end before the loop did, which is then at a cycle. -/
def phaseAfter : Except Error (List Error × Bool) → Phase
  | .error _ => .refused
  | .ok answer => if answer.2 then .returned else .cycle

variable {σ : Type} (b : Backend σ) (config : SyncConfig) {s : Synchronizer σ}

/-! ### The loop -/

theorem advance_check_of_asked (asked : s.control.stopRequested = true) :
    advance b config .check s = (.clear, s) := by
  simp [advance, Phase.advance, asked]

theorem advance_check_of_unasked (unasked : s.control.stopRequested = false) :
    advance b config .check s = (.cycle, s) := by
  simp [advance, Phase.advance, unasked]

/-- A request to stop ends the loop, whatever is left of the schedule. -/
theorem loop_of_asked (asked : s.control.stopRequested = true) (schedule : List (List OuterCall)) :
    loop b config s schedule = (([], true), leave b config s) := by
  cases schedule <;> rw [loop, advance_check_of_asked b config asked]

theorem loop_nil (unasked : s.control.stopRequested = false) :
    loop b config s [] = (([], false), s) := by
  rw [loop, advance_check_of_unasked b config unasked]

theorem loop_cons (unasked : s.control.stopRequested = false) (calls : List OuterCall)
    (rest : List (List OuterCall)) :
    loop b config s (calls :: rest) =
      let s₁ := (advance b config .cycle (s.answerAll calls).2).2
      let r := loop b config (advance b config .pause s₁).2 rest
      (((s.answerAll calls).1 ++ r.1.1, r.1.2), r.2) := by
  rw [loop, advance_check_of_unasked b config unasked]

end Synchronizer

/-! ### Steps -/

namespace Callers

variable {σ : Type} (b : Backend σ) (config : SyncConfig)

/-- Some steps lead to a synchronizer, with a call standing at a phase of `run`. -/
def Leads (t : Callers σ) (n : Nat) (p : Phase) (s : Synchronizer σ) : Prop :=
  ∃ steps, (t.after b config steps).node = s ∧ (t.after b config steps).StandsAt n p

namespace Leads

variable {b config} {t : Callers σ} {n : Nat} {p : Phase} {s : Synchronizer σ}

/-- More steps lead on. -/
theorem more (h : t.Leads b config n p s) {p' : Phase} {s' : Synchronizer σ}
    (on : ∀ u : Callers σ, u.node = s → u.StandsAt n p → u.Leads b config n p' s') :
    t.Leads b config n p' s' := by
  obtain ⟨steps, node, standing⟩ := h
  obtain ⟨later, node', standing'⟩ := on _ node standing
  refine ⟨steps ++ later, ?_⟩
  rw [after_append]
  exact ⟨node', standing'⟩

/-- The call's own next step. -/
theorem advance (h : t.Leads b config n p s) :
    t.Leads b config n (Synchronizer.advance b config p s).1 (Synchronizer.advance b config p s).2 := by
  refine h.more fun u node standing => ⟨[.call n], ?_⟩
  obtain ⟨call, there, rfl⟩ := standing
  subst node
  show (u.step b config (.call n)).node = _ ∧ (u.step b config (.call n)).StandsAt n _
  rw [step_call b config there, Synchronizer.advance_fst]
  exact ⟨rfl, (at_proceed_self b config there).mpr rfl⟩

/-- A call of another is a stop, or one more call of `run` with its first step. -/
theorem answer (h : t.Leads b config n p s) (outer : OuterCall) :
    t.Leads b config n p (s.answer outer).2 := by
  refine h.more fun u node standing => ?_
  subst node
  cases outer with
  | stop => exact ⟨[.stop], rfl, standing⟩
  | run =>
    have lt : n < u.calls.length := by
      obtain ⟨call, there, _⟩ := standing
      exact (List.getElem?_eq_some_iff.mp there).1
    have made : (u.step b config .run).calls[u.calls.length]? = some .made := List.getElem?_concat_length
    refine ⟨[.run, .call u.calls.length], ?_⟩
    show ((u.step b config .run).step b config (.call u.calls.length)).node = _ ∧
      ((u.step b config .run).step b config (.call u.calls.length)).StandsAt n p
    rw [step_call b config made]
    refine ⟨?_, (at_proceed_of_ne b config (Nat.ne_of_lt lt)).mpr (standing.run b config)⟩
    show (Synchronizer.advance b config .claim u.node).2 = _
    cases running : u.node.control.running <;>
      simp [Synchronizer.advance, Synchronizer.answer, Phase.advance, running]

theorem answerAll (h : t.Leads b config n p s) (outer : List OuterCall) :
    t.Leads b config n p (s.answerAll outer).2 := by
  induction outer generalizing s with
  | nil => exact h
  | cons call rest ih => exact ih (h.answer call)

/-- A call that sees a request to stop leaves. -/
theorem leave (h : t.Leads b config n .check s) (asked : s.control.stopRequested = true) :
    t.Leads b config n .returned (Synchronizer.leave b config s) := by
  have clear := h.advance
  rw [Synchronizer.advance_check_of_asked b config asked] at clear
  have release : t.Leads b config n .release (Synchronizer.advance b config .clear s).2 := clear.advance
  exact release.advance

theorem cycle (h : t.Leads b config n .check s) (unasked : s.control.stopRequested = false) :
    t.Leads b config n .cycle s := by
  have cycle := h.advance
  rw [Synchronizer.advance_check_of_unasked b config unasked] at cycle
  exact cycle

/-- The loop from its check on. -/
theorem loop (h : t.Leads b config n .check s) (schedule : List (List OuterCall)) :
    t.Leads b config n (Synchronizer.phaseAfter (.ok (Synchronizer.loop b config s schedule).1))
      (Synchronizer.loop b config s schedule).2 := by
  -- each entry of the schedule takes the call from one check to the next, unless a stop is asked for
  induction schedule generalizing s with
  | nil =>
    cases stop : s.control.stopRequested with
    | true =>
      rw [Synchronizer.loop_of_asked b config stop]
      exact h.leave stop
    | false =>
      rw [Synchronizer.loop_nil b config stop]
      exact h.cycle stop
  | cons calls rest ih =>
    cases stop : s.control.stopRequested with
    | true =>
      rw [Synchronizer.loop_of_asked b config stop]
      exact h.leave stop
    | false =>
      rw [Synchronizer.loop_cons b config stop]
      have answered := (h.cycle stop).answerAll calls
      exact ih answered.advance.advance

end Leads

/-- What `run` does is done by steps of one more call of it. -/
theorem leads_run (t : Callers σ) (schedule : List (List OuterCall)) :
    (t.step b config .run).Leads b config t.calls.length
      (Synchronizer.phaseAfter ((Synchronizer.run b config schedule).run t.node).1)
      ((Synchronizer.run b config schedule).run t.node).2 := by
  have made : (t.step b config .run).Leads b config t.calls.length .claim t.node :=
    ⟨[], rfl, .made, List.getElem?_concat_length, rfl⟩
  have claimed := made.advance
  cases running : t.node.control.running with
  | true =>
    rw [Synchronizer.advance_claim b config running] at claimed
    rw [Synchronizer.run_refused b config running]
    exact claimed
  | false =>
    have got : Synchronizer.advance b config .claim t.node =
        (.check, { t.node with control := { t.node.control with running := true } }) := by
      simp [Synchronizer.advance, Phase.advance, running]
    rw [got] at claimed
    simp only [Action.run, Synchronizer.run, got]
    exact claimed.loop schedule

end Callers
end CaseRegistry
