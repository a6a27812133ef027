import CaseRegistry.Proofs.Sync.Unrolling

/-! Running and stopping a synchronizer.

With a stop asked for, the call that has the loop is on its way out, with no cycle left
but the one that it is at (`Leaves`), and so is the next one to get it, with none
(`Awaits`). Where the request was taken away and none came since, calls go on cycling
(`GoesOn`). Every end of a loop uses up a request of its own (`spent`). `run_and_stop`
has it all together, with what the steps do to the stores and the statistics. -/
namespace CaseRegistry
namespace Callers

variable {σ : Type} (b : Backend σ) (config : SyncConfig) {t : Callers σ} {n m : Nat} {call : LoopCall}

/-! ### With a stop asked for -/

/-- A call is on its way out, or out. It takes no more than a number of steps in all until it is,
and runs no more than a number of cycles in all. -/
def Leaves (t : Callers σ) (n steps cycles : Nat) : Prop :=
  t.At n fun call =>
    call.cycles + call.phase.cyclesLeft ≤ cycles ∧
      (call.phase = .returned ∨
        call.phase.isActive ∧ call.steps + call.phase.stepsLeft ≤ steps ∧
          (call.phase = .release ∨ t.node.control.stopRequested = true))

theorem leaves_of_active {steps cycles : Nat} (there : t.calls[n]? = some call)
    (active : call.phase.isActive) (asked : t.node.control.stopRequested = true)
    (few_steps : call.steps + call.phase.stepsLeft ≤ steps)
    (few_cycles : call.cycles + call.phase.cyclesLeft ≤ cycles) : t.Leaves n steps cycles :=
  ⟨call, there, few_cycles, .inr ⟨active, few_steps, .inr asked⟩⟩

namespace Leaves

variable {steps cycles : Nat}

/-- The call's own next step. -/
theorem proceed_self (h : t.Leaves n steps cycles) (there : t.calls[n]? = some call) :
    (t.proceed b config n call).Leaves n steps cycles := by
  obtain ⟨few_cycles, out⟩ := (at_of_some there).mp h
  refine (at_proceed_self b config there).mpr ?_
  rw [control_proceed]
  obtain ⟨phase, taken, run⟩ := call
  cases phase
  case returned => exact ⟨few_cycles, .inl rfl⟩
  case release => exact ⟨few_cycles, .inl rfl⟩
  case claim | refused => rcases out with out | ⟨out, _⟩ <;> cases out
  case check =>
    obtain out | ⟨-, few_steps, out | asked⟩ := out
    · cases out
    · cases out
    · simp only [Phase.advance, asked, if_true]
      refine ⟨few_cycles, .inr ⟨rfl, ?_, .inr trivial⟩⟩
      simp only [LoopCall.next, Phase.stepsLeft] at few_steps ⊢
      omega
  case cycle | pause | clear =>
    obtain out | ⟨-, few_steps, out | asked⟩ := out
    · cases out
    · cases out
    · refine ⟨?_, .inr ⟨rfl, ?_, ?_⟩⟩
      · simpa [LoopCall.next, Phase.advance, Phase.cyclesLeft] using few_cycles
      · simp only [LoopCall.next, Phase.advance, Phase.stepsLeft] at few_steps ⊢
        omega
      · first | exact .inl rfl | exact .inr asked

/-- The next step of another call. -/
theorem proceed_of_ne (orderly : t.Orderly) (h : t.Leaves n steps cycles) (ne : n ≠ m)
    (there : t.calls[m]? = some call) : (t.proceed b config m call).Leaves n steps cycles := by
  obtain ⟨leaving, found, few_cycles, out⟩ := h
  refine (at_proceed_of_ne b config ne).mpr ⟨leaving, found, few_cycles, out.imp_right ?_⟩
  rintro ⟨active, few_steps, asked⟩
  refine ⟨active, few_steps, asked.imp_right fun asked => ?_⟩
  -- the other one does not have the loop, so it does not take the request away
  have idle : call.phase ≠ .clear := fun clear =>
    ne (orderly.one n m ⟨leaving, found, active⟩ ((at_of_some there).mpr (by rw [clear]; rfl)))
  rw [control_proceed, Phase.stopRequested_advance idle]
  exact asked

theorem step (orderly : t.Orderly) (h : t.Leaves n steps cycles) (e : LoopStep) :
    (t.step b config e).Leaves n steps cycles := by
  cases e with
  | run => exact At.run b config h
  | stop =>
    obtain ⟨call, there, few_cycles, out⟩ := h
    exact ⟨call, there, few_cycles, out.imp_right fun ⟨active, few, _⟩ => ⟨active, few, .inr rfl⟩⟩
  | call m =>
    refine step_call_cases b config h fun call there => ?_
    by_cases same : n = m
    · subst same
      exact h.proceed_self b config there
    · exact h.proceed_of_ne b config orderly same there

theorem after (orderly : t.Orderly) (h : t.Leaves n steps cycles) (more : List LoopStep) :
    (t.after b config more).Leaves n steps cycles := by
  induction more generalizing t with
  | nil => exact h
  | cons e rest ih => exact ih (orderly.step b config e) (h.step b config orderly e)

/-- What becomes of a call on its way out. -/
theorem ending (h : t.Leaves n steps cycles) :
    t.At n fun call => call.cycles ≤ cycles ∧ (steps ≤ call.steps → call.phase = .returned) := by
  refine At.imp h fun call ⟨few_cycles, out⟩ => ⟨Nat.le_of_add_right_le few_cycles, fun enough => ?_⟩
  rcases out with returned | ⟨active, few_steps, _⟩
  · exact returned
  · have := Phase.stepsLeft_pos active
    omega

end Leaves

/-- That a call got the loop stays noted. -/
theorem loops_step (t : Callers σ) (e : LoopStep) : t.loops <+: (t.step b config e).loops := by
  cases e with
  | run => exact List.prefix_rfl
  | stop => exact List.prefix_rfl
  | call n =>
    refine step_call_cases b config List.prefix_rfl fun call there => ?_
    rw [loops_proceed]
    split
    · exact List.prefix_append _ _
    · exact List.prefix_rfl

/-- A stop is asked for, nobody has the loop, and the next call to get it is the `k`-th one to do so;
or that one has got it since, and takes no more than four steps and runs no cycle until it is out. -/
def Awaits (t : Callers σ) (k : Nat) : Prop :=
  (t.loops.length = k ∧ t.node.control.stopRequested = true ∧ ∀ n, ¬t.IsActive n) ∨
    ∃ n, t.loops[k]? = some n ∧ t.Leaves n 4 0

/-- A call takes a step while a stop is asked for and nobody has the loop. -/
theorem awaits_proceed (orderly : t.Orderly) (asked : t.node.control.stopRequested = true)
    (none : ∀ n, ¬t.IsActive n) (there : t.calls[n]? = some call) :
    (t.proceed b config n call).Awaits t.loops.length := by
  have inactive : ¬call.phase.isActive := fun active => none n ((at_of_some there).mpr active)
  have idle : t.node.control.running = false :=
    Bool.eq_false_iff.mpr fun running => (orderly.running.mp running).elim none
  have still : (t.proceed b config n call).node.control.stopRequested = true := by
    rw [control_proceed, Phase.stopRequested_advance fun clear => inactive (by rw [clear]; rfl)]
    exact asked
  rcases call.phase.advance_cases t.node.control with ⟨claim, _, got⟩ | ⟨release, _⟩ | ⟨same, _⟩
  · refine .inr ⟨n, ?_, (at_proceed_self b config there).mpr ?_⟩
    · rw [loops_proceed, if_pos ⟨claim, idle⟩]
      exact List.getElem?_concat_length
    · have counted := orderly.counted n call there
      obtain ⟨phase, steps, cycles⟩ := call
      obtain rfl : phase = .claim := claim
      obtain ⟨rfl, rfl⟩ := counted
      rw [got]
      exact ⟨Nat.le_refl 0, .inr ⟨rfl, Nat.le_refl 4, .inr still⟩⟩
  · exact absurd (by rw [release]; rfl) inactive
  · refine .inl ⟨?_, still, fun m active => ?_⟩
    · rw [loops_proceed, if_neg fun claim => ?_]
      rw [claim.1, Phase.advance, claim.2] at same
      cases same
    · by_cases self : m = n
      · exact inactive (same ▸ (at_proceed_self b config there).mp (self ▸ active))
      · exact none m ((at_proceed_of_ne b config self).mp active)

theorem Awaits.step {k : Nat} (orderly : t.Orderly) (h : t.Awaits k) (e : LoopStep) :
    (t.step b config e).Awaits k := by
  obtain ⟨rfl, asked, none⟩ | ⟨n, got, leaves⟩ := h
  · cases e with
    | run => exact .inl ⟨rfl, asked, fun n active => none n ((at_run b config active).resolve_right nofun)⟩
    | stop => exact .inl ⟨rfl, rfl, none⟩
    | call n =>
      exact step_call_cases b config (.inl ⟨rfl, asked, none⟩) fun call there =>
        awaits_proceed b config orderly asked none there
  · obtain ⟨rest, grown⟩ := loops_step b config t e
    refine .inr ⟨n, ?_, leaves.step b config orderly e⟩
    rw [← grown, List.getElem?_append_left (List.getElem?_eq_some_iff.mp got).1]
    exact got

theorem Awaits.after {k : Nat} (orderly : t.Orderly) (h : t.Awaits k) (more : List LoopStep) :
    (t.after b config more).Awaits k := by
  induction more generalizing t with
  | nil => exact h
  | cons e rest ih => exact ih (orderly.step b config e) (h.step b config orderly e)

/-! ### With no stop asked for -/

/-- No stop is asked for, no loop is about to be given up, and the calls that got the loop after the
first `k` ones to do so go from cycle to cycle. -/
structure GoesOn (k : Nat) (t : Callers σ) : Prop where
  unasked : t.node.control.stopRequested = false
  kept : ∀ n, ¬t.StandsAt n .release
  cycling : ∀ i n, k ≤ i → t.loops[i]? = some n → t.At n (·.phase.isCycling)

namespace GoesOn

variable {k : Nat}

theorem proceed (orderly : t.Orderly) (h : GoesOn k t) (there : t.calls[n]? = some call) :
    GoesOn k (t.proceed b config n call) := by
  have ne : call.phase ≠ .clear := fun clear => by
    have asked := orderly.clear n ((at_of_some there).mpr clear)
    rw [h.unasked] at asked
    cases asked
  have cycles (m : Nat) (cycling : t.At m (·.phase.isCycling)) :
      (t.proceed b config n call).At m (·.phase.isCycling) := by
    by_cases same : m = n
    · subst same
      exact (at_proceed_self b config there).mpr
        (Phase.isCycling_advance ((at_of_some there).mp cycling) h.unasked)
    · exact (at_proceed_of_ne b config same).mpr cycling
  refine ⟨?_, fun m standing => ?_, fun i m le got => ?_⟩
  · rw [control_proceed, Phase.stopRequested_advance ne]
    exact h.unasked
  · by_cases same : m = n
    · exact ne (Phase.clear_of_release ((at_proceed_self b config there).mp (same ▸ standing)))
    · exact h.kept m ((at_proceed_of_ne b config same).mp standing)
  · rw [loops_proceed] at got
    split at got
    · next claim =>
      rcases Nat.lt_or_ge i t.loops.length with old | new
      · rw [List.getElem?_append_left old] at got
        exact cycles m (h.cycling i m le got)
      · rw [List.getElem?_append_right new] at got
        obtain rfl := List.mem_singleton.mp (List.mem_of_getElem? got)
        refine (at_proceed_self b config there).mpr ?_
        rw [claim.1, Phase.advance, if_neg (by rw [claim.2]; exact Bool.false_ne_true)]
        rfl
    · exact cycles m (h.cycling i m le got)

theorem step (orderly : t.Orderly) (h : GoesOn k t) {e : LoopStep} (ne : e ≠ .stop) :
    GoesOn k (t.step b config e) := by
  cases e with
  | run =>
    exact ⟨h.unasked, fun n standing => h.kept n ((at_run b config standing).resolve_right nofun),
      fun i n le got => (h.cycling i n le got).run b config⟩
  | stop => exact absurd rfl ne
  | call n =>
    exact step_call_cases b config h fun call there => h.proceed b config orderly there

theorem after (orderly : t.Orderly) (h : GoesOn k t) {more : List LoopStep} (unasked : .stop ∉ more) :
    GoesOn k (t.after b config more) := by
  induction more generalizing t with
  | nil => exact h
  | cons e rest ih =>
    rw [List.mem_cons, not_or] at unasked
    exact ih (orderly.step b config e) (h.step b config orderly (Ne.symm unasked.1)) unasked.2

end GoesOn

/-- Only a request to stop makes for one. -/
theorem unasked_step {e : LoopStep} (h : t.node.control.stopRequested = false) (ne : e ≠ .stop) :
    (t.step b config e).node.control.stopRequested = false := by
  cases e with
  | run => exact h
  | stop => exact absurd rfl ne
  | call n =>
    refine step_call_cases b config h fun call there => ?_
    rw [control_proceed]
    by_cases clear : call.phase = .clear
    · rw [clear]
      rfl
    · rw [Phase.stopRequested_advance clear]
      exact h

theorem unasked_after {more : List LoopStep} (h : t.node.control.stopRequested = false)
    (unasked : .stop ∉ more) : (t.after b config more).node.control.stopRequested = false := by
  induction more generalizing t with
  | nil => exact h
  | cons e rest ih =>
    rw [List.mem_cons, not_or] at unasked
    exact ih (unasked_step b config h (Ne.symm unasked.1)) unasked.2

/-- A call that gives the loop up with no stop asked for leaves the flags as they were at first. -/
theorem released (orderly : t.Orderly) (unasked : t.node.control.stopRequested = false)
    (standing : t.StandsAt n .release) :
    (t.step b config (.call n)).node.control = .idle ∧
      GoesOn (t.step b config (.call n)).loops.length (t.step b config (.call n)) := by
  obtain ⟨call, there, release⟩ := standing
  have idle : (t.step b config (.call n)).node.control = .idle := by
    rw [step_call b config there, control_proceed, release]
    exact congrArg (Control.mk false) unasked
  refine ⟨idle, congrArg Control.stopRequested idle, fun m standing => ?_, fun i m le got => ?_⟩
  · have running := (orderly.step b config (.call n)).running.mpr
      ⟨m, standing.imp fun _ at_release => by rw [at_release]; rfl⟩
    rw [idle] at running
    cases running
  · rw [List.getElem?_eq_none le] at got
    cases got

/-! ### Requests to stop and ends of loops -/

/-- How many loops have ended, a request to stop that is there counted as well. -/
def spent (t : Callers σ) : Nat :=
  t.calls.countP (·.phase.hasEnded) + t.node.control.stopRequested.toNat

/-- A loop that ends takes a request with it. -/
theorem spent_proceed (orderly : t.Orderly) (there : t.calls[n]? = some call) :
    (t.proceed b config n call).spent = t.spent := by
  obtain ⟨lt, same⟩ := List.getElem?_eq_some_iff.mp there
  have counted : call.phase.hasEnded → 0 < t.calls.countP (·.phase.hasEnded) := fun ended =>
    List.countP_pos_iff.mpr ⟨call, List.mem_of_getElem? there, ended⟩
  unfold spent
  rw [control_proceed, calls_proceed, List.countP_set lt, same]
  by_cases clear : call.phase = .clear
  · have asked := orderly.clear n ((at_of_some there).mpr clear)
    simp [clear, Phase.advance, Phase.hasEnded, LoopCall.next, asked]
  · rw [Phase.stopRequested_advance clear]
    have next : (call.next (call.phase.advance t.node.control).2).phase.hasEnded = call.phase.hasEnded :=
      Phase.hasEnded_advance clear
    rw [next]
    split
    · next ended => rw [Nat.sub_add_cancel (counted ended)]
    · rfl

theorem spent_step (orderly : t.Orderly) (e : LoopStep) :
    (t.step b config e).spent ≤ t.spent + [e].count .stop := by
  cases e with
  | run =>
    show (t.calls ++ [LoopCall.made]).countP _ + _ ≤ _
    rw [List.countP_append]
    exact Nat.le_refl _
  | stop => exact Nat.add_le_add_left (Nat.le_trans (Bool.toNat_le _) (Nat.le_add_left _ _)) _
  | call n =>
    refine step_call_cases b config (Nat.le_refl _) fun call there => ?_
    rw [spent_proceed b config orderly there]
    exact Nat.le_refl _

theorem spent_after (orderly : t.Orderly) (steps : List LoopStep) :
    (t.after b config steps).spent ≤ t.spent + steps.count .stop := by
  induction steps generalizing t with
  | nil => exact Nat.le_refl _
  | cons e rest ih =>
    have first := spent_step b config orderly e
    have later := ih (orderly.step b config e)
    rw [← List.singleton_append, List.count_append]
    show ((t.step b config e).after b config rest).spent ≤ _
    omega

/-! ### The protocol -/

/-- A call that was refused stays so. -/
theorem refused_after (h : t.StandsAt n .refused) (more : List LoopStep) :
    (t.after b config more).StandsAt n .refused := by
  induction more generalizing t with
  | nil => exact h
  | cons e rest ih =>
    refine ih ?_
    cases e with
    | run => exact h.run b config
    | stop => exact h
    | call m =>
      refine step_call_cases b config h fun call there => ?_
      by_cases same : n = m
      · subst same
        refine (at_proceed_self b config there).mpr ?_
        rw [(at_of_some there).mp h]
        rfl
      · exact (at_proceed_of_ne b config same).mpr h

/-- What holds of a synchronizer over stores after any steps of its callers. -/
structure Protocol (b : Backend σ) (config : SyncConfig) (store : σ) (steps : List LoopStep)
    (t : Callers σ) : Prop where
  one : ∀ n m, t.IsActive n → t.IsActive m → n = m
  running : t.node.control.running = true ↔ ∃ n, t.IsActive n
  /-- A call gets the loop if nobody has it. -/
  granted : ∀ n, t.StandsAt n .claim → (∀ m, ¬t.IsActive m) →
    (t.step b config (.call n)).StandsAt n .check
  /-- If somebody has it, the call fails. It leaves the synchronizer as it is, and never runs a cycle. -/
  refused : ∀ n m, t.StandsAt n .claim → t.IsActive m →
    (∀ schedule, (Synchronizer.run b config schedule).run t.node = (.error Control.alreadyRunning, t.node)) ∧
      (t.step b config (.call n)).node = t.node ∧
      ∀ more, ((t.step b config (.call n)).after b config more).At n fun call =>
        call.phase = .refused ∧ call.cycles = 0
  /-- With a stop asked for, the call that has the loop is over after five more steps, and whatever
  comes between it runs no cycle but the one that it is at. -/
  stopping : t.node.control.stopRequested = true → ∀ (n : Nat) (call : LoopCall),
    t.calls[n]? = some call → call.phase.isActive → ∀ more, (t.after b config more).At n fun later =>
      later.cycles ≤ call.cycles + (if call.phase = .cycle then 1 else 0) ∧
        (call.steps + 5 ≤ later.steps → later.phase = .returned)
  /-- If nobody has it, the next call to get it is over after four steps and runs no cycle. -/
  stopped : t.node.control.stopRequested = true → (∀ n, ¬t.IsActive n) → ∀ more n,
    (t.after b config more).loops[t.loops.length]? = some n → (t.after b config more).At n fun call =>
      call.cycles = 0 ∧ (4 ≤ call.steps → call.phase = .returned)
  loops : ∀ n, n ∈ t.loops ↔ t.At n (·.phase.gotLoop)
  /-- A loop goes to its end only on a request to stop, each on one of its own. -/
  ending : ∀ n, t.StandsAt n .clear → t.node.control.stopRequested = true
  ended : t.calls.countP (·.phase.hasEnded) + t.node.control.stopRequested.toNat ≤ steps.count .stop
  /-- If no stop is asked for between the taking away of a request and the end of the call, the flags
  are as at the start; and as long as none is asked for after that, the calls that get the loop go
  from cycle to cycle. -/
  restarted : ∀ n between, t.StandsAt n .clear → .stop ∉ between →
    (t.after b config (.call n :: between)).StandsAt n .release →
    let u := t.after b config (.call n :: between ++ [.call n])
    u.node.control = .idle ∧ ∀ more, .stop ∉ more → ∀ i m, u.loops.length ≤ i →
      (u.after b config more).loops[i]? = some m → (u.after b config more).At m fun call =>
        call.phase.isCycling ∧ call.cycles = call.steps / 3
  /-- A call that is at its cycle runs it in its next step. Nothing else that happens touches the
  stores or the statistics. -/
  cycle : ∀ n, t.StandsAt n .cycle →
    (t.step b config (.call n)).node = ((Synchronizer.cycle b config).run t.node).2
  elsewhere : ∀ e, (∀ n, e = .call n → ¬t.StandsAt n .cycle) →
    ∃ control, (t.step b config e).node = { t.node with control }
  /-- The stores and the statistics are what the cycles of the calls have made of them. -/
  cycles : t.AddsUp b config store
  /-- One more `run` as a whole, with others calling meanwhile, is such steps. -/
  unrolled : ∀ schedule, (t.step b config .run).Leads b config t.calls.length
    (Synchronizer.phaseAfter ((Synchronizer.run b config schedule).run t.node).1)
    ((Synchronizer.run b config schedule).run t.node).2

theorem Orderly.granted (h : t.Orderly) (standing : t.StandsAt n .claim) (none : ∀ m, ¬t.IsActive m) :
    (t.step b config (.call n)).StandsAt n .check := by
  obtain ⟨call, there, claim⟩ := standing
  have idle : ¬t.node.control.running = true := fun running => (h.running.mp running).elim none
  rw [step_call b config there]
  refine (at_proceed_self b config there).mpr ?_
  rw [claim, Phase.advance, if_neg idle]
  rfl

theorem Orderly.refused (h : t.Orderly) (standing : t.StandsAt n .claim) (active : t.IsActive m) :
    (t.step b config (.call n)).node = t.node ∧ (t.step b config (.call n)).StandsAt n .refused := by
  obtain ⟨call, there, claim⟩ := standing
  have running := h.running.mpr ⟨m, active⟩
  rw [step_call b config there]
  constructor
  · show (Synchronizer.advance b config call.phase t.node).2 = t.node
    rw [claim, Synchronizer.advance_claim b config running]
  · refine (at_proceed_self b config there).mpr ?_
    rw [claim, Phase.advance, if_pos running]
    rfl

theorem Orderly.restarted (h : t.Orderly) {between : List LoopStep} (standing : t.StandsAt n .clear)
    (unasked : .stop ∉ between)
    (still : (t.after b config (.call n :: between)).StandsAt n .release) :
    let u := t.after b config (.call n :: between ++ [.call n])
    u.node.control = .idle ∧ GoesOn u.loops.length u := by
  obtain ⟨call, there, clear⟩ := standing
  have taken : (t.step b config (.call n)).node.control.stopRequested = false := by
    rw [step_call b config there, control_proceed, clear]
    rfl
  have last : t.after b config (.call n :: between ++ [.call n]) =
      (t.after b config (.call n :: between)).step b config (.call n) :=
    after_append b config t (.call n :: between) [.call n]
  have untouched : (t.after b config (.call n :: between)).node.control.stopRequested = false :=
    unasked_after b config (t := t.step b config (.call n)) taken unasked
  rw [last]
  exact released b config (h.after b config _) untouched still

/-- However calls of `run`, their steps and requests to stop come after each other, and whatever comes
of the cycles: one loop is active at most, and others are refused; a request to stop ends the loop, or
the next one before its first cycle, and nothing else does; and once one was taken away, with none after
it, the next loop goes from cycle to cycle. The cycles are those that the statistics count and that are
done to the stores. -/
theorem run_and_stop (b : Backend σ) (config : SyncConfig) (store : σ) (steps : List LoopStep) :
    ((start store).after b config steps).Protocol b config store steps := by
  have orderly : ((start store).after b config steps).Orderly := (orderly_start store).after b config steps
  have spent : ((start store).after b config steps).spent ≤ 0 + steps.count .stop :=
    spent_after b config (orderly_start store) steps
  have addsUp : ((start store).after b config steps).AddsUp b config store :=
    (addsUp_start b config store).after b config steps
  generalize (start store).after b config steps = t at orderly spent addsUp
  exact {
    one := orderly.one
    running := orderly.running
    granted := fun n standing none => orderly.granted b config standing none
    refused := fun n m standing active => by
      have running := orderly.running.mpr ⟨m, active⟩
      obtain ⟨kept, refused⟩ := orderly.refused b config standing active
      refine ⟨fun schedule => Synchronizer.run_refused b config running schedule, kept, fun more => ?_⟩
      obtain ⟨call, there, phase⟩ := refused_after b config refused more
      have counted := ((orderly.step b config (.call n)).after b config more).counted n call there
      rw [LoopCall.Counted, phase] at counted
      exact ⟨call, there, phase, counted⟩
    stopping := fun asked n call there active more => by
      have few := Phase.stepsLeft_le call.phase
      have leaves := leaves_of_active there active asked (Nat.add_le_add_left few _) (Nat.le_refl _)
      refine (leaves.after b config orderly more).ending.imp fun later out => ⟨?_, out.2⟩
      convert out.1 using 2
      cases call.phase <;> rfl
    stopped := fun asked none more n got => by
      have awaits : t.Awaits t.loops.length := .inl ⟨rfl, asked, none⟩
      rcases awaits.after b config orderly more with ⟨count, _⟩ | ⟨m, got', leaves⟩
      · rw [List.getElem?_eq_none count.le] at got
        cases got
      · obtain rfl := Option.some.inj (got.symm.trans got')
        exact leaves.ending.imp fun call out => ⟨Nat.le_zero.mp out.1, out.2⟩
    loops := orderly.loops
    ending := orderly.clear
    ended := Nat.zero_add (steps.count .stop) ▸ spent
    restarted := fun n between standing unasked still => by
      obtain ⟨idle, goes⟩ := orderly.restarted b config standing unasked still
      refine ⟨idle, fun more none i m le got => ?_⟩
      have orderly' := orderly.after b config (.call n :: between ++ [.call n])
      obtain ⟨call, there, cycling⟩ := (goes.after b config orderly' none).cycling i m le got
      exact ⟨call, there, cycling, ((orderly'.after b config more).counted m call there).cycles_eq cycling⟩
    cycle := fun _ standing => node_cycle b config standing
    elsewhere := fun _ elsewhere => node_elsewhere b config elsewhere
    cycles := addsUp
    unrolled := leads_run b config t }

/-- A stop that comes first ends the loop before its first cycle. -/
example : ((start Memory.empty).after Memory.backend Sample.config
    [.stop, .run, .call 0, .call 0, .call 0, .call 0]).calls = [⟨.returned, 4, 0⟩] := by decide +kernel

end Callers
end CaseRegistry
