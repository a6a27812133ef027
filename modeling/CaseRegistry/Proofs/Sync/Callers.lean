import CaseRegistry.Proofs.Sync.Nodes
import Mathlib.Data.List.Perm.Basic

/-! Calls of `run` on one synchronizer.

Any number of calls of `run` are made, at any time, and each takes its steps when it
comes to it: it claims the loop, looks for a request to stop, runs a cycle, pauses, and
in the end takes the request away and gives the loop up. Requests to stop come in
between. `Callers` is a synchronizer with all calls made on it so far, over any backend,
so that a cycle may end as it likes. At most one call has the loop, and only a call that
has seen a request to stop is about to take it away: `Orderly.after`. A call is credited
with the cycles that the synchronizer counts in its steps. Together these are all that is
done to the stores: `AddsUp.after`. -/
namespace CaseRegistry

namespace Phase

/-- The call has the loop. -/
def isActive : Phase → Bool
  | check | cycle | pause | clear | release => true
  | claim | refused | returned => false

/-- The call goes from cycle to cycle. -/
def isCycling : Phase → Bool
  | check | cycle | pause => true
  | claim | clear | release | refused | returned => false

/-- The call had the loop, and has taken a request to stop away. -/
def hasEnded : Phase → Bool
  | release | returned => true
  | claim | check | cycle | pause | clear | refused => false

/-- The call got the loop, now or before. -/
def gotLoop : Phase → Bool
  | check | cycle | pause | clear | release | returned => true
  | claim | refused => false

/-- How many cycles a call still runs once a stop is asked for. -/
def cyclesLeft : Phase → Nat
  | cycle => 1
  | claim | check | pause | clear | release | refused | returned => 0

/-- How many steps a call that has the loop still takes once a stop is asked for. -/
def stepsLeft : Phase → Nat
  | cycle => 5
  | pause => 4
  | check => 3
  | clear => 2
  | release => 1
  | claim | refused | returned => 0

variable {p : Phase} {c : Control}

theorem stepsLeft_le (p : Phase) : p.stepsLeft ≤ 5 := by cases p <;> decide

theorem stepsLeft_pos (h : p.isActive) : 0 < p.stepsLeft := by
  cases p <;> first | decide | cases h

/-- A step gets the loop, gives it up, or leaves it as it is. -/
theorem advance_cases (p : Phase) (c : Control) :
    (p = claim ∧ c.running = false ∧ p.advance c = ({ c with running := true }, check)) ∨
    (p = release ∧ p.advance c = ({ c with running := false }, returned)) ∨
    ((p.advance c).2.isActive = p.isActive ∧ (p.advance c).1.running = c.running) := by
  cases p
  case claim =>
    cases running : c.running with
    | true => exact .inr (.inr (by simp [advance, running, isActive]))
    | false => exact .inl (by simp [advance, running])
  case check =>
    exact .inr (.inr (by cases stop : c.stopRequested <;> simp [advance, stop, isActive]))
  case release => exact .inr (.inl ⟨rfl, rfl⟩)
  case cycle | pause | clear | refused | returned => exact .inr (.inr ⟨rfl, rfl⟩)

/-- After its first step a call has got the loop or not, for good. -/
theorem gotLoop_advance (ne : p ≠ claim) : (p.advance c).2.gotLoop = p.gotLoop := by
  cases p
  case claim => exact absurd rfl ne
  case check => simp only [advance]; split <;> rfl
  case cycle | pause | clear | release | refused | returned => rfl

/-- Only taking it away changes a request to stop. -/
theorem stopRequested_advance (ne : p ≠ clear) : (p.advance c).1.stopRequested = c.stopRequested := by
  cases p
  case clear => exact absurd rfl ne
  case claim | check => simp only [advance]; split <;> rfl
  case cycle | pause | release | refused | returned => rfl

/-- A call goes to take a request away when it has seen one. -/
theorem stopRequested_of_clear (h : (p.advance c).2 = clear) :
    (p.advance c).1.stopRequested = true := by
  cases p
  case check => cases stop : c.stopRequested <;> simp_all [advance]
  case claim => cases running : c.running <;> simp_all [advance]
  case cycle | pause | clear | release | refused | returned => cases h

theorem clear_of_release (h : (p.advance c).2 = release) : p = clear := by
  cases p
  case clear => rfl
  case claim => cases running : c.running <;> simp_all [advance]
  case check => cases stop : c.stopRequested <;> simp_all [advance]
  case cycle | pause | release | refused | returned => cases h

/-- Only a call that takes a request away comes to an end of its loop by that. -/
theorem hasEnded_advance (ne : p ≠ clear) : (p.advance c).2.hasEnded = p.hasEnded := by
  cases p
  case clear => exact absurd rfl ne
  case claim | check => simp only [advance]; split <;> rfl
  case cycle | pause | release | refused | returned => rfl

/-- A call that cycles goes on with it as long as no stop is asked for. -/
theorem isCycling_advance (h : p.isCycling) (unasked : c.stopRequested = false) :
    (p.advance c).2.isCycling := by
  cases p
  case check => simp [advance, unasked, isCycling]
  case cycle | pause => rfl
  case claim | clear | release | refused | returned => cases h

end Phase

/-- A call of `run`. -/
structure LoopCall where
  phase : Phase
  /-- How many steps it has taken. -/
  steps : Nat
  /-- How many cycles the synchronizer has counted in its steps. -/
  cycles : Nat
deriving DecidableEq

namespace LoopCall

variable {call : LoopCall} {c : Control}

def made : LoopCall := ⟨.claim, 0, 0⟩

/-- The call after its next step, if just a cycle is counted. -/
def next (call : LoopCall) (phase : Phase) : LoopCall :=
  ⟨phase, call.steps + 1, call.cycles + if call.phase = .cycle then 1 else 0⟩

/-- While a call goes from cycle to cycle every third of its steps is a cycle. Before that, or if it
is refused, it has run none. -/
def Counted (call : LoopCall) : Prop :=
  match call.phase with
  | .claim => call.steps = 0 ∧ call.cycles = 0
  | .check => call.steps = 3 * call.cycles + 1
  | .cycle => call.steps = 3 * call.cycles + 2
  | .pause => call.steps = 3 * call.cycles
  | .refused => call.cycles = 0
  | .clear | .release | .returned => True

theorem Counted.next (h : call.Counted) (c : Control) :
    (call.next (call.phase.advance c).2).Counted := by
  obtain ⟨phase, steps, cycles⟩ := call
  cases phase
  case claim =>
    obtain ⟨rfl, rfl⟩ := h
    cases running : c.running <;> simp [Counted, LoopCall.next, Phase.advance, running]
  case check =>
    replace h : steps = 3 * cycles + 1 := h
    cases stop : c.stopRequested <;> simp [Counted, LoopCall.next, Phase.advance, stop, h]
  case cycle =>
    replace h : steps = 3 * cycles + 2 := h
    show steps + 1 = 3 * (cycles + 1)
    omega
  case pause =>
    replace h : steps = 3 * cycles := h
    show steps + 1 = 3 * (cycles + 0) + 1
    omega
  case refused => exact h
  case clear | release | returned => trivial

theorem Counted.cycles_eq (h : call.Counted) (cycling : call.phase.isCycling) :
    call.cycles = call.steps / 3 := by
  obtain ⟨phase, steps, cycles⟩ := call
  show cycles = steps / 3
  cases phase
  case check => replace h : steps = 3 * cycles + 1 := h; omega
  case cycle => replace h : steps = 3 * cycles + 2 := h; omega
  case pause => replace h : steps = 3 * cycles := h; omega
  case claim | clear | release | refused | returned => cases cycling

end LoopCall

namespace Synchronizer

variable {σ : Type} (b : Backend σ) (config : SyncConfig)

theorem advance_fst (p : Phase) (s : Synchronizer σ) :
    (advance b config p s).1 = (p.advance s.control).2 := by cases p <;> rfl

theorem control_advance (p : Phase) (s : Synchronizer σ) :
    (advance b config p s).2.control = (p.advance s.control).1 := by cases p <;> rfl

/-- A step runs a cycle if the call is at one, and does nothing else but set the flags. -/
theorem node_advance (p : Phase) (s : Synchronizer σ) :
    (advance b config p s).2 =
      { (if p = .cycle then ((cycle b config).run s).2 else s) with
        control := (p.advance s.control).1 } := by cases p <;> rfl

/-- Just the cycle is counted. -/
theorem cycles_advance (p : Phase) (s : Synchronizer σ) :
    (advance b config p s).2.stats.cycles = s.stats.cycles + if p = .cycle then 1 else 0 := by
  rw [node_advance]
  by_cases cycle : p = .cycle
  · rw [if_pos cycle, if_pos cycle, run_cycle]
    exact SyncStats.cycles_record _ _
  · rw [if_neg cycle, if_neg cycle]
    rfl

/-- A call that finds the loop taken does nothing. -/
theorem advance_claim {s : Synchronizer σ} (running : s.control.running = true) :
    advance b config .claim s = (.refused, s) := by
  simp [advance, Phase.advance, running]

/-- Nor does it run a cycle, whatever is called after it. -/
theorem run_refused {s : Synchronizer σ} (running : s.control.running = true)
    (schedule : List (List OuterCall)) :
    (run b config schedule).run s = (.error Control.alreadyRunning, s) := by
  simp only [Action.run, run, advance_claim b config running]

end Synchronizer

/-- A synchronizer with all calls of `run` made on it. -/
structure Callers (σ : Type) where
  node : Synchronizer σ
  /-- In the order in which they were made. -/
  calls : List LoopCall
  /-- Which calls got the loop, in that order. -/
  loops : List Nat

/-- What happens to a synchronizer with calls made on it. -/
inductive LoopStep where
  /-- One more call of `run` is made. -/
  | run
  | stop
  /-- A call takes its next step. -/
  | call (n : Nat)
deriving DecidableEq

namespace Callers

variable {σ : Type} (b : Backend σ) (config : SyncConfig) {t : Callers σ} {n m : Nat} {call : LoopCall}

def start (store : σ) : Callers σ := ⟨.new store, [], []⟩

/-- A call takes the next step of its phase, and is credited with the cycles counted in it. -/
def proceed (t : Callers σ) (n : Nat) (call : LoopCall) : Callers σ :=
  let (phase, node) := Synchronizer.advance b config call.phase t.node
  let counted := node.stats.cycles - t.node.stats.cycles
  { node
    calls := t.calls.set n ⟨phase, call.steps + 1, call.cycles + counted⟩
    loops := if call.phase = .claim ∧ phase = .check then t.loops ++ [n] else t.loops }

def step (t : Callers σ) : LoopStep → Callers σ
  | .run => { t with calls := t.calls ++ [.made] }
  | .stop => { t with node := t.node.stop }
  | .call n =>
    match t.calls[n]? with
    | some call => t.proceed b config n call
    | none => t

def after (t : Callers σ) (steps : List LoopStep) : Callers σ := steps.foldl (step b config) t

theorem after_append (t : Callers σ) (steps more : List LoopStep) :
    t.after b config (steps ++ more) = (t.after b config steps).after b config more :=
  List.foldl_append

/-- There is a call with a number, and it is as described. -/
def At (t : Callers σ) (n : Nat) (P : LoopCall → Prop) : Prop := ∃ call, t.calls[n]? = some call ∧ P call

def IsActive (t : Callers σ) (n : Nat) : Prop := t.At n (·.phase.isActive)

def StandsAt (t : Callers σ) (n : Nat) (p : Phase) : Prop := t.At n (·.phase = p)

theorem At.imp {P Q : LoopCall → Prop} (h : t.At n P) (imp : ∀ call, P call → Q call) : t.At n Q := by
  obtain ⟨call, there, holds⟩ := h
  exact ⟨call, there, imp call holds⟩

theorem at_of_some {P : LoopCall → Prop} (there : t.calls[n]? = some call) : t.At n P ↔ P call :=
  ⟨fun ⟨_, there', holds⟩ => Option.some.inj (there.symm.trans there') ▸ holds,
    fun holds => ⟨call, there, holds⟩⟩

/-! ### One step -/

theorem step_call (there : t.calls[n]? = some call) :
    t.step b config (.call n) = t.proceed b config n call := by
  simp only [step, there]

/-- A step of a call is one of its phase, if the call is there. -/
@[elab_as_elim]
theorem step_call_cases {motive : Callers σ → Prop} (absent : motive t)
    (present : ∀ call, t.calls[n]? = some call → motive (t.proceed b config n call)) :
    motive (t.step b config (.call n)) := by
  cases there : t.calls[n]? with
  | none =>
    simp only [step, there]
    exact absent
  | some call =>
    rw [step_call b config there]
    exact present call there

theorem control_proceed (t : Callers σ) (n : Nat) (call : LoopCall) :
    (t.proceed b config n call).node.control = (call.phase.advance t.node.control).1 :=
  Synchronizer.control_advance b config call.phase t.node

theorem node_proceed (t : Callers σ) (n : Nat) (call : LoopCall) :
    (t.proceed b config n call).node = (Synchronizer.advance b config call.phase t.node).2 := rfl

theorem calls_proceed (t : Callers σ) (n : Nat) (call : LoopCall) :
    (t.proceed b config n call).calls = t.calls.set n (call.next (call.phase.advance t.node.control).2) := by
  have counted : (Synchronizer.advance b config call.phase t.node).2.stats.cycles - t.node.stats.cycles =
      if call.phase = .cycle then 1 else 0 := by
    rw [Synchronizer.cycles_advance, Nat.add_sub_cancel_left]
  simp only [proceed, LoopCall.next, counted, Synchronizer.advance_fst]

/-- A call gets the loop in its first step, if nobody has it. -/
theorem loops_proceed (t : Callers σ) (n : Nat) (call : LoopCall) :
    (t.proceed b config n call).loops =
      if call.phase = .claim ∧ t.node.control.running = false then t.loops ++ [n] else t.loops := by
  show (if call.phase = .claim ∧ (Synchronizer.advance b config call.phase t.node).1 = .check then
    t.loops ++ [n] else t.loops) = _
  rw [Synchronizer.advance_fst]
  refine if_congr (and_congr_right fun claim => ?_) rfl rfl
  rw [claim]
  cases running : t.node.control.running <;> simp [Phase.advance, running]

theorem at_proceed_self {P : LoopCall → Prop} (there : t.calls[n]? = some call) :
    (t.proceed b config n call).At n P ↔ P (call.next (call.phase.advance t.node.control).2) := by
  refine at_of_some ?_
  rw [calls_proceed, List.getElem?_set_self (List.getElem?_eq_some_iff.mp there).1]

theorem at_proceed_of_ne {P : LoopCall → Prop} (ne : m ≠ n) :
    (t.proceed b config n call).At m P ↔ t.At m P := by
  unfold At
  rw [calls_proceed, List.getElem?_set_ne (Ne.symm ne)]

/-- A call that is there before one more is made is there still. -/
theorem At.run {P : LoopCall → Prop} (h : t.At n P) : (t.step b config .run).At n P := by
  obtain ⟨call, there, holds⟩ := h
  exact ⟨call, List.getElem?_append_left (List.getElem?_eq_some_iff.mp there).1 ▸ there, holds⟩

/-- A call after one more was made was there before, or is that one. -/
theorem at_run {P : LoopCall → Prop} (h : (t.step b config .run).At n P) : t.At n P ∨ P .made := by
  obtain ⟨call, there, holds⟩ := h
  rcases Nat.lt_or_ge n t.calls.length with old | new
  · exact .inl ⟨call, List.getElem?_append_left old ▸ there, holds⟩
  · replace there : (t.calls ++ [.made])[n]? = some call := there
    rw [List.getElem?_append_right new] at there
    obtain rfl := List.mem_singleton.mp (List.mem_of_getElem? there)
    exact .inr holds

/-! ### One loop at a time -/

structure Orderly (t : Callers σ) : Prop where
  one : ∀ n m, t.IsActive n → t.IsActive m → n = m
  running : t.node.control.running = true ↔ ∃ n, t.IsActive n
  /-- A call that is about to take a request to stop away has it before it. -/
  clear : ∀ n, t.StandsAt n .clear → t.node.control.stopRequested = true
  counted : ∀ (n : Nat) (call : LoopCall), t.calls[n]? = some call → call.Counted
  loops : ∀ n, n ∈ t.loops ↔ t.At n (·.phase.gotLoop)

theorem orderly_start (store : σ) : (start store).Orderly := by
  have none (n : Nat) (P : LoopCall → Prop) : ¬(start store).At n P := fun ⟨_, there, _⟩ => nomatch there
  exact ⟨fun n _ h => absurd h (none n _), ⟨nofun, fun ⟨n, h⟩ => absurd h (none n _)⟩,
    fun n h => absurd h (none n _), fun _ _ there => (nomatch there),
    fun n => iff_of_false List.not_mem_nil (none n _)⟩

/-- Which calls are active after a step of one, and what the flag says of it. -/
theorem Orderly.active_proceed (h : t.Orderly) (there : t.calls[n]? = some call) :
    let u := t.proceed b config n call
    (u.node.control.running = true ∧ ∀ m, u.IsActive m ↔ m = n) ∨
    (u.node.control.running = false ∧ ∀ m, ¬u.IsActive m) ∨
    (u.node.control.running = t.node.control.running ∧ ∀ m, u.IsActive m ↔ t.IsActive m) := by
  intro u
  have self : u.IsActive n ↔ (call.phase.advance t.node.control).2.isActive := at_proceed_self b config there
  have others (m : Nat) (ne : m ≠ n) : u.IsActive m ↔ t.IsActive m := at_proceed_of_ne b config ne
  have before : t.IsActive n ↔ call.phase.isActive := at_of_some there
  have control : u.node.control = (call.phase.advance t.node.control).1 := control_proceed b config t n call
  rcases call.phase.advance_cases t.node.control with ⟨_, idle, got⟩ | ⟨phase, given⟩ | ⟨same, running⟩
  · have unused (m : Nat) : ¬t.IsActive m := fun active => by simpa [idle] using h.running.mpr ⟨m, active⟩
    rw [got] at self control
    refine .inl ⟨congrArg Control.running control, fun m => ?_⟩
    by_cases ne : m = n
    · exact iff_of_true (ne ▸ self.mpr rfl) ne
    · exact iff_of_false (fun active => unused m ((others m ne).mp active)) ne
  · rw [given] at self control
    rw [phase] at before
    refine .inr (.inl ⟨congrArg Control.running control, fun m active => ?_⟩)
    by_cases ne : m = n
    · exact nomatch self.mp (ne ▸ active)
    · exact ne (h.one m n ((others m ne).mp active) (before.mpr rfl))
  · refine .inr (.inr ⟨(congrArg Control.running control).trans running, fun m => ?_⟩)
    by_cases ne : m = n
    · rw [ne, self, before, same]
    · exact others m ne

theorem Orderly.proceed (h : t.Orderly) (there : t.calls[n]? = some call) :
    (t.proceed b config n call).Orderly where
  one k m hk hm := by
    rcases h.active_proceed b config there with ⟨_, active⟩ | ⟨_, active⟩ | ⟨_, active⟩
    · exact ((active k).mp hk).trans ((active m).mp hm).symm
    · exact absurd hk (active k)
    · exact h.one k m ((active k).mp hk) ((active m).mp hm)
  running := by
    rcases h.active_proceed b config there with ⟨running, active⟩ | ⟨running, active⟩ | ⟨running, active⟩
    · exact iff_of_true running ⟨n, (active n).mpr rfl⟩
    · exact iff_of_false (by rw [running]; exact Bool.false_ne_true) fun ⟨m, hm⟩ => active m hm
    · rw [running, h.running]
      exact exists_congr fun m => (active m).symm
  clear m hm := by
    rw [control_proceed]
    by_cases same : m = n
    · exact Phase.stopRequested_of_clear ((at_proceed_self b config there).mp (same ▸ hm))
    · -- another call is at taking the request away, so this one is not
      have standing : t.StandsAt m .clear := (at_proceed_of_ne b config same).mp hm
      have ne : call.phase ≠ .clear := fun clear => same <|
        h.one m n (standing.imp fun _ at_clear => by rw [at_clear]; rfl)
          ((at_of_some there).mpr (by rw [clear]; rfl))
      rw [Phase.stopRequested_advance ne]
      exact h.clear m standing
  counted m call' there' := by
    by_cases same : m = n
    · subst same
      have next : (t.proceed b config m call).At m (· = call') := ⟨call', there', rfl⟩
      rw [← (at_proceed_self b config there).mp next]
      exact (h.counted m call there).next _
    · obtain ⟨_, there, rfl⟩ := (at_proceed_of_ne b config same).mp ⟨call', there', (rfl : call' = call')⟩
      exact h.counted m _ there
  loops m := by
    rw [loops_proceed]
    by_cases same : m = n
    · subst same
      rw [at_proceed_self b config there]
      have before := (h.loops m).trans (at_of_some there)
      by_cases claim : call.phase = .claim
      · rw [claim] at before ⊢
        cases running : t.node.control.running <;>
          simp [Phase.advance, running, LoopCall.next, Phase.gotLoop, before]
      · simp [claim, before, Phase.gotLoop_advance claim, LoopCall.next]
    · rw [at_proceed_of_ne b config same, ← h.loops m]
      split
      · simp [same]
      · rfl

theorem Orderly.step (h : t.Orderly) (e : LoopStep) : (t.step b config e).Orderly := by
  cases e with
  | run =>
    have active (m : Nat) : (t.step b config .run).IsActive m ↔ t.IsActive m :=
      ⟨fun active => (at_run b config active).resolve_right nofun, fun active => active.run b config⟩
    refine ⟨fun n m hn hm => h.one n m ((active n).mp hn) ((active m).mp hm), ?_, fun n hn => ?_,
      fun n call there => ?_, fun n => (h.loops n).trans ⟨fun got => got.run b config, fun got => ?_⟩⟩
    · exact h.running.trans (exists_congr fun m => (active m).symm)
    · exact h.clear n ((at_run b config hn).resolve_right nofun)
    · rcases at_run b config ⟨call, there, (rfl : call = call)⟩ with ⟨_, there, rfl⟩ | rfl
      · exact h.counted n _ there
      · exact ⟨rfl, rfl⟩
    · exact (at_run b config got).resolve_right nofun
  | stop => exact ⟨h.one, h.running, fun _ _ => rfl, h.counted, h.loops⟩
  | call n =>
    exact step_call_cases b config h fun call there => h.proceed b config there

theorem Orderly.after (h : t.Orderly) (steps : List LoopStep) : (t.after b config steps).Orderly := by
  induction steps generalizing t with
  | nil => exact h
  | cons e rest ih => exact ih (h.step b config e)

/-! ### Cycles -/

/-- How many cycles the calls have run. -/
def cycles (t : Callers σ) : Nat := (t.calls.map (·.cycles)).foldr (· + ·) 0

theorem cycles_proceed (there : t.calls[n]? = some call) :
    (t.proceed b config n call).cycles = t.cycles + if call.phase = .cycle then 1 else 0 := by
  obtain ⟨lt, same⟩ := List.getElem?_eq_some_iff.mp there
  have next := ((List.set_perm_cons_eraseIdx lt
    (call.next (call.phase.advance t.node.control).2)).map (·.cycles)).foldr_eq (f := (· + ·)) 0
  have now := ((List.getElem_cons_eraseIdx_perm lt).map (·.cycles)).foldr_eq (f := (· + ·)) 0
  rw [List.map_cons, List.foldr_cons] at next now
  unfold cycles
  rw [calls_proceed, next, ← now, same]
  exact Nat.add_right_comm _ _ _

/-- The cycles of the calls are all that was counted and all that was done to the stores. -/
structure AddsUp (store : σ) (t : Callers σ) : Prop where
  counted : t.node.stats.cycles = t.cycles
  /-- As many cycles, one after the other, leave the stores as they are, and come to what the
  statistics record. -/
  ran : ∃ results, (b.cycles config t.cycles).run store = (.ok results, t.node.store) ∧
    t.node.stats = results.foldl SyncStats.record .zero

theorem addsUp_start (store : σ) : AddsUp b config store (start store) := ⟨rfl, [], rfl, rfl⟩

theorem AddsUp.proceed {store : σ} (h : AddsUp b config store t) (there : t.calls[n]? = some call) :
    AddsUp b config store (t.proceed b config n call) := by
  constructor
  · rw [cycles_proceed b config there, ← h.counted]
    exact Synchronizer.cycles_advance b config call.phase t.node
  · obtain ⟨results, ran, recorded⟩ := h.ran
    rw [cycles_proceed b config there, node_proceed, Synchronizer.node_advance]
    by_cases cycle : call.phase = .cycle
    · simp only [if_pos cycle, Synchronizer.run_cycle]
      refine ⟨_, Backend.run_cycles_succ b config ran, ?_⟩
      rw [List.foldl_append, ← recorded]
      rfl
    · simp only [if_neg cycle]
      exact ⟨results, ran, recorded⟩

theorem AddsUp.step {store : σ} (h : AddsUp b config store t) (e : LoopStep) :
    AddsUp b config store (t.step b config e) := by
  cases e with
  | run =>
    have same : (t.step b config .run).cycles = t.cycles := by
      simp [cycles, Callers.step, LoopCall.made]
    exact ⟨h.counted.trans same.symm, same ▸ h.ran⟩
  | stop => exact ⟨h.counted, h.ran⟩
  | call n => exact step_call_cases b config h fun call there => h.proceed b config there

theorem AddsUp.after {store : σ} (h : AddsUp b config store t) (steps : List LoopStep) :
    AddsUp b config store (t.after b config steps) := by
  induction steps generalizing t with
  | nil => exact h
  | cons e rest ih => exact ih (h.step b config e)

/-- The step of a call that is at its cycle is the cycle. -/
theorem node_cycle (standing : t.StandsAt n .cycle) :
    (t.step b config (.call n)).node = ((Synchronizer.cycle b config).run t.node).2 := by
  obtain ⟨call, there, cycle⟩ := standing
  rw [step_call b config there, node_proceed, Synchronizer.node_advance, if_pos cycle, cycle]
  rfl

/-- All other steps set flags at most. -/
theorem node_elsewhere {e : LoopStep} (elsewhere : ∀ n, e = .call n → ¬t.StandsAt n .cycle) :
    ∃ control, (t.step b config e).node = { t.node with control } := by
  cases e with
  | run => exact ⟨t.node.control, rfl⟩
  | stop => exact ⟨t.node.control.stop, rfl⟩
  | call n =>
    refine step_call_cases b config ⟨t.node.control, rfl⟩ fun call there => ?_
    have other : call.phase ≠ .cycle := fun cycle => elsewhere n rfl ⟨call, there, cycle⟩
    rw [node_proceed, Synchronizer.node_advance, if_neg other]
    exact ⟨_, rfl⟩

end Callers
end CaseRegistry
