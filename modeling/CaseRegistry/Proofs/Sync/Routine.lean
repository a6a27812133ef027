import CaseRegistry.Action

/-! Programs that take turns.

A `Routine` is an action that can be stopped between its acts: either it has ended, or it has an act
to do and says how it goes on from the result. Two routines over one state are woven together by a
schedule that says whose turn it is (`weave`). What every act of both keeps to, their turns keep to
(`weave_always`). The two keep apart if each has a view of the state that its own acts read and
write and that the acts of the other leave alone (`Apart`); then what comes of each routine and of
its view is the same in every schedule as if it were alone (`weave_eq`). -/
namespace CaseRegistry

/-! ### Views of a state -/

namespace Action

variable {σ ρ α β : Type} {view : σ → ρ}

/-- What an action gives, and what it makes of a view, depends on that view of the state alone. -/
def Within (view : σ → ρ) (a : Action σ α) : Prop :=
  ∀ s t, view s = view t → (a.run s).1 = (a.run t).1 ∧ view (a.run s).2 = view (a.run t).2

/-- An action leaves a view of the state as it was. -/
def Spares (view : σ → ρ) (a : Action σ α) : Prop := a.Always fun s s' => view s' = view s

theorem within_ofExcept (x : Except Error α) : (ofExcept x : Action σ α).Within view :=
  fun _ _ same => ⟨rfl, same⟩

theorem Within.bind {x : Action σ α} {f : α → Action σ β} (hx : x.Within view)
    (hf : ∀ a, (f a).Within view) : (x >>= f).Within view := by
  intro s t same
  obtain ⟨result, after⟩ := hx s t same
  rw [run_bind, run_bind]
  obtain ⟨e | a, s', hs⟩ : ∃ r s', x.run s = (r, s') := ⟨_, _, rfl⟩
  all_goals
    obtain ⟨r, t', ht⟩ : ∃ r t', x.run t = (r, t') := ⟨_, _, rfl⟩
    rw [hs, ht] at result after
    obtain rfl := result
    rw [hs, ht]
  · exact ⟨rfl, after⟩
  · exact hf a s' t' after

theorem Within.attempt {a : Action σ α} (h : a.Within view) : a.attempt.Within view := by
  intro s t same
  obtain ⟨result, after⟩ := h s t same
  exact ⟨congrArg Except.ok result, after⟩

end Action

/-! ### Routines -/

/-- An action in acts, between which others may have their turn. -/
inductive Routine (σ α : Type) : Type 1 where
  | done (result : Except Error α)
  /-- An act, and how to go on from its result; an act that fails ends the routine. -/
  | act {β : Type} (action : Action σ β) (next : β → Routine σ α)

namespace Routine

variable {σ ρ τ α β : Type}

protected def bind (f : α → Routine σ β) : Routine σ α → Routine σ β
  | done (.ok a) => f a
  | done (.error e) => done (.error e)
  | act action next => act action fun b => (next b).bind f

instance : Monad (Routine σ) where
  pure a := done (.ok a)
  bind x f := x.bind f

/-- A single act. -/
def once (a : Action σ α) : Routine σ α := act a fun b => done (.ok b)

/-- Goes on from a result, or ends with a failure as a value. -/
def orElseFailure (next : β → Routine σ (Except Error α)) :
    Except Error β → Routine σ (Except Error α)
  | .ok b => next b
  | .error e => done (.ok (.error e))

/-- The routine with its result, failures included, as a value. -/
def attempt : Routine σ α → Routine σ (Except Error α)
  | done result => done (.ok result)
  | act action next => act action.attempt (orElseFailure fun b => (next b).attempt)

/-- All acts without a break. -/
def run : Routine σ α → Action σ α
  | done result => Action.ofExcept result
  | act action next => action >>= fun b => (next b).run

/-- What is left to do after an act. -/
def resume (next : β → Routine σ α) : Except Error β × σ → Routine σ α × σ
  | (.ok b, s) => (next b, s)
  | (.error e, s) => (done (.error e), s)

/-- One act, and what is left to do. -/
def step : Routine σ α → σ → Routine σ α × σ
  | done result, s => (done result, s)
  | act action next, s => resume next (action.run s)

/-! ### Running -/

@[simp] theorem run_pure (a : α) : (pure a : Routine σ α).run = pure a := rfl

@[simp] theorem run_once (a : Action σ α) : (once a).run = a := bind_pure a

@[simp] theorem run_bind (x : Routine σ α) (f : α → Routine σ β) :
    (x >>= f).run = x.run >>= fun a => (f a).run := by
  induction x with
  | done result => cases result <;> rfl
  | act action next ih =>
    show (action >>= fun b => (next b >>= f).run) = (action >>= fun b => (next b).run) >>= _
    rw [bind_assoc]
    exact congrArg (action >>= ·) (funext ih)

@[simp] theorem run_attempt (x : Routine σ α) : x.attempt.run = x.run.attempt := by
  induction x with
  | done result => rfl
  | act action next ih =>
    funext s
    show (action.attempt >>= fun r => (orElseFailure (fun b => (next b).attempt) r).run).run s =
      (action >>= fun b => (next b).run).attempt.run s
    rw [Action.run_bind, Action.run_attempt, Action.run_attempt, Action.run_bind]
    obtain ⟨e | b, s', ran⟩ : ∃ r s', action.run s = (r, s') := ⟨_, _, rfl⟩
    · rw [ran]
      rfl
    · rw [ran]
      exact congrFun (ih b) s'

/-- After one act the rest comes to what the whole comes to. -/
theorem run_step (x : Routine σ α) (s : σ) : (x.step s).1.run.run (x.step s).2 = x.run.run s := by
  cases x with
  | done result => rfl
  | act action next =>
    show (resume next (action.run s)).1.run.run (resume next (action.run s)).2 =
      (action >>= fun b => (next b).run).run s
    rw [Action.run_bind]
    obtain ⟨_ | _, _⟩ := action.run s <;> rfl

/-! ### Every act of a routine -/

/-- Every act that the routine may come to has a property. -/
def Each (P : (β : Type) → Action σ β → Prop) : Routine σ α → Prop
  | done _ => True
  | @act _ _ β action next => P β action ∧ ∀ b, (next b).Each P

variable {view : σ → ρ}

section
variable {P : (β : Type) → Action σ β → Prop}

theorem each_pure (a : α) : (pure a : Routine σ α).Each P := trivial

theorem each_once {a : Action σ α} (h : P α a) : (once a).Each P := ⟨h, fun _ => trivial⟩

theorem Each.bind {x : Routine σ α} {f : α → Routine σ β} (hx : x.Each P)
    (hf : ∀ a, (f a).Each P) : (x >>= f).Each P := by
  induction x with
  | done result =>
    cases result with
    | ok a => exact hf a
    | error e => trivial
  | act action next ih => exact ⟨hx.1, fun b => ih b (hx.2 b)⟩

theorem Each.attempt (kept : ∀ {β : Type} {a : Action σ β}, P β a → P _ a.attempt)
    {x : Routine σ α} (h : x.Each P) : x.attempt.Each P := by
  induction x with
  | done result => trivial
  | act action next ih =>
    refine ⟨kept h.1, fun result => ?_⟩
    cases result with
    | ok b => exact ih b (h.2 b)
    | error e => trivial

/-- What every act has, the next one has, and every one that is left. -/
theorem Each.step {x : Routine σ α} (h : x.Each P) (s : σ) : (x.step s).1.Each P := by
  cases x with
  | done result => trivial
  | act action next =>
    show (resume next (action.run s)).1.Each P
    obtain ⟨e | b, s'⟩ := action.run s
    · trivial
    · exact h.2 b

theorem Each.mono {Q : (β : Type) → Action σ β → Prop}
    (le : ∀ {β : Type} {a : Action σ β}, P β a → Q β a) {x : Routine σ α} (h : x.Each P) :
    x.Each Q := by
  induction x with
  | done result => trivial
  | act action next ih => exact ⟨le h.1, fun b => ih b (h.2 b)⟩

theorem Each.within {x : Routine σ α} (h : x.Each fun _ a => a.Within view) :
    x.run.Within view := by
  induction x with
  | done result => exact Action.within_ofExcept result
  | act action next ih => exact h.1.bind fun b => ih b (h.2 b)

end

section
variable {R : σ → σ → Prop} (refl : ∀ s, R s s)
include refl

theorem Each.always_step {x : Routine σ α} (h : x.Each fun _ a => a.Always R) (s : σ) :
    R s (x.step s).2 := by
  cases x with
  | done result => exact refl s
  | act action next =>
    have led := h.1 s
    show R s (resume next (action.run s)).2
    generalize action.run s = reply at led ⊢
    obtain ⟨_ | _, _⟩ := reply <;> exact led

theorem Each.always (trans : ∀ {s s' s'' : σ}, R s s' → R s' s'' → R s s'') {x : Routine σ α}
    (h : x.Each fun _ a => a.Always R) : x.run.Always R := by
  induction x with
  | done result => exact refl
  | act action next ih => exact Action.Always.bind (R := R) trans h.1 fun b => ih b (h.2 b)

end

theorem Each.spares_step {x : Routine σ α} (h : x.Each fun _ a => a.Spares view) (s : σ) :
    view (x.step s).2 = view s :=
  Each.always_step (R := fun s s' => view s' = view s) (fun _ => rfl) h s

theorem Each.spares {x : Routine σ α} (h : x.Each fun _ a => a.Spares view) : x.run.Spares view :=
  Each.always (R := fun s s' => view s' = view s) (fun _ => rfl)
    (fun first second => second.trans first) h

/-! ### Taking turns -/

/-- Whose turn it is. -/
inductive Side where
  | left
  | right
deriving DecidableEq

/-- Two routines that take turns as a schedule says. Once it is used up, what is left of the left one
is done, and then what is left of the right one. -/
def weave : Routine σ α → Routine σ β → List Side → σ → (Except Error α × Except Error β) × σ
  | p, q, [], s =>
    let (first, s) := p.run.run s
    let (second, s) := q.run.run s
    ((first, second), s)
  | p, q, .left :: rest, s =>
    let (p, s) := p.step s
    weave p q rest s
  | p, q, .right :: rest, s =>
    let (q, s) := q.step s
    weave p q rest s

section
variable {p : Routine σ α} {q : Routine σ β}

/-- What every act of two routines keeps to, their turns keep to. -/
theorem weave_always {R : σ → σ → Prop} (refl : ∀ s, R s s)
    (trans : ∀ {s s' s'' : σ}, R s s' → R s' s'' → R s s'') (hp : p.Each fun _ a => a.Always R)
    (hq : q.Each fun _ a => a.Always R) (schedule : List Side) (s : σ) :
    R s (weave p q schedule s).2 := by
  induction schedule generalizing p q s with
  | nil => exact trans (hp.always refl trans s) (hq.always refl trans _)
  | cons side rest ih =>
    cases side with
    | left => exact trans (hp.always_step refl s) (ih (hp.step s) hq _)
    | right => exact trans (hq.always_step refl s) (ih hp (hq.step s) _)

/-- Each of two routines keeps to a view of its own, and leaves the view of the other alone. -/
structure Apart (mine : σ → ρ) (theirs : σ → τ) (p : Routine σ α) (q : Routine σ β) : Prop where
  left : p.Each fun _ a => a.Within mine
  sparesRight : p.Each fun _ a => a.Spares theirs
  right : q.Each fun _ a => a.Within theirs
  sparesLeft : q.Each fun _ a => a.Spares mine

variable {mine : σ → ρ} {theirs : σ → τ}

/-- Whatever the schedule, each of two routines that keep apart gives what it gives alone, and makes of
its view what it makes of it alone. -/
theorem Apart.weave_eq (h : Apart mine theirs p q) (schedule : List Side) (s : σ) :
    (weave p q schedule s).1 = ((p.run.run s).1, (q.run.run s).1) ∧
      mine (weave p q schedule s).2 = mine (p.run.run s).2 ∧
      theirs (weave p q schedule s).2 = theirs (q.run.run s).2 := by
  induction schedule generalizing p q s with
  | nil =>
    have untouched := h.sparesRight.spares s
    have later := h.sparesLeft.spares (p.run.run s).2
    obtain ⟨result, after⟩ := h.right.within _ _ untouched
    exact ⟨congrArg (Prod.mk _) result, later, after⟩
  | cons side rest ih =>
    cases side with
    | left =>
      -- The right one finds its view as it was before this turn, so it comes to what it would have.
      have untouched := h.sparesRight.spares_step s
      obtain ⟨results, left, right⟩ :=
        ih ⟨h.left.step s, h.sparesRight.step s, h.right, h.sparesLeft⟩ (p.step s).2
      obtain ⟨result, after⟩ := h.right.within _ _ untouched
      rw [run_step] at results left
      exact ⟨results.trans (congrArg (Prod.mk _) result), left, right.trans after⟩
    | right =>
      have untouched := h.sparesLeft.spares_step s
      obtain ⟨results, left, right⟩ :=
        ih ⟨h.left, h.sparesRight, h.right.step s, h.sparesLeft.step s⟩ (q.step s).2
      obtain ⟨result, after⟩ := h.left.within _ _ untouched
      rw [run_step] at results right
      exact ⟨results.trans (congrArg (Prod.mk · _) result), left.trans after, right⟩

end
end Routine
end CaseRegistry
