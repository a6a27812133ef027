import CaseRegistry.Action

/-! Actions that fail without a trace.

An action is atomic if a failure leaves the state as it was (`IsAtomic`). An action that does
its writes one by one is atomic if every check that may fail comes before the first write,
or cannot fail after it: such an action is equal to one that gives its new state at once
(`step`), and is brought to that form from its end by `step_step`, `check_step`, `get_step`
and `step_pure`. Actions on stores, which call others, are taken apart by
`KeepsOnFailure.bind`. -/
namespace CaseRegistry.Action

variable {σ τ ρ α β : Type}

/-- A failure leaves what is seen of the state as it was. -/
def KeepsOnFailure (view : σ → ρ) (a : Action σ α) : Prop :=
  ∀ s e s', a.run s = (.error e, s') → view s' = view s

/-- A failure leaves the state as it was. -/
def IsAtomic (a : Action σ α) : Prop := a.KeepsOnFailure id

theorem isAtomic_step (f : σ → Except Error (σ × α)) : (step f).IsAtomic := by
  intro s e s' failed
  rw [run_step] at failed
  split at failed
  · cases failed
  · exact (Prod.mk.inj failed).2.symm

/-- An action carries a step out: it comes to the same, and a failure leaves no trace of what
it wrote on the way. -/
structure CarriesOut (a : Action σ α) (f : σ → Except Error (σ × α)) : Prop where
  same : a = step f
  atomic : a.IsAtomic

theorem carriesOut_of_eq {a : Action σ α} {f : σ → Except Error (σ × α)} (same : a = step f) :
    a.CarriesOut f :=
  ⟨same, same ▸ isAtomic_step f⟩

/-! ### Actions that write step by step -/

/-- Looks at the state, and may fail. -/
def check (f : σ → Except Error α) : Action σ α := fun s => (f s, s)

theorem check_step (f : σ → Except Error α) (g : α → σ → Except Error (σ × β)) :
    (check f >>= fun a => step (g a)) = step fun s => f s >>= fun a => g a s := by
  funext s
  show resume (fun a => step (g a)) (f s, s) = (step fun s => f s >>= fun a => g a s).run s
  rw [run_step]
  cases f s <;> rfl

theorem check_ensure {rule : Prop} [Decidable rule] (e : Error) (f : Unit → Action σ α) :
    (check (fun _ => ensure rule e) >>= f) = if rule then f () else fail e := by
  funext s
  show resume f (ensure rule e, s) = _
  unfold ensure
  split <;> rfl

theorem get_step (f : σ → σ → Except Error (σ × α)) :
    (get >>= fun s => step (f s)) = step fun s => f s s := rfl

theorem pure_eq_step (a : α) : (pure a : Action σ α) = step fun s => .ok (s, a) := rfl

theorem modify_eq_step (w : σ → σ) : modify w = step fun s => .ok (w s, ()) := rfl

/-- What is written before a step that cannot fail may be written with it. -/
theorem step_step (w : σ → σ) (g : σ → σ × α) :
    (step (fun s => .ok (w s, ())) >>= fun _ => step fun s => .ok (g s)) =
      step fun s => .ok (g (w s)) := rfl

theorem step_pure (f : σ → Except Error (σ × α)) (g : α → β) :
    (step f >>= fun a => pure (g a)) = step fun s => (f s).map fun (s', a) => (s', g a) := by
  funext s
  show resume (fun a => pure (g a)) ((step f).run s) = (step _).run s
  rw [run_step, run_step]
  cases f s <;> rfl

theorem ite_step (p : σ → Prop) [DecidablePred p] (f g : σ → Except Error (σ × α)) :
    (get >>= fun s => if p s then step f else step g) =
      step fun s => if p s then f s else g s := by
  funext s
  show ((if p s then step f else step g : Action σ α)).run s = (step _).run s
  rw [run_step]
  split <;> rfl

/-- A step on a part of the state is a step on the whole, where putting the part back changes
nothing. -/
theorem run_on_step {part : τ → σ} {put : σ → τ → τ} {t : τ} (back : put (part t) t = t)
    (f : σ → Except Error (σ × α)) :
    (on part put (step f)).run t =
      (step fun t => (f (part t)).map fun (s, a) => (put s t, a)).run t := by
  rw [run_on, run_step, run_step]
  cases f (part t) with
  | error e => exact congrArg (Prod.mk _) back
  | ok p => rfl

/-! ### Actions that call others -/

variable {view : σ → ρ} {x : Action σ α} {f : α → Action σ β}

theorem keepsOnFailure_pure (a : α) : (pure a : Action σ α).KeepsOnFailure view := nofun

theorem keepsOnFailure_fail (e : Error) : (fail e : Action σ α).KeepsOnFailure view := by
  intro s e s' failed
  cases failed
  rfl

theorem always_ofExcept (r : Except Error α) :
    Always (fun s s' => view s' = view s) (ofExcept r : Action σ α) := fun _ => rfl

/-- After what touches nothing, a failure is a failure of what follows. -/
theorem KeepsOnFailure.bind (hx : Always (fun s s' => view s' = view s) x)
    (hf : ∀ a, (f a).KeepsOnFailure view) : (x >>= f).KeepsOnFailure view := by
  intro s e s' failed
  have same := hx s
  rcases run_bind_eq_error.mp failed with first | ⟨a, mid, ran, second⟩
  · rw [first] at same
    exact same
  · rw [ran] at same
    exact (hf a mid e s' second).trans same

/-- After what fails without a trace, there is no failure. -/
theorem KeepsOnFailure.bind_ok (hx : x.KeepsOnFailure view)
    (hf : ∀ s a s', x.run s = (.ok a, s') → ∃ b s'', (f a).run s' = (.ok b, s'')) :
    (x >>= f).KeepsOnFailure view := by
  intro s e s' failed
  rcases run_bind_eq_error.mp failed with first | ⟨a, mid, ran, second⟩
  · exact hx s e s' first
  · obtain ⟨b, last, through⟩ := hf s a mid ran
    rw [through] at second
    cases second

/-- What follows is only a result. -/
theorem KeepsOnFailure.map (hx : x.KeepsOnFailure view) (g : α → β) :
    (x >>= fun a => pure (g a)).KeepsOnFailure view :=
  hx.bind_ok fun _ a s' _ => ⟨g a, s', rfl⟩

end CaseRegistry.Action
