import CaseRegistry.Error

/-!
Actions: what changes a state and may fail on the way. What was done to the state before a failure
stays done, so the state after an action is there whatever its result; an action that keeps the
state on failure is atomic, and that is a fact to prove.
-/
namespace CaseRegistry

/-- From a state to a result and the state after. -/
def Action (σ α : Type) : Type := σ → Except Error α × σ

namespace Action

variable {σ τ α β : Type}

def run (a : Action σ α) (s : σ) : Except Error α × σ := a s

/-- Goes on from a result, unless it is a failure. -/
def resume (f : α → Action σ β) : Except Error α × σ → Except Error β × σ
  | (.ok a, s) => f a s
  | (.error e, s) => (.error e, s)

instance : Monad (Action σ) where
  pure a := fun s => (.ok a, s)
  bind x f := fun s => resume f (x s)

/-- Gives up with an error. -/
def fail (e : Error) : Action σ α := fun s => (.error e, s)

/-- A computation that may fail and has no state. -/
def ofExcept (x : Except Error α) : Action σ α := fun s => (x, s)

/-- The state. -/
def get : Action σ σ := fun s => (.ok s, s)

def modify (f : σ → σ) : Action σ Unit := fun s => (.ok (), f s)

/-- A step that gives the new state at once or fails and leaves the state. -/
def step (f : σ → Except Error (σ × α)) : Action σ α := fun s =>
  match f s with
  | .ok (s', a) => (.ok a, s')
  | .error e => (.error e, s)

/-- An action on a part of the state. -/
def on (part : τ → σ) (put : σ → τ → τ) (a : Action σ α) : Action τ α := fun t =>
  let (result, s) := a (part t)
  (result, put s t)

/-- The result of an action, failures included, as a value. -/
def attempt (a : Action σ α) : Action σ (Except Error α) := fun s =>
  let (result, s') := a s
  (.ok result, s')

/-! ### Running actions -/

@[simp] theorem run_pure (a : α) (s : σ) : (pure a : Action σ α).run s = (.ok a, s) := rfl

theorem run_bind (x : Action σ α) (f : α → Action σ β) (s : σ) :
    (x >>= f).run s = resume f (x.run s) := rfl

theorem run_bind_of_ok {x : Action σ α} {s s' : σ} {a : α} (h : x.run s = (.ok a, s'))
    (f : α → Action σ β) : (x >>= f).run s = (f a).run s' := by
  rw [run_bind, h]
  rfl

theorem run_bind_of_error {x : Action σ α} {s s' : σ} {e : Error} (h : x.run s = (.error e, s'))
    (f : α → Action σ β) : (x >>= f).run s = (.error e, s') := by
  rw [run_bind, h]
  rfl

/-- A run of two actions that comes through is a run of each. -/
theorem run_bind_eq_ok {x : Action σ α} {f : α → Action σ β} {s s'' : σ} {b : β} :
    (x >>= f).run s = (.ok b, s'') ↔
      ∃ a s', x.run s = (.ok a, s') ∧ (f a).run s' = (.ok b, s'') := by
  rw [run_bind]
  obtain ⟨_ | a, s'⟩ := x.run s
  · exact ⟨nofun, nofun⟩
  · constructor
    · exact fun h => ⟨a, s', rfl, h⟩
    · rintro ⟨_, _, h, hf⟩
      cases h
      exact hf

/-- A run of two actions that fails is a run in which the first fails or, after it, the second. -/
theorem run_bind_eq_error {x : Action σ α} {f : α → Action σ β} {s s'' : σ} {e : Error} :
    (x >>= f).run s = (.error e, s'') ↔
      x.run s = (.error e, s'') ∨ ∃ a s', x.run s = (.ok a, s') ∧ (f a).run s' = (.error e, s'') := by
  rw [run_bind]
  obtain ⟨_ | a, s'⟩ := x.run s
  · constructor
    · intro h
      cases h
      exact .inl rfl
    · rintro (h | ⟨_, _, h, _⟩)
      · cases h
        rfl
      · cases h
  · constructor
    · exact fun h => .inr ⟨a, s', rfl, h⟩
    · rintro (h | ⟨_, _, h, hf⟩)
      · cases h
      · cases h
        exact hf

theorem run_bind_pure (x : Action σ α) (f : α → β) (s : σ) :
    (x >>= fun a => pure (f a)).run s = ((x.run s).1.map f, (x.run s).2) := by
  rw [run_bind]
  obtain ⟨_ | _, _⟩ := x.run s <;> rfl

@[simp] theorem run_fail (e : Error) (s : σ) : (fail e : Action σ α).run s = (.error e, s) := rfl

@[simp] theorem run_ofExcept (x : Except Error α) (s : σ) :
    (ofExcept x : Action σ α).run s = (x, s) := rfl

@[simp] theorem run_get (s : σ) : (get : Action σ σ).run s = (.ok s, s) := rfl

@[simp] theorem run_modify (f : σ → σ) (s : σ) : (modify f).run s = (.ok (), f s) := rfl

theorem run_step (f : σ → Except Error (σ × α)) (s : σ) :
    (step f).run s = match f s with
      | .ok (s', a) => (.ok a, s')
      | .error e => (.error e, s) := rfl

@[simp] theorem run_on (part : τ → σ) (put : σ → τ → τ) (a : Action σ α) (t : τ) :
    (on part put a).run t = ((a.run (part t)).1, put (a.run (part t)).2 t) := rfl

@[simp] theorem run_attempt (a : Action σ α) (s : σ) :
    a.attempt.run s = (.ok (a.run s).1, (a.run s).2) := rfl

/-- An action leads every state to one that is related to it, whatever comes of it. -/
def Always (R : σ → σ → Prop) (a : Action σ α) : Prop := ∀ s, R s (a.run s).2

theorem Always.bind {R : σ → σ → Prop} (trans : ∀ {s s' s'' : σ}, R s s' → R s' s'' → R s s'')
    {x : Action σ α} {f : α → Action σ β} (hx : Always R x) (hf : ∀ a, Always R (f a)) :
    Always R (x >>= f) := by
  intro s
  have first := hx s
  rw [run_bind]
  obtain ⟨_ | a, s', ran⟩ : ∃ result s', x.run s = (result, s') := ⟨_, _, rfl⟩
  · rw [ran] at first ⊢
    exact first
  · rw [ran] at first ⊢
    exact trans first (hf a s')

/-- A run from its result. -/
theorem eq_of_fst {p : Except Error α × σ} {result : Except Error α} (h : p.1 = result) :
    p = (result, p.2) := Prod.ext h rfl

theorem resume_pure (p : Except Error α × σ) : resume (pure : α → Action σ α) p = p := by
  obtain ⟨_ | _, _⟩ := p <;> rfl

theorem resume_resume {γ : Type} (f : α → Action σ β) (g : β → Action σ γ)
    (p : Except Error α × σ) :
    resume g (resume f p) = resume (fun a => f a >>= g) p := by
  obtain ⟨_ | _, _⟩ := p <;> rfl

instance : LawfulMonad (Action σ) :=
  LawfulMonad.mk' _ (fun x => funext fun s => resume_pure (x s)) (fun _ _ => rfl)
    (fun x f g => funext fun s => resume_resume f g (x s))

end Action
end CaseRegistry
