import CaseRegistry.Proofs.Sync.Shared

/-! What lasts while stores are shared.

Between the loading of a case and its saving anybody may save the case, so a saving may
undo what was saved meanwhile. `Shared.Coherent` is the invariant that says how far: a
case as the synchronizer saved it once goes on in the stored case, and in every copy that
was loaded since, unless a local call saved a copy across that saving (`Undisturbed`).
Each step of a local call keeps the invariant, so does each call of the synchronizer and
each change it makes. What a step does besides is told by `Evolves`, `Proceeds` and
`Quiet`, each saying more than the one before. -/
namespace CaseRegistry.Shared

variable {s s' s'' : Shared} {id : CaseId} {v : Nat}

/-- No local call saved a copy of a case that it had loaded before the synchronizer saved the case
for the `v`-th time, after that. -/
def Undisturbed (s : Shared) (id : CaseId) (v : Nat) : Prop :=
  ∀ span ∈ s.spans, span.id = id → ¬(span.loaded < v ∧ v ≤ span.saved)

theorem Undisturbed.mono (h : s'.Undisturbed id v) (le : s.spans <+: s'.spans) : s.Undisturbed id v :=
  fun span hspan => h span (le.subset hspan)

/-- The stored case goes on from what the synchronizer has saved, undisturbed, and so does every
copy in hand from what was saved before it was loaded. -/
structure Coherent (s : Shared) : Prop where
  version : ∀ n copy, s.copies n = some copy → copy.version ≤ s.version copy.taken.id
  owner : ∀ n copy, s.copies n = some copy →
    s.memory.repository.ownerOf? copy.taken.id = some copy.taken.owner
  stored : ∀ id i saved, (s.stamped id)[i]? = some saved → s.Undisturbed id (i + 1) →
    ∀ c, s.memory.repository.find? id = some c → saved.Continues (¬·.IsDraft) c
  copies : ∀ id i saved, (s.stamped id)[i]? = some saved → s.Undisturbed id (i + 1) →
    ∀ n copy, s.copies n = some copy → copy.taken.id = id → i < copy.version →
      saved.Continues (¬·.IsDraft) copy.taken

theorem coherent_start (m : Memory) : (start m).Coherent where
  version _ _ held := absurd held.symm (Option.some_ne_none _)
  owner _ _ held := absurd held.symm (Option.some_ne_none _)
  stored _ _ _ saved := by cases saved
  copies _ _ _ saved := by cases saved

/-- What is true of any step of shared stores. -/
structure Evolves (s s' : Shared) : Prop where
  spans : s.spans <+: s'.spans
  stamped : ∀ id, s.stamped id <+: s'.stamped id
  coherent : s.Coherent → s'.Coherent
  owners : s.Coherent → s'.memory.repository.ownerOf? = s.memory.repository.ownerOf?

theorem Evolves.refl (s : Shared) : Evolves s s where
  spans := List.prefix_rfl
  stamped _ := List.prefix_rfl
  coherent h := h
  owners _ := rfl

theorem Evolves.trans (h : Evolves s s') (h' : Evolves s' s'') : Evolves s s'' where
  spans := h.spans.trans h'.spans
  stamped id := (h.stamped id).trans (h'.stamped id)
  coherent hc := h'.coherent (h.coherent hc)
  owners hc := (h'.owners (h.coherent hc)).trans (h.owners hc)

/-- A step that does not change the ledger either. -/
structure Proceeds (s s' : Shared) : Prop extends Evolves s s' where
  blocks : s'.memory.chain.blocks = s.memory.chain.blocks

theorem Proceeds.refl (s : Shared) : Proceeds s s := ⟨.refl s, rfl⟩

theorem Proceeds.trans (h : Proceeds s s') (h' : Proceeds s' s'') : Proceeds s s'' :=
  ⟨h.toEvolves.trans h'.toEvolves, h'.blocks.trans h.blocks⟩

/-- A step in which the synchronizer does not save a case either. -/
structure Quiet (s s' : Shared) : Prop extends Proceeds s s' where
  unsaved : s'.stamped = s.stamped

theorem Quiet.refl (s : Shared) : Quiet s s := ⟨.refl s, rfl⟩

theorem Quiet.trans (h : Quiet s s') (h' : Quiet s' s'') : Quiet s s'' :=
  ⟨h.toProceeds.trans h'.toProceeds, h'.unsaved.trans h.unsaved⟩

/-! ### Steps of local calls -/

theorem loadCopy_eq_some {copy : Copy} (h : s.loadCopy id = some copy) :
    ∃ c, s.memory.repository.find? id = some c ∧ copy = ⟨c, s.version id⟩ := by
  unfold loadCopy at h
  cases found : s.memory.repository.find? id with
  | none =>
    rw [Memory.run_getCase_unknown found] at h
    cases h
  | some c =>
    rw [Memory.run_getCase found] at h
    exact ⟨c, rfl, (Option.some.inj h).symm⟩

theorem copies_hold {call n : Nat} {copy : Option Copy} {x : Copy}
    (h : (s.hold call copy).copies n = some x) : copy = some x ∨ s.copies n = some x := by
  unfold hold at h
  dsimp only at h
  split at h
  · exact .inl h
  · exact .inr h

/-- A local call gives up its copy. -/
theorem quiet_release (s : Shared) (call : Nat) : Quiet s (s.hold call none) := by
  have held : ∀ n x, (s.hold call none).copies n = some x → s.copies n = some x := fun n x h =>
    (copies_hold h).resolve_left fun none_eq => absurd none_eq.symm (Option.some_ne_none x)
  exact {
    spans := List.prefix_rfl
    stamped := fun _ => List.prefix_rfl
    coherent := fun h =>
      ⟨fun n x hx => h.version n x (held n x hx), fun n x hx => h.owner n x (held n x hx), h.stored,
        fun id i saved hs free n x hx => h.copies id i saved hs free n x (held n x hx)⟩
    owners := fun _ => rfl
    blocks := rfl
    unsaved := rfl }

/-- A local call that loads a case has all in its copy that the stored case has. -/
theorem quiet_load (s : Shared) (call : Nat) (id : CaseId) :
    Quiet s (s.hold call (s.loadCopy id)) where
  spans := List.prefix_rfl
  stamped _ := List.prefix_rfl
  coherent h := by
    have held : ∀ n x, (s.hold call (s.loadCopy id)).copies n = some x → s.copies n = some x ∨
        s.memory.repository.find? x.taken.id = some x.taken ∧ x.version = s.version x.taken.id := by
      intro n x hx
      rcases copies_hold hx with hx | hx
      · obtain ⟨c, found, rfl⟩ := loadCopy_eq_some hx
        obtain rfl := Repository.id_of_find? found
        exact .inr ⟨found, rfl⟩
      · exact .inl hx
    refine ⟨fun n x hx => ?_, fun n x hx => ?_, h.stored, fun other i saved hs free n x hx same lt => ?_⟩
    · rcases held n x hx with hx | ⟨_, loaded⟩
      · exact h.version n x hx
      · exact loaded.le
    · rcases held n x hx with hx | ⟨found, _⟩
      · exact h.owner n x hx
      · exact Repository.ownerOf?_of_find? found
    · rcases held n x hx with hx | ⟨found, _⟩
      · exact h.copies other i saved hs free n x hx same lt
      · exact h.stored other i saved hs free _ (same ▸ found)
  owners _ := rfl
  blocks := rfl
  unsaved := rfl

theorem ownerOf?_save {r : Repository} {c : Case} (known : r.ownerOf? c.id = some c.owner)
    (changes : ChangeSet) : (r.save c changes).ownerOf? = r.ownerOf? := by
  funext id
  unfold Repository.ownerOf?
  rw [Repository.find?_save]
  split
  · next same => rw [← same]; exact known.symm
  · rfl

theorem lt_version {i : Nat} {saved : Case} (h : (s.stamped id)[i]? = some saved) : i < s.version id :=
  (List.getElem?_eq_some_iff.mp h).1

/-- A local call that saves its copy disturbs what the synchronizer saved since the loading, and
goes on from all that it saved before. -/
theorem quiet_putBack {n : Nat} {copy : Copy} (held : s.copies n = some copy) (change : LocalChange) :
    Quiet s (s.putBack copy (change.change.run copy.taken)) := by
  have leads := (change.leads copy.taken).continues
  unfold putBack
  obtain ⟨_ | changes, c, ran⟩ : ∃ result c, change.change.run copy.taken = (result, c) := ⟨_, _, rfl⟩
  · rw [ran]
    exact .refl s
  · rw [ran] at leads ⊢
    show Quiet s { s with
      memory := { s.memory with repository := s.memory.repository.save c changes }
      spans := s.spans ++ [⟨copy.taken.id, copy.version, s.version copy.taken.id⟩] }
    have owners : s.Coherent → (s.memory.repository.save c changes).ownerOf? = s.memory.repository.ownerOf? :=
      fun h => ownerOf?_save (by rw [leads.id, leads.owner]; exact h.owner n copy held) changes
    exact {
      spans := List.prefix_append _ _
      stamped := fun _ => List.prefix_rfl
      coherent := fun h => {
        version := h.version
        owner := fun n x hx => (congrFun (owners h) _).trans (h.owner n x hx)
        stored := fun id i saved hs free d found => by
          replace found : (s.memory.repository.save c changes).find? id = some d := found
          rw [Repository.find?_save] at found
          split at found
          · next same =>
            obtain rfl := Option.some.inj found
            have mine : copy.taken.id = id := leads.id.symm.trans same
            -- the span of this saving ends after the `i`-th one, so it has to begin after it
            have since : i < copy.version := by
              refine Nat.not_le.mp fun le => free _ (List.mem_append_right _ List.mem_cons_self) mine
                ⟨Nat.lt_succ_of_le le, ?_⟩
              show i + 1 ≤ s.version copy.taken.id
              rw [mine]
              exact lt_version hs
            have taken := h.copies id i saved hs (free.mono (List.prefix_append _ _)) n copy held mine since
            exact taken.trans_confirmed leads
          · exact h.stored id i saved hs (free.mono (List.prefix_append _ _)) d found
        copies := fun id i saved hs free => h.copies id i saved hs (free.mono (List.prefix_append _ _)) }
      owners := owners
      blocks := rfl
      unsaved := rfl }

theorem quiet_localStep (s : Shared) (step : LocalStep) : Quiet s (s.localStep step) := by
  cases step with
  | load call id => exact quiet_load s call id
  | save call change =>
    unfold localStep
    dsimp only
    split
    · next copy held => exact (quiet_putBack held change).trans (quiet_release _ call)
    · exact .refl s

theorem quiet_localSteps (s : Shared) (steps : List LocalStep) : Quiet s (steps.foldl localStep s) := by
  induction steps generalizing s with
  | nil => exact .refl s
  | cons step rest ih => exact (quiet_localStep s step).trans (ih _)

theorem quiet_turns (s : Shared) (turns : List Turn) : Quiet s { s with turns } where
  spans := List.prefix_rfl
  stamped _ := List.prefix_rfl
  coherent h := ⟨h.version, h.owner, h.stored, h.copies⟩
  owners _ := rfl
  blocks := rfl
  unsaved := rfl

/-! ### Calls of the synchronizer -/

theorem quiet_others (s : Shared) : Quiet s (others.run s).2 := by
  show Quiet s (others s).2
  unfold others
  split
  · exact .refl s
  · next turn rest _ => exact (quiet_turns s rest).trans (quiet_localSteps _ turn.steps)

/-- A call fails at its turn, or it is done to the stores as the others left them. -/
theorem call_cases {α : Type} (a : Action Memory α) (s : Shared) :
    (∃ e, ((call a).run s).1 = .error e ∧ Quiet s ((call a).run s).2) ∨
    ∃ s₁, Quiet s s₁ ∧
      (call a).run s = ((a.run s₁.memory).1, { s₁ with memory := (a.run s₁.memory).2 }) := by
  have quiet := quiet_others s
  unfold call
  rw [Action.run_bind]
  obtain ⟨e | _, s₁, ran⟩ : ∃ result s₁, others.run s = (result, s₁) := ⟨_, _, rfl⟩
  · rw [ran] at quiet ⊢
    exact .inl ⟨e, rfl, quiet⟩
  · rw [ran] at quiet ⊢
    exact .inr ⟨s₁, quiet, rfl⟩

theorem quiet_memory (s : Shared) {m : Memory} (repository : m.repository = s.memory.repository)
    (blocks : m.chain.blocks = s.memory.chain.blocks) : Quiet s { s with memory := m } where
  spans := List.prefix_rfl
  stamped _ := List.prefix_rfl
  coherent h := by
    refine ⟨h.version, ?_, ?_, h.copies⟩
    · show ∀ n copy, s.copies n = some copy → m.repository.ownerOf? _ = _
      rw [repository]
      exact h.owner
    · show ∀ id i saved, (s.stamped id)[i]? = some saved → s.Undisturbed id (i + 1) →
        ∀ c, m.repository.find? id = some c → _
      rw [repository]
      exact h.stored
  owners _ := congrArg Repository.ownerOf? repository
  blocks := blocks
  unsaved := rfl

/-- A call that leaves the cases and the ledger is quiet. -/
theorem quiet_call {α : Type} {a : Action Memory α}
    (ha : ∀ m, (a.run m).2.repository = m.repository ∧ (a.run m).2.chain.blocks = m.chain.blocks) :
    Action.Always Quiet (call a) := by
  intro s
  rcases call_cases a s with ⟨_, _, quiet⟩ | ⟨s₁, quiet, ran⟩
  · exact quiet
  · rw [ran]
    exact quiet.trans (quiet_memory s₁ (ha _).1 (ha _).2)

theorem quiet_findCase (id : CaseId) : Action.Always Quiet (backend.findCase id) :=
  quiet_call fun _ => ⟨rfl, rfl⟩

theorem findCase_ok {found : Option Case} (h : (backend.findCase id).run s = (.ok found, s')) :
    found = s'.memory.repository.find? id := by
  rcases call_cases (Memory.backend.findCase id) s with ⟨e, failed, _⟩ | ⟨s₁, _, ran⟩
  · cases failed.symm.trans (congrArg Prod.fst h)
  · obtain ⟨hfound, rfl⟩ := Prod.mk.inj (h.symm.trans ran)
    exact Except.ok.inj hfound

theorem quiet_getCase (id : CaseId) : Action.Always Quiet (backend.getCase id) := by
  refine Action.Always.bind (R := Quiet) Quiet.trans (quiet_findCase id) fun found => ?_
  cases found with
  | none => exact fun s => .refl s
  | some c => exact fun s => .refl s

theorem getCase_ok {c : Case} (h : (backend.getCase id).run s = (.ok c, s')) :
    s'.memory.repository.find? id = some c := by
  obtain ⟨found, s₁, ran, h⟩ := Action.run_bind_eq_ok.mp h
  cases found with
  | none => cases (Prod.mk.inj h).1
  | some d =>
    obtain ⟨hc, rfl⟩ := Prod.mk.inj h
    rw [← findCase_ok ran, Except.ok.inj hc]

theorem quiet_fetchBlock (height : Nat) : Action.Always Quiet (backend.fetchBlock height) := by
  refine quiet_call fun m => ?_
  rcases Nat.lt_or_ge m.chain.head height with above | le
  · obtain ⟨e, failed⟩ := Memory.run_fetchBlock_above above
    rw [failed]
    exact ⟨rfl, rfl⟩
  · rw [Memory.run_fetchBlock ⟨"", ⟨""⟩, 0⟩ le]
    exact ⟨rfl, rfl⟩

theorem fetchBlock_ok {height : Nat} {block : LedgerBlock}
    (h : (backend.fetchBlock height).run s = (.ok block, s')) :
    block = s.memory.chain.blockAt height := by
  rcases call_cases (Memory.backend.fetchBlock height) s with ⟨e, failed, _⟩ | ⟨s₁, quiet, ran⟩
  · cases failed.symm.trans (congrArg Prod.fst h)
  · have served := (congrArg Prod.fst h).symm.trans (congrArg Prod.fst ran)
    rcases Nat.lt_or_ge s₁.memory.chain.head height with above | le
    · obtain ⟨e, failed⟩ := Memory.run_fetchBlock_above above
      rw [failed] at served
      cases served
    · rw [Memory.run_fetchBlock ⟨"", ⟨""⟩, 0⟩ le] at served
      rw [Except.ok.inj served, Chain.blockAt_congr quiet.blocks]

/-! ### Changes made by the synchronizer -/

/-- The stores after the synchronizer has saved a case. -/
def saved (s : Shared) (c : Case) (changes : ChangeSet) : Shared :=
  note c { s with memory := { s.memory with repository := s.memory.repository.save c changes } }

theorem stamped_le_saved (s : Shared) (c : Case) (changes : ChangeSet) (id : CaseId) :
    s.stamped id <+: (s.saved c changes).stamped id := by
  show s.stamped id <+: if id = c.id then s.stamped id ++ [c] else s.stamped id
  split
  · exact List.prefix_append _ _
  · exact List.prefix_rfl

/-- What is noted of a case after a saving was noted before, or is what was saved. -/
theorem stamped_saved_eq_some {c saved : Case} {changes : ChangeSet} {i : Nat}
    (h : ((s.saved c changes).stamped id)[i]? = some saved) :
    (s.stamped id)[i]? = some saved ∨ id = c.id ∧ i = s.version id ∧ saved = c := by
  replace h : (if id = c.id then s.stamped id ++ [c] else s.stamped id)[i]? = some saved := h
  split at h
  · next same =>
    rcases Nat.lt_or_ge i (s.stamped id).length with lt | le
    · rw [List.getElem?_append_left lt] at h
      exact .inl h
    · rw [List.getElem?_append_right le, List.getElem?_singleton] at h
      split at h
      · next zero =>
        exact .inr ⟨same, Nat.le_antisymm (Nat.sub_eq_zero_iff_le.mp zero) le, (Option.some.inj h).symm⟩
      · cases h
  · exact .inl h

theorem saveCase_cases (c : Case) (changes : ChangeSet) (s : Shared) :
    (∃ e, ((backend.saveCase c changes).run s).1 = .error e ∧
      Quiet s ((backend.saveCase c changes).run s).2) ∨
    ∃ s₁, Quiet s s₁ ∧ (backend.saveCase c changes).run s = (.ok (), s₁.saved c changes) := by
  have two : backend.saveCase c changes =
      call (Memory.backend.saveCase c changes) >>= fun _ => Action.modify (note c) := rfl
  rcases call_cases (Memory.backend.saveCase c changes) s with ⟨e, failed, quiet⟩ | ⟨s₁, quiet, ran⟩
  · left
    rw [two, Action.run_bind_of_error (Action.eq_of_fst failed)]
    exact ⟨e, rfl, quiet⟩
  · exact .inr ⟨s₁, quiet, Action.run_bind_of_ok ran _⟩

/-- The synchronizer loaded a case, changed it and saved it, the others being at work around both. -/
inductive Saves (id : CaseId) (change : Action Case ChangeSet) (s : Shared) : Shared → Prop where
  | save {s₁ s₂ : Shared} {c c' : Case} {changes : ChangeSet} (before : Quiet s s₁)
      (loaded : s₁.memory.repository.find? id = some c) (changed : change.run c = (.ok changes, c'))
      (between : Quiet s₁ s₂) : Saves id change s (s₂.saved c' changes)

theorem mutate_cases (id : CaseId) (change : Action Case ChangeSet) (s : Shared) :
    (∃ e, ((backend.mutate id change).run s).1 = .error e ∧ Quiet s ((backend.mutate id change).run s).2) ∨
    ∃ c, ((backend.mutate id change).run s).1 = .ok c ∧
      Saves id change s ((backend.mutate id change).run s).2 := by
  have before := quiet_getCase id s
  unfold Backend.mutate
  obtain ⟨e | c, s₁, ran⟩ : ∃ result s₁, (backend.getCase id).run s = (result, s₁) := ⟨_, _, rfl⟩
  · rw [Action.run_bind_of_error ran]
    rw [ran] at before
    exact .inl ⟨e, rfl, before⟩
  · rw [Action.run_bind_of_ok ran]
    rw [ran] at before
    obtain ⟨e | changes, c', changed⟩ : ∃ result c', change.run c = (result, c') := ⟨_, _, rfl⟩
    · rw [changed]
      exact .inl ⟨e, rfl, before⟩
    · rw [changed]
      unfold Backend.commit
      rcases saveCase_cases c' changes s₁ with ⟨e, failed, between⟩ | ⟨s₂, between, saved⟩
      · rw [Action.run_bind_of_error (Action.eq_of_fst failed)]
        exact .inl ⟨e, rfl, before.trans between⟩
      · rw [Action.run_bind_of_ok saved]
        exact .inr ⟨c', rfl, .save before (getCase_ok ran) changed between⟩

namespace Saves

variable {change : Action Case ChangeSet}

/-- What the synchronizer saves is a changed case, and nothing is noted of other cases. -/
theorem stamped_eq (h : Saves id change s s')
    (same : ∀ c changes c', change.run c = (.ok changes, c') → c'.id = c.id) :
    (∃ c changes c', change.run c = (.ok changes, c') ∧ s'.stamped id = s.stamped id ++ [c']) ∧
      ∀ other ≠ id, s'.stamped other = s.stamped other := by
  obtain @⟨s₁, s₂, c, c', changes, before, loaded, changed, between⟩ := h
  have hid : c'.id = id := (same c changes c' changed).trans (Repository.id_of_find? loaded)
  have unsaved : s₂.stamped = s.stamped := between.unsaved.trans before.unsaved
  refine ⟨⟨c, changes, c', changed, ?_⟩, fun other ne => ?_⟩
  · show (if id = c'.id then s₂.stamped id ++ [c'] else s₂.stamped id) = _
    rw [if_pos hid.symm, unsaved]
  · show (if other = c'.id then s₂.stamped other ++ [c'] else s₂.stamped other) = _
    rw [if_neg (hid ▸ ne), unsaved]

/-- A change that the synchronizer makes goes on from what it saved before, since the copy it
changes is the stored case of a moment ago. -/
theorem proceeds (h : Saves id change s s')
    (continues : ∀ c changes c', change.run c = (.ok changes, c') → c.Continues (¬·.IsDraft) c') :
    Proceeds s s' := by
  obtain @⟨s₁, s₂, c, c', changes, before, loaded, changed, between⟩ := h
  have goesOn := continues c changes c' changed
  have hid : c'.id = id := goesOn.id.trans (Repository.id_of_find? loaded)
  have owners : s₁.Coherent →
      (s₂.memory.repository.save c' changes).ownerOf? = s₂.memory.repository.ownerOf? := by
    intro h
    refine ownerOf?_save ?_ changes
    rw [between.owners h, hid, goesOn.owner]
    exact Repository.ownerOf?_of_find? loaded
  have last : Proceeds s₁ (s₂.saved c' changes) := {
    spans := between.spans
    stamped := fun other => (between.stamped other).trans (stamped_le_saved s₂ c' changes other)
    coherent := fun h₁ => by
      have h₂ := between.coherent h₁
      refine ⟨fun n x hx => ?_, fun n x hx => ?_, fun other i saved hs free d found => ?_,
        fun other i saved hs free n x hx same lt => ?_⟩
      · exact (h₂.version n x hx).trans (stamped_le_saved s₂ c' changes _).length_le
      · exact (congrFun (owners h₁) _).trans (h₂.owner n x hx)
      · replace found : (s₂.memory.repository.save c' changes).find? other = some d := found
        rw [Repository.find?_save] at found
        rcases stamped_saved_eq_some hs with old | ⟨mine, -, rfl⟩
        · split at found
          · next same =>
            obtain rfl := Option.some.inj found
            rw [between.unsaved] at old
            obtain rfl : id = other := hid.symm.trans same
            exact (h₁.stored id i saved old (free.mono between.spans) c loaded).trans_confirmed goesOn
          · exact h₂.stored other i saved old free d found
        · rw [if_pos mine.symm] at found
          exact Option.some.inj found ▸ .refl saved
      · rcases stamped_saved_eq_some hs with old | ⟨-, rfl, -⟩
        · exact h₂.copies other i saved old free n x hx same lt
        · exact absurd (same ▸ h₂.version n x hx) (Nat.not_le.mpr lt)
    owners := fun h₁ => (owners h₁).trans (between.owners h₁)
    blocks := between.blocks }
  exact before.toProceeds.trans last

end Saves
end CaseRegistry.Shared
