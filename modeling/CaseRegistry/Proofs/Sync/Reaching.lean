import CaseRegistry.Proofs.Sync.Retry

/-! How far following the ledger gets.

Following events goes on to the first one that is refused. `Repository.Reaches` says how
far that is and what the stored cases are then. Both are determined (`Reaches.unique`),
it makes no difference whether some first events were followed before, all of them
(`Reaches.trans`) or as far as it went (`Reaches.again`), and cases that have followed
events once reach the end of them a second time unchanged (`Took.reaches`). A cycle
reaches as far as its events allow, and fails if that is not the end
(`syncToHead_reaches`). -/
namespace CaseRegistry

namespace Repository

variable {node : Identity} {r r₁ r₂ : Repository} {events done done' : List LedgerEvent}

/-- The same cases are stored, and listed in the same order. -/
structure SameCases (r r' : Repository) : Prop where
  find? : ∀ id, r.find? id = r'.find? id
  ids : r.ids = r'.ids

theorem SameCases.refl (r : Repository) : r.SameCases r := ⟨fun _ => rfl, rfl⟩

theorem SameCases.trans (h : r.SameCases r₁) (h' : r₁.SameCases r₂) : r.SameCases r₂ :=
  ⟨fun id => (h.find? id).trans (h'.find? id), h.ids.trans h'.ids⟩

/-- The stored cases have come through events. -/
structure Took (node : Identity) (events : List LedgerEvent) (r r' : Repository) : Prop where
  admits : ∀ e ∈ events, r.Admits node e
  cases : ∀ id c, r.find? id = some c → ∃ c', c.followed node events = .ok c' ∧ r'.find? id = some c'
  ids : r'.ids = r.ids

/-- Following events comes through the first `done` of them; the next one, if there is one, is refused. -/
structure Reaches (node : Identity) (events done : List LedgerEvent) (r r' : Repository) : Prop where
  le : done <+: events
  took : r.Took node done r'
  stuck : ∀ e rest, events = done ++ e :: rest → ∃ error, r'.ruling node e.operation e.on = .refuse error

theorem Follows.took (h : r.Follows node events r₁) : r.Took node events r₁ := ⟨h.admits, h.cases, h.ids⟩

namespace Took

theorem unknown (h : r.Took node events r₁) {id : CaseId} (hn : r.find? id = none) :
    r₁.find? id = none := unknown_of_ids h.ids hn

theorem ownerOf?_eq (h : r.Took node events r₁) : r₁.ownerOf? = r.ownerOf? := by
  refine ownerOf?_congr h.ids fun id c found => ?_
  obtain ⟨c', hc, found'⟩ := h.cases id c found
  exact ⟨c', found', (Case.followed_continues hc).owner⟩

theorem sameCases (h : r.Took node events r₁) (h' : r.Took node events r₂) : r₁.SameCases r₂ where
  find? id := by
    cases found : r.find? id with
    | none => rw [h.unknown found, h'.unknown found]
    | some c =>
      obtain ⟨c₁, hc₁, found₁⟩ := h.cases id c found
      obtain ⟨c₂, hc₂, found₂⟩ := h'.cases id c found
      rw [found₁, found₂, Except.ok.inj (hc₁.symm.trans hc₂)]
  ids := h.ids.trans h'.ids.symm

/-- An event that can be read, and that every case comes through after those before it, is not
refused. -/
theorem not_refused (h : r.Took node done r₁) {e : LedgerEvent} (admits : r.Admits node e)
    (through : ∀ id c, r.find? id = some c → ∃ c', c.followed node (done ++ [e]) = .ok c')
    (error : Error) : r₁.ruling node e.operation e.on ≠ .refuse error := by
  intro refused
  rw [← admits_congr h.ownerOf?_eq] at admits
  obtain ⟨id, c₁, found₁, refuses⟩ := refused_by_case admits refused
  cases found : r.find? id with
  | none => cases found₁.symm.trans (h.unknown found)
  | some c =>
    obtain ⟨c', hc, found'⟩ := h.cases id c found
    obtain rfl : c₁ = c' := Option.some.inj (found₁.symm.trans found')
    obtain ⟨after, hafter⟩ := through id c found
    rw [c.followed_append, hc] at hafter
    exact refuses after hafter

/-- Cases that have come through events come through any of them once more, unchanged. -/
theorem again (h : r.Took node events r₁) (sub : done ⊆ events) : r₁.Took node done r₁ where
  admits e he := by
    rw [admits_congr h.ownerOf?_eq]
    exact h.admits e (sub he)
  cases id c₁ found₁ := by
    cases found : r.find? id with
    | none => cases found₁.symm.trans (h.unknown found)
    | some c =>
      obtain ⟨c', hc, found'⟩ := h.cases id c found
      obtain rfl : c₁ = c' := Option.some.inj (found₁.symm.trans found')
      exact ⟨c₁, Case.followed_again hc sub, found₁⟩
  ids := rfl

theorem reaches (h : r.Took node events r₁) : r.Reaches node events events r₁ where
  le := List.prefix_rfl
  took := h
  stuck e rest same := by simp at same

end Took

namespace Reaches

/-- The event that is refused is one that not all cases come through. -/
theorem not_past (h : r.Reaches node events done r₁) {e : LedgerEvent} {rest more : List LedgerEvent}
    (next : events = done ++ e :: rest) : ¬r.Took node (done ++ e :: more) r₂ := by
  intro took
  obtain ⟨error, refused⟩ := h.stuck e rest next
  refine h.took.not_refused (took.admits e (by simp)) (fun id c found => ?_) error refused
  obtain ⟨c', hc, _⟩ := took.cases id c found
  rw [show done ++ e :: more = (done ++ [e]) ++ more by simp, c.followed_append, bind_eq_ok] at hc
  obtain ⟨c'', hc'', _⟩ := hc
  exact ⟨c'', hc''⟩

/-- Where one goes on, the other does not stop. -/
theorem not_shorter (h : r.Reaches node events done r₁) (h' : r.Reaches node events done' r₂)
    (le : done <+: done') : done = done' := by
  obtain ⟨rest, rfl⟩ := le
  cases rest with
  | nil => exact (List.append_nil done).symm
  | cons e rest =>
    obtain ⟨later, rfl⟩ := h'.le
    have next : (done ++ e :: rest) ++ later = done ++ e :: (rest ++ later) := by simp
    exact absurd h'.took (h.not_past next)

/-- Events that all cases come through are followed to their end. -/
theorem complete (h : r.Reaches node events done r₁) {longer : List LedgerEvent}
    (took : r.Took node longer r₂) (le : events <+: longer) : done = events := by
  obtain ⟨rest, rfl⟩ := h.le
  obtain ⟨later, rfl⟩ := le
  cases rest with
  | nil => exact (List.append_nil done).symm
  | cons e rest =>
    rw [List.append_assoc, List.cons_append] at took
    exact absurd took (h.not_past rfl)

/-- How far following events gets is determined, and so are the cases then. -/
theorem unique (h : r.Reaches node events done r₁) (h' : r.Reaches node events done' r₂) :
    done = done' ∧ r₁.SameCases r₂ := by
  have same : done = done' := by
    rcases List.prefix_or_prefix_of_prefix h.le h'.le with le | le
    · exact h.not_shorter h' le
    · exact (h'.not_shorter h le).symm
  subst same
  exact ⟨rfl, h.took.sameCases h'.took⟩

/-- Events are followed to their end and then others. -/
theorem trans (h : r.Took node events r₁) {later : List LedgerEvent}
    (h' : r₁.Reaches node later done r₂) : r.Reaches node (events ++ later) (events ++ done) r₂ where
  le := (List.prefix_append_right_inj events).mpr h'.le
  took :=
    { admits := by
        intro e he
        rcases List.mem_append.mp he with he | he
        · exact h.admits e he
        · rw [← admits_congr h.ownerOf?_eq]
          exact h'.took.admits e he
      cases := by
        intro id c found
        obtain ⟨c₁, hc₁, found₁⟩ := h.cases id c found
        obtain ⟨c₂, hc₂, found₂⟩ := h'.took.cases id c₁ found₁
        refine ⟨c₂, ?_, found₂⟩
        rw [c.followed_append, hc₁]
        exact hc₂
      ids := h'.took.ids.trans h.ids }
  stuck e rest same := by
    rw [List.append_assoc, List.append_cancel_left_eq] at same
    exact h'.stuck e rest same

/-- Events are followed as far as it goes, and then once more along with others behind them. What was
followed the first time is absorbed. -/
theorem again (h : r.Reaches node events done r₁) {later : List LedgerEvent}
    (h' : r₁.Reaches node (events ++ later) done' r₂) : r.Reaches node (events ++ later) done' r₂ := by
  have owners := h.took.ownerOf?_eq
  have le : done <+: done' := by
    -- else the second time stops at an event that all cases have come through the first time
    rcases List.prefix_or_prefix_of_prefix (h.le.trans (List.prefix_append events later)) h'.le with le | le
    · exact le
    · obtain ⟨rest, rfl⟩ := le
      cases rest with
      | nil => simp
      | cons e rest =>
        obtain ⟨left, rfl⟩ := h.le
        have next : ((done' ++ e :: rest) ++ left) ++ later = done' ++ e :: (rest ++ (left ++ later)) := by
          simp
        have anew : r₁.Took node (done' ++ e :: rest) r₁ := h.took.again (List.Subset.refl _)
        exact absurd anew (h'.not_past next)
  refine ⟨h'.le, ⟨fun e he => ?_, fun id c found => ?_, h'.took.ids.trans h.took.ids⟩, h'.stuck⟩
  · rw [← admits_congr owners]
    exact h'.took.admits e he
  · obtain ⟨c₁, hc₁, found₁⟩ := h.took.cases id c found
    obtain ⟨c₂, hc₂, found₂⟩ := h'.took.cases id c₁ found₁
    exact ⟨c₂, by rw [← Case.followed_of_prefix hc₁ le, hc₂], found₂⟩

end Reaches

end Repository

namespace Memory

variable {config : SyncConfig} {m m' : Memory}

/-- A cycle follows the events ahead as far as that goes, and fails if that is not to their end. -/
theorem syncToHead_reaches {result : Except Error SyncOutcome} (le : m.startOf config ≤ m.chain.head)
    (ran : (backend.syncToHead config).run m = (result, m')) :
    ∃ done, m.repository.Reaches config.nodeOwner (m.eventsAhead config) done m'.repository ∧
      (result.isOk ↔ done = m.eventsAhead config) := by
  rcases Nat.eq_or_lt_of_le le with at_head | below
  · rw [syncToHead_at_head at_head] at ran
    obtain ⟨rfl, rfl⟩ := Prod.mk.inj ran
    have none : m.eventsAhead config = [] := by
      unfold eventsAhead
      rw [at_head, Nat.sub_self]
      rfl
    rw [none]
    exact ⟨[], (Repository.Follows.refl _).took.reaches, by simp [Except.isOk, Except.toBool]⟩
  · cases result with
    | ok outcome =>
      obtain ⟨_, _, _, r, rfl, rfl, rfl, rfl, follows, _⟩ := syncToHead_ok below ran
      exact ⟨_, follows.took.reaches, by simp [eventsAhead, Except.isOk, Except.toBool]⟩
    | error e =>
      obtain ⟨k, lt, before, op, after, r, split, rfl, follows, refused⟩ := syncToHead_error below ran
      obtain ⟨rest, ahead⟩ := eventsAhead_split lt split rfl
      refine ⟨_, ⟨⟨_, ahead.symm⟩, follows.took, fun e' rest' same => ?_⟩, ?_⟩
      · rw [ahead, List.append_cancel_left_eq] at same
        obtain ⟨rfl, _⟩ := List.cons.inj same
        exact ⟨e, refused⟩
      · rw [ahead]
        simp [Except.isOk, Except.toBool]

end Memory
end CaseRegistry
