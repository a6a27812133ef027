import CaseRegistry.Proofs.Case.Confirmation

/-! Taking a confirmation back.

Where an item stood before its confirmation is nowhere written. Taking the confirmation back goes
by the review, which the confirmation leaves as it is: an accepted item stands accepted again, and
any other becomes a draft. For an item that follows the rules of its case, and is not both a draft
and accepted (`Item.IsPlain`), that is where it stood (`Item.restored`). Every item of every
case that can come about is such, whatever reviews and stamps it went through. So taking a
confirmation back at once leads to the very case of before, and the other protocol has nothing to
take back (`confirmation_undone`). -/
namespace CaseRegistry

namespace Item

variable {kind : ItemKind} {c : Case} {ctx : CaseContext} {op : CaseOperation} {item later : Item kind}
  {actor who : Identity} {mode other : SubmissionMode}

/-- No draft bears an accepted review. -/
def IsPlain (item : Item kind) : Prop := item.status = .draft → ¬item.IsAccepted

theorem isPlain_new (index : Nat) (submitter : Identity) (mode : SubmissionMode) (payload : kind.Payload) :
    (Item.new index submitter mode payload).IsPlain := by
  rintro _ ⟨_, hreview, _⟩
  cases hreview

/-- A draft comes of taking a confirmation back only where no acceptance is left. -/
theorem isPlain_takenBack (item : Item kind) :
    IsPlain { item with status := item.statusBeforeConfirmation, preConfirmedBy := none } := by
  intro draft accepted
  have accepted : item.IsAccepted := accepted
  simp [statusBeforeConfirmation_eq, accepted] at draft

theorem Becomes.isPlain (h : item.Becomes c op later) (hi : item.IsPlain) : later.IsPlain := by
  cases h with
  | same | moved | restricted | delivered => exact hi
  | performed _ performed =>
    cases performed with
    | requestReview | accept | reject | preAcknowledge => nofun
    | prePublishOrAcknowledge =>
      intro draft
      dsimp only at draft
      split at draft <;> cases draft
    | cancelPrePublishOrAcknowledge | cancelPreAcknowledge => exact isPlain_takenBack item
  | stamped stamped =>
    cases stamped with
    | same | fees => exact hi
    | added =>
      intro draft
      rcases item.statusOnceAdded_cases with standing | standing <;> cases standing.symm.trans draft
    | acknowledged => nofun

/-- What may be confirmed stands where its review says, and nobody has confirmed it. -/
theorem restored (rules : item.Governed c) (plain : item.IsPlain) (confirmable : item.IsConfirmable ctx) :
    { item with status := item.statusBeforeConfirmation, preConfirmedBy := none } = item := by
  have standing : item.statusBeforeConfirmation = item.status := by
    rw [statusBeforeConfirmation_eq]
    rcases confirmable.cleared with accepted | ⟨draft, _⟩
    · rw [if_pos (rules.accepted accepted), accepted]
    · rw [if_neg (plain draft), draft]
  have before : ¬(item.status = .published ∨ item.status = .acknowledged) := by
    rcases confirmable.cleared with standing | ⟨standing, _⟩ <;> simp [standing]
  rw [standing, ← (rules.unconfirmed before).1]

/-- Whoever handles an item may take its confirmation back, and nothing is left of it then. -/
theorem Performed.undone (h : item.Performed ctx actor mode.confirmation later) (rules : item.Governed c)
    (plain : item.IsPlain) (handled : item.IsHandledBy who ctx) :
    later.Performed ctx who mode.cancellation item := by
  cases mode with
  | direct =>
    cases h with
    | prePublishOrAcknowledge direct _ confirmable =>
      have undone : Performed { item with
          status := if actor = ctx.owner then .acknowledged else .published
          preConfirmedBy := some actor } ctx who .cancelPrePublishOrAcknowledge _ :=
        .cancelPrePublishOrAcknowledge direct handled confirmable.draft (by dsimp only; split <;> simp)
      exact restored rules plain confirmable ▸ undone
  | delegated =>
    cases h with
    | preAcknowledge delegated _ confirmable =>
      have undone : Performed { item with status := .acknowledged, preConfirmedBy := some actor } ctx who
          .cancelPreAcknowledge _ :=
        .cancelPreAcknowledge delegated handled confirmable.draft (.inr rfl)
      exact restored rules plain confirmable ▸ undone

theorem Performed.mode_of_cancellation (h : item.Performed ctx actor mode.cancellation later) :
    item.mode = mode := by
  cases mode with
  | direct => cases h with | cancelPrePublishOrAcknowledge direct => exact direct
  | delegated => cases h with | cancelPreAcknowledge delegated => exact delegated

end Item

namespace Case

variable {c : Case} {kind : ItemKind} {key : kind.Key} {mode : SubmissionMode} {actor : Identity}

/-- Taking back what was confirmed just before leads to the case as it was, and taking it back under
the other protocol fails and changes nothing. -/
theorem confirmation_undone (h : c.Reachable)
    (confirmed : c.Succeeds (.performOnItem kind mode.confirmation actor key)) :
    let later := c.after [.performOnItem kind mode.confirmation actor key]
    ∃ item, (c.collection kind).get? key = some item ∧
      (∀ who, who = c.owner ∨ who = item.submitter →
        later.Succeeds (.performOnItem kind mode.cancellation who key) ∧
          later.after [.performOnItem kind mode.cancellation who key] = c) ∧
      ∀ other, other ≠ mode → ∀ who,
        ¬later.Succeeds (.performOnItem kind other.cancellation who key) ∧
          later.after [.performOnItem kind other.cancellation who key] = later := by
  intro later
  obtain ⟨editable, item, next, found, performed⟩ := succeeds_performOnItem.mp confirmed
  have mem := Collection.mem_of_get? found
  have sameKey : next.key = key := performed.inPlace.key.trans (Collection.key_of_get? found)
  have confirmedCase : later = c.withItems kind ((c.collection kind).put key next) :=
    after_performOnItem editable found performed
  have foundNext : (later.collection kind).get? key = some next := by
    rw [confirmedCase, collection_withItems]
    exact Collection.get?_put_self found performed.inPlace.key
  have stillEditable : later.IsEditable := confirmedCase ▸ editable
  have sameContext : later.context = c.context := by rw [confirmedCase]; rfl
  refine ⟨item, found, fun who handled => ?_, fun other differs who => ?_⟩
  · have undone : next.Performed later.context who mode.cancellation item := by
      rw [sameContext]
      exact performed.undone (h.isGoverned kind item mem)
        (h.of_item Item.isPlain_new Item.Becomes.isPlain kind item mem) handled
    refine ⟨succeeds_performOnItem.mpr ⟨stillEditable, next, item, foundNext, undone⟩, ?_⟩
    rw [after_performOnItem stillEditable foundNext undone, confirmedCase, collection_withItems,
      withItems_withItems, Collection.put_put sameKey, Collection.put_get? found, withItems_collection]
  · have refused : later.Refuses kind other.cancellation key :=
      refuses_of_found foundNext fun who last cancelled => by
        have confirmedMode := (Item.performed_confirmation.mp ⟨next, performed⟩).1
        have keptMode : next.mode = item.mode := performed.continues.mode
        exact differs (cancelled.mode_of_cancellation.symm.trans (keptMode.trans confirmedMode))
    exact ⟨refused who, apply_of_not_succeeds (refused who)⟩

/-- The notary takes the heir's confirmation of the accepted letter back, and the letter stands
accepted again. -/
theorem undone_letter :
    ∃ made, Case.openNew Sample.estate .epoch = .ok made ∧
      let c := made.after Sample.letterAccepted
      let later := c.after [.performOnItem .metadata .prePublishOrAcknowledge ⟨"heir"⟩ "letter"]
      c.Reachable ∧
        c.Succeeds (.performOnItem .metadata .prePublishOrAcknowledge ⟨"heir"⟩ "letter") ∧
        later ≠ c ∧
        later.Succeeds (.performOnItem .metadata .cancelPrePublishOrAcknowledge ⟨"notary"⟩ "letter") ∧
        later.after [.performOnItem .metadata .cancelPrePublishOrAcknowledge ⟨"notary"⟩ "letter"] = c ∧
        ¬later.Succeeds (.performOnItem .metadata .cancelPreAcknowledge ⟨"notary"⟩ "letter") := by
  refine ⟨_, rfl, ?_⟩
  intro c later
  have reachable : c.Reachable :=
    (@Case.Reachable.openNew Sample.estate .epoch _ rfl).after Sample.letterAccepted
  have confirmed : c.Succeeds (.performOnItem .metadata .prePublishOrAcknowledge ⟨"heir"⟩ "letter") := by
    decide +kernel +zetaReduce
  obtain ⟨item, _, undone, refused⟩ :=
    @confirmation_undone c .metadata "letter" .direct ⟨"heir"⟩ reachable confirmed
  obtain ⟨success, restored⟩ := undone ⟨"notary"⟩ (.inl rfl)
  exact ⟨reachable, confirmed, by decide +kernel +zetaReduce, success, restored,
    (refused .delegated nofun ⟨"notary"⟩).1⟩

end Case
end CaseRegistry
