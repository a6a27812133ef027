import CaseRegistry.Proofs.Case.Continuity

/-! The rule of four eyes.

An item follows its rules in a case (`Item.Governed`) if its mode, its review, its
confirmation here and the stamps of the ledger fit its status. A new item does, and so does
whatever an operation makes of one that does (`Item.Becomes.governed`), with the stamps of
the ledger coming in any order, so every item of every case that can come about does. An
accepted review is written by nobody but the owner (`Item.Becomes.isAccepted`), whose
acceptance is therefore behind every confirmation of what somebody else submitted. -/
namespace CaseRegistry

namespace Item

variable {kind : ItemKind} {c c' : Case} {op : CaseOperation} {item later : Item kind}

/-- The owner has accepted the item in its last review. -/
def IsAccepted (item : Item kind) : Prop := ∃ review ∈ item.review, review.decision = .accepted

instance (item : Item kind) : Decidable item.IsAccepted :=
  inferInstanceAs (Decidable (∃ _ ∈ item.review, _))

/-- The rules that an item follows in a case. -/
structure Governed (c : Case) (item : Item kind) : Prop where
  mode : item.mode = .direct ↔ c.IsParty item.submitter
  accepted : item.status = .reviewAccepted → item.IsAccepted
  rejected : item.status = .reviewRejected → ∃ reason, item.review = some ⟨.rejected, some reason⟩
  pending : item.status = .reviewPending → item.review = none
  /-- A confirmation is by the owner or the submitter, of an item of the owner or an accepted one. -/
  confirmed : ∀ who, item.preConfirmedBy = some who →
    (item.status = .published ∨ item.status = .acknowledged) ∧
      (who = c.owner ∨ who = item.submitter) ∧ (item.submitter = c.owner ∨ item.IsAccepted)
  added : item.addedOn.isSome → item.status = .published ∨ item.status = .acknowledged
  /-- Before the ledger takes an item in, only its submitter publishes it. -/
  published : item.addedOn = none → item.status = .published →
    item.mode = .direct ∧ item.submitter ≠ c.owner ∧ item.IsAccepted ∧
      item.preConfirmedBy = some item.submitter
  acknowledged : item.addedOn = none → item.status = .acknowledged →
    item.preConfirmedBy.isSome ∨ item.acknowledgedOn.isSome

/-- The rules are about the parties of the case. -/
theorem Governed.congr (h : item.Governed c) (owner : c'.owner = c.owner)
    (requester : c'.requester = c.requester) : item.Governed c' := by
  have party : ∀ who, c'.IsParty who ↔ c.IsParty who := fun who => by
    unfold Case.IsParty Case.requesterAddress
    rw [owner, requester]
  exact { h with
    mode := h.mode.trans (party _).symm
    confirmed := owner ▸ h.confirmed
    published := owner ▸ h.published }

/-- An item that is confirmed neither here nor by the ledger owes only what its review says. -/
theorem governed_of_unconfirmed (mode : item.mode = .direct ↔ c.IsParty item.submitter)
    (accepted : item.status = .reviewAccepted → item.IsAccepted)
    (rejected : item.status = .reviewRejected → ∃ reason, item.review = some ⟨.rejected, some reason⟩)
    (pending : item.status = .reviewPending → item.review = none)
    (before : ¬(item.status = .published ∨ item.status = .acknowledged))
    (unconfirmed : item.preConfirmedBy = none) (notAdded : item.addedOn = none) : item.Governed c where
  mode := mode
  accepted := accepted
  rejected := rejected
  pending := pending
  confirmed := by simp [unconfirmed]
  added := by simp [notAdded]
  published _ standing := absurd (.inl standing) before
  acknowledged _ standing := absurd (.inr standing) before

/-- An item that is published or acknowledged owes nothing to its review but by its confirmation. -/
theorem governed_of_confirmed (mode : item.mode = .direct ↔ c.IsParty item.submitter)
    (standing : item.status = .published ∨ item.status = .acknowledged)
    (confirmed : ∀ who, item.preConfirmedBy = some who →
      (who = c.owner ∨ who = item.submitter) ∧ (item.submitter = c.owner ∨ item.IsAccepted))
    (published : item.addedOn = none → item.status = .published →
      item.mode = .direct ∧ item.submitter ≠ c.owner ∧ item.IsAccepted ∧
        item.preConfirmedBy = some item.submitter)
    (acknowledged : item.addedOn = none → item.status = .acknowledged →
      item.preConfirmedBy.isSome ∨ item.acknowledgedOn.isSome) : item.Governed c where
  mode := mode
  accepted reviewed := by simp [reviewed] at standing
  rejected reviewed := by simp [reviewed] at standing
  pending reviewed := by simp [reviewed] at standing
  confirmed who hwho := ⟨standing, confirmed who hwho⟩
  added _ := standing
  published := published
  acknowledged := acknowledged

theorem governed_new (c : Case) (index : Nat) (submitter : Identity) (payload : kind.Payload) :
    (Item.new index submitter (c.submissionModeOf submitter) payload).Governed c := by
  refine governed_of_unconfirmed ?_ nofun nofun nofun (by simp [Item.new]) rfl rfl
  show c.submissionModeOf submitter = .direct ↔ c.IsParty submitter
  unfold Case.submissionModeOf
  split <;> simp [*]

/-- Before it is published or acknowledged an item is confirmed neither here nor by the ledger. -/
theorem Governed.unconfirmed (h : item.Governed c)
    (before : ¬(item.status = .published ∨ item.status = .acknowledged)) :
    item.preConfirmedBy = none ∧ item.addedOn = none := by
  constructor
  · by_contra confirmed
    obtain ⟨who, hwho⟩ := Option.ne_none_iff_exists'.mp confirmed
    exact before (h.confirmed who hwho).1
  · by_contra added
    exact before (h.added (Option.isSome_iff_ne_none.mpr added))

/-- What may be confirmed is the owner's or accepted. -/
theorem Governed.cleared (h : item.Governed c) (confirmable : item.IsConfirmable c.context) :
    item.submitter = c.owner ∨ item.IsAccepted := by
  rcases confirmable.cleared with accepted | ⟨_, own⟩
  · exact .inr (h.accepted accepted)
  · exact .inl own

theorem statusBeforeConfirmation_eq (item : Item kind) :
    item.statusBeforeConfirmation = if item.IsAccepted then .reviewAccepted else .draft := by
  have accepted : item.review.any (·.decision = .accepted) ↔ item.IsAccepted := by
    simp [Option.any_eq_true, IsAccepted]
  unfold statusBeforeConfirmation
  simp only [accepted]

theorem statusOnceAdded_cases (item : Item kind) :
    item.statusOnceAdded = .published ∨ item.statusOnceAdded = .acknowledged := by
  unfold statusOnceAdded
  split
  · next standing => exact standing
  · exact .inl rfl

/-! ### Every operation -/

/-- A confirmation that is taken back leaves what the review says. -/
theorem Governed.takenBack (hi : item.Governed c) (draft : item.IsDraft) :
    Governed c { item with status := item.statusBeforeConfirmation, preConfirmedBy := none } := by
  rw [statusBeforeConfirmation_eq]
  split
  · next accepted =>
    exact governed_of_unconfirmed hi.mode (fun _ => accepted) nofun nofun (by simp) rfl draft
  · exact governed_of_unconfirmed hi.mode nofun nofun nofun (by simp) rfl draft

theorem Performed.governed {actor : Identity} {step : ItemStep}
    (h : item.Performed c.context actor step later) (hi : item.Governed c) : later.Governed c := by
  cases h with
  | requestReview _ _ draft standing =>
    have before : ¬(item.status = .published ∨ item.status = .acknowledged) := by
      rcases standing with standing | standing <;> simp [standing]
    exact governed_of_unconfirmed hi.mode nofun nofun (fun _ => rfl) (by simp) (hi.unconfirmed before).1 draft
  | accept _ pending =>
    obtain ⟨unconfirmed, notAdded⟩ := hi.unconfirmed (by simp [pending])
    exact governed_of_unconfirmed hi.mode (fun _ => ⟨_, rfl, rfl⟩) nofun nofun (by simp) unconfirmed notAdded
  | @reject reason _ pending =>
    obtain ⟨unconfirmed, notAdded⟩ := hi.unconfirmed (by simp [pending])
    exact governed_of_unconfirmed hi.mode nofun (fun _ => ⟨reason, rfl⟩) nofun (by simp) unconfirmed notAdded
  | prePublishOrAcknowledge direct handled confirmable =>
    have confirmed : ∀ who, some actor = some who →
        (who = c.owner ∨ who = item.submitter) ∧ (item.submitter = c.owner ∨ item.IsAccepted) :=
      fun who same => ⟨Option.some.inj same ▸ handled, hi.cleared confirmable⟩
    by_cases byOwner : actor = c.context.owner
    · simp only [if_pos byOwner]
      exact governed_of_confirmed hi.mode (.inr rfl) confirmed nofun fun _ _ => .inl rfl
    · simp only [if_neg byOwner]
      -- The submitter publishes it, who is not the owner, so that the owner has accepted it.
      have bySubmitter : actor = item.submitter := handled.resolve_left byOwner
      have foreign : item.submitter ≠ c.owner := fun own => byOwner (bySubmitter.trans own)
      have accepted := (hi.cleared confirmable).resolve_left foreign
      exact governed_of_confirmed hi.mode (.inl rfl) confirmed
        (fun _ _ => ⟨direct, foreign, accepted, congrArg some bySubmitter⟩) nofun
  | preAcknowledge _ handled confirmable =>
    exact governed_of_confirmed hi.mode (.inr rfl)
      (fun who same => ⟨Option.some.inj same ▸ handled, hi.cleared confirmable⟩) nofun fun _ _ => .inl rfl
  | cancelPrePublishOrAcknowledge _ _ draft | cancelPreAcknowledge _ _ draft => exact hi.takenBack draft

theorem Stamped.governed {stamp : ItemStamp} (h : item.Stamped stamp later) (hi : item.Governed c) :
    later.Governed c := by
  cases h with
  | same => exact hi
  | added =>
    exact governed_of_confirmed hi.mode item.statusOnceAdded_cases (fun who hwho => (hi.confirmed who hwho).2)
      nofun nofun
  | fees => exact { hi with }
  | acknowledged =>
    exact governed_of_confirmed hi.mode (.inr rfl) (fun who hwho => (hi.confirmed who hwho).2) nofun
      fun _ _ => .inr rfl

theorem Becomes.governed (h : item.Becomes c op later) (hi : item.Governed c) : later.Governed c := by
  cases h with
  | same => exact hi
  | moved => exact { hi with }
  | performed _ performed => exact performed.governed hi
  | stamped stamped => exact stamped.governed hi
  | restricted | delivered => exact { hi with }

/-- An accepted review is written by the owner. -/
theorem Becomes.isAccepted (h : item.Becomes c op later) (accepted : later.IsAccepted) :
    item.IsAccepted ∨ op = .performOnItem kind .accept c.owner item.key := by
  cases h with
  | same | moved | restricted | delivered => exact .inl accepted
  | performed editable performed =>
    cases performed with
    | accept byOwner =>
      obtain rfl : _ = c.owner := byOwner
      exact .inr rfl
    | requestReview => obtain ⟨_, hreview, _⟩ := accepted; cases hreview
    | reject => obtain ⟨_, hreview, decision⟩ := accepted; cases hreview; cases decision
    | _ => exact .inl accepted
  | stamped stamped => cases stamped <;> exact .inl accepted

end Item

namespace Case

/-- Every item follows the rules of the case. -/
def IsGoverned (c : Case) : Prop := ∀ kind, ∀ item ∈ (c.collection kind).items, item.Governed c

theorem isGoverned_apply (op : CaseOperation) {c : Case} (hc : c.IsGoverned) :
    ((Case.apply op).run c).2.IsGoverned := by
  intro kind later mem
  have continues := apply_continues op c
  refine Item.Governed.congr ?_ continues.owner continues.requester
  rcases (apply_becomes op c).origin mem with ⟨item, hitem, becomes⟩ | ⟨submitter, payload, _, _, _, rfl⟩
  · exact becomes.governed (hc kind item hitem)
  · exact Item.governed_new c _ submitter payload

theorem Reachable.isGoverned {c : Case} (h : c.Reachable) : c.IsGoverned :=
  h.of_step (fun c bare kind item mem => by rw [collection_of_bare bare] at mem; cases mem)
    fun _ op => isGoverned_apply op

/-- In every case that can come about every item follows the rules; one that was not submitted by
the owner is confirmed only once it is accepted; and only the owner accepts: whatever is done
next, an item is accepted after it only if it was so before or the owner has just accepted it. -/
theorem reachable_governed {c : Case} (h : c.Reachable) :
    (∀ kind, ∀ item ∈ (c.collection kind).items, item.Governed c ∧
      (item.preConfirmedBy.isSome → item.submitter ≠ c.owner → item.IsAccepted)) ∧
    ∀ op kind, ∀ later ∈ (((Case.apply op).run c).2.collection kind).items, later.IsAccepted →
      (∃ item ∈ (c.collection kind).items, item.key = later.key ∧ item.IsAccepted) ∨
        op = .performOnItem kind .accept c.owner later.key := by
  constructor
  · intro kind item mem
    have rules := h.isGoverned kind item mem
    refine ⟨rules, fun confirmed foreign => ?_⟩
    obtain ⟨who, hwho⟩ := Option.isSome_iff_exists.mp confirmed
    exact (rules.confirmed who hwho).2.2.resolve_left foreign
  · intro op kind later mem accepted
    rcases (apply_becomes op c).origin mem with ⟨item, hitem, becomes⟩ | ⟨_, _, _, _, _, rfl⟩
    · rw [becomes.continues.key]
      exact (becomes.isAccepted accepted).imp_left fun before => ⟨item, hitem, rfl, before⟩
    · obtain ⟨_, hreview, _⟩ := accepted
      cases hreview

end Case

/-! ### An estate to which heir and surveyor contribute -/

namespace Sample

def estate : CaseDefinition where
  id := ⟨⟨List.replicate 16 4, rfl⟩⟩
  owner := ⟨"notary"⟩
  requester := some (.address ⟨"heir"⟩)
  description := "an estate"
  kind := .transaction
  sealInfo := none

/-- The surveyor's plan and the heir's letter are accepted and confirmed by those who submitted them;
the heir cannot confirm the inventory, which nobody reviewed, and the ledger acknowledges it. -/
def estateHistory : List CaseOperation :=
  [.addDelegate ⟨"notary"⟩ ⟨"surveyor"⟩,
    .addItem .metadata ⟨"surveyor"⟩ ⟨"plan", "two plots"⟩,
    .addItem .metadata ⟨"heir"⟩ ⟨"letter", "agreed"⟩,
    .addItem .metadata ⟨"heir"⟩ ⟨"inventory", "a desk"⟩,
    .performOnItem .metadata .requestReview ⟨"surveyor"⟩ "plan",
    .performOnItem .metadata .accept ⟨"notary"⟩ "plan",
    .performOnItem .metadata .preAcknowledge ⟨"surveyor"⟩ "plan",
    .performOnItem .metadata .requestReview ⟨"heir"⟩ "letter",
    .performOnItem .metadata .accept ⟨"notary"⟩ "letter",
    .performOnItem .metadata .prePublishOrAcknowledge ⟨"heir"⟩ "letter",
    .performOnItem .metadata .prePublishOrAcknowledge ⟨"heir"⟩ "inventory",
    .stampItem .metadata (.acknowledged .epoch) "inventory"]

end Sample

theorem Case.governed_of_estate :
    ∃ made, Case.openNew Sample.estate .epoch = .ok made ∧
      let c := made.after Sample.estateHistory
      (c.collection .metadata).items.map (fun item => (item.key, item.status, item.preConfirmedBy)) =
          [("plan", .acknowledged, some ⟨"surveyor"⟩), ("letter", .published, some ⟨"heir"⟩),
            ("inventory", .acknowledged, none)] ∧
        c.Reachable ∧
        (∀ kind, ∀ item ∈ (c.collection kind).items, item.Governed c ∧
          (item.preConfirmedBy.isSome → item.submitter ≠ c.owner → item.IsAccepted)) ∧
        ∀ op kind, ∀ later ∈ (((Case.apply op).run c).2.collection kind).items, later.IsAccepted →
          (∃ item ∈ (c.collection kind).items, item.key = later.key ∧ item.IsAccepted) ∨
            op = .performOnItem kind .accept c.owner later.key := by
  have reachable := (@Case.Reachable.openNew Sample.estate .epoch _ rfl).after Sample.estateHistory
  exact ⟨_, rfl, by decide +kernel, reachable, Case.reachable_governed reachable⟩

end CaseRegistry
