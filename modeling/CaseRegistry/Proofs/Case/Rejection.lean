import CaseRegistry.Proofs.Case.FourEyes
import CaseRegistry.Proofs.Case.Runs

/-! How long a rejection stands.

A rejected item is not accepted before it is sent to review again, and not confirmed unless
it is the owner's own (`Item.IsTurnedDown`). Nobody confirms it either way, and sending it
to review again leaves its mark, as long as no confirmation of it is taken back
(`Item.StandsRejected`). The ledger can acknowledge a rejected item, and taking that back
makes it a draft on which the rejection has no hold any more: `rejection_forgotten`. The
mark of a rejection stays with the item. -/
namespace CaseRegistry

namespace Item

variable {kind : ItemKind} {key : kind.Key} {c : Case} {op : CaseOperation} {item later : Item kind}

/-- Neither accepted nor under review. -/
structure IsTurnedDown (item : Item kind) : Prop where
  rejected : ¬item.IsAccepted
  notPending : item.status ≠ .reviewPending
  notCleared : item.status ≠ .reviewAccepted

/-- Turned down, and not a draft that its owner may confirm. -/
structure StandsRejected (item : Item kind) : Prop extends item.IsTurnedDown where
  notDraft : item.status ≠ .draft

theorem standsRejected_of_reject {actor : Identity} {ctx : CaseContext} {reason : String}
    (h : item.Performed ctx actor (.reject reason) later) : later.StandsRejected := by
  cases h
  exact ⟨⟨by simp [IsAccepted], nofun, nofun⟩, nofun⟩

theorem Stamped.isTurnedDown {stamp : ItemStamp} (h : item.Stamped stamp later) (hi : item.IsTurnedDown) :
    later.IsTurnedDown := by
  cases h with
  | same => exact hi
  | added =>
    have standing := item.statusOnceAdded_cases
    exact ⟨hi.rejected, by rcases standing with h | h <;> simp [h], by rcases standing with h | h <;> simp [h]⟩
  | fees => exact { hi with }
  | acknowledged => exact ⟨hi.rejected, nofun, nofun⟩

/-- What is turned down stays so until it is sent to review. -/
theorem Becomes.isTurnedDown (spared : ¬op.SendsToReview kind item.key) (h : item.Becomes c op later)
    (hi : item.IsTurnedDown) : later.IsTurnedDown := by
  cases h with
  | same => exact hi
  | moved => exact { hi with }
  | @performed _ _ _ _ actor _ performed =>
    cases performed with
    | requestReview => exact absurd ⟨actor, rfl⟩ spared
    | accept _ pending | reject _ pending => exact absurd pending hi.notPending
    | prePublishOrAcknowledge =>
      exact ⟨hi.rejected, by dsimp only; split <;> simp, by dsimp only; split <;> simp⟩
    | preAcknowledge => exact ⟨hi.rejected, nofun, nofun⟩
    | cancelPrePublishOrAcknowledge | cancelPreAcknowledge =>
      rw [statusBeforeConfirmation_eq, if_neg hi.rejected]
      exact ⟨hi.rejected, nofun, nofun⟩
  | stamped stamped => exact stamped.isTurnedDown hi
  | restricted | delivered => exact { hi with }

/-- A rejection stands until the item is sent to review, if no confirmation is taken back. -/
theorem Becomes.standsRejected (spared : ¬op.SendsToReview kind item.key)
    (kept : ¬op.TakesBack kind item.key) (h : item.Becomes c op later) (hi : item.StandsRejected) :
    later.StandsRejected := by
  refine ⟨h.isTurnedDown spared hi.toIsTurnedDown, ?_⟩
  cases h with
  | same | moved | restricted | delivered => exact hi.notDraft
  | @performed _ _ _ _ actor _ performed =>
    cases performed with
    | cancelPrePublishOrAcknowledge => exact absurd ⟨actor, .inl rfl⟩ kept
    | cancelPreAcknowledge => exact absurd ⟨actor, .inr rfl⟩ kept
    | prePublishOrAcknowledge => dsimp only; split <;> simp
    | _ => nofun
  | stamped stamped =>
    cases stamped with
    | added => rcases item.statusOnceAdded_cases with h | h <;> simp [h]
    | acknowledged => nofun
    | _ => exact hi.notDraft

/-- The mark of a rejection stays. -/
theorem Becomes.redrafted (h : item.Becomes c op later) (marked : item.redraftedAfterRejection = true) :
    later.redraftedAfterRejection = true := by
  cases h with
  | performed _ performed =>
    cases performed with
    | requestReview => simp [marked]
    | _ => exact marked
  | stamped stamped => cases stamped <;> exact marked
  | _ => exact marked

end Item

namespace Case

/-- An action on an item fails, whoever tries it. -/
def Refuses (c : Case) (kind : ItemKind) (step : ItemStep) (key : kind.Key) : Prop :=
  ∀ actor, ¬c.Succeeds (.performOnItem kind step actor key)

variable {c : Case} {kind : ItemKind} {key : kind.Key} {item : Item kind}

/-- An action fails if its rules do not hold of the item. -/
theorem refuses_of_found {step : ItemStep} (found : (c.collection kind).get? key = some item)
    (rules : ∀ actor later, ¬item.Performed c.context actor step later) : c.Refuses kind step key := by
  intro actor success
  obtain ⟨_, other, later, hother, performed⟩ := succeeds_performOnItem.mp success
  obtain rfl : other = item := Option.some.inj (hother.symm.trans found)
  exact rules actor later performed

theorem refuses_accept (found : (c.collection kind).get? key = some item) (h : item.IsTurnedDown) :
    c.Refuses kind .accept key := by
  refine refuses_of_found found fun actor later performed => ?_
  cases performed with
  | accept _ pending => exact h.notPending pending

/-- What may not be confirmed is refused in both protocols. -/
theorem refuses_confirmation (found : (c.collection kind).get? key = some item)
    (h : ¬item.IsConfirmable c.context) :
    c.Refuses kind .prePublishOrAcknowledge key ∧ c.Refuses kind .preAcknowledge key := by
  constructor <;> refine refuses_of_found found fun actor later performed => ?_
  · cases performed with
    | prePublishOrAcknowledge _ _ confirmable => exact h confirmable
  · cases performed with
    | preAcknowledge _ _ confirmable => exact h confirmable

/-- From a rejection until the item is sent to review or removed, the item is there and nobody
succeeds in accepting it; nobody succeeds in confirming it if the owner did not submit it, or if
no confirmation of it was taken back meanwhile. In the latter case the review that it is sent to
next marks it. Once marked, an item stays so as long as it is there. -/
theorem rejection_stands (c : Case) (kind : ItemKind) (key : kind.Key) :
    (∀ reason who, c.Succeeds (.performOnItem kind (.reject reason) who key) →
      let start := c.after [.performOnItem kind (.reject reason) who key]
      ∀ ops, start.Spares (fun op => op.SendsToReview kind key ∨ op.Removes kind key) ops →
        let last := start.after ops
        ∃ item, (last.collection kind).get? key = some item ∧ last.Refuses kind .accept key ∧
          (item.submitter ≠ last.owner ∨ start.Spares (·.TakesBack kind key) ops →
            last.Refuses kind .prePublishOrAcknowledge key ∧ last.Refuses kind .preAcknowledge key) ∧
          (start.Spares (·.TakesBack kind key) ops →
            ∀ actor, last.Succeeds (.performOnItem kind .requestReview actor key) →
              ∃ again, ((last.after [.performOnItem kind .requestReview actor key]).collection kind).get? key =
                some again ∧ again.redraftedAfterRejection = true)) ∧
    ∀ item, (c.collection kind).get? key = some item → item.redraftedAfterRejection = true →
      ∀ ops, c.Spares (·.Removes kind key) ops →
        ∃ later, ((c.after ops).collection kind).get? key = some later ∧
          later.redraftedAfterRejection = true := by
  constructor
  · intro reason who rejected start ops period last
    obtain ⟨_, first, _, performed, found⟩ := get?_performOnItem rejected
    have stands := Item.standsRejected_of_reject performed
    obtain ⟨item, hitem, turnedDown⟩ := period.fate (P := Item.IsTurnedDown) (fun _ removes => .inr removes)
      (fun spared same becomes => becomes.isTurnedDown fun sends => spared (.inl (same ▸ sends)))
      found stands.toIsTurnedDown
    -- Being turned down outlives that a confirmation is taken back; standing rejected does not.
    have standing : start.Spares (·.TakesBack kind key) ops → item.StandsRejected := fun kept => by
      obtain ⟨other, hother, stands⟩ := (period.or kept).fate (P := Item.StandsRejected)
        (fun _ removes => .inl (.inr removes))
        (fun spared same becomes => becomes.standsRejected (fun sends => spared (.inl (.inl (same ▸ sends))))
          fun back => spared (.inr (same ▸ back)))
        found stands
      exact Option.some.inj (hother.symm.trans hitem) ▸ stands
    refine ⟨item, hitem, refuses_accept hitem turnedDown, fun foreign => ?_, fun kept actor sent => ?_⟩
    · refine refuses_confirmation hitem fun confirmable => ?_
      rcases confirmable.cleared with accepted | ⟨draft, own⟩
      · exact turnedDown.notCleared accepted
      · exact foreign.elim (· own) fun kept => (standing kept).notDraft draft
    · obtain ⟨old, again, hold, performed, hagain⟩ := get?_performOnItem sent
      obtain rfl : old = item := Option.some.inj (hold.symm.trans hitem)
      cases performed with
      | requestReview _ _ _ before =>
        have rejected := before.resolve_left (standing kept).notDraft
        exact ⟨_, hagain, by simp [rejected]⟩
  · intro item found marked ops spares
    exact spares.fate (P := (·.redraftedAfterRejection = true)) (fun _ removes => removes)
      (fun _ _ becomes => becomes.redrafted) found marked

end Case

/-! ### Two rejections in an estate -/

namespace Sample

/-- A plan of the owner's and a letter of the heir's are sent to review. -/
def estateReviews : List CaseOperation :=
  [.addItem .metadata ⟨"notary"⟩ ⟨"plan", "two plots"⟩,
    .addItem .metadata ⟨"heir"⟩ ⟨"letter", "agreed"⟩,
    .performOnItem .metadata .requestReview ⟨"notary"⟩ "plan",
    .performOnItem .metadata .requestReview ⟨"heir"⟩ "letter"]

def rejects (name : String) : CaseOperation :=
  .performOnItem .metadata (.reject "illegible") ⟨"notary"⟩ name

/-- The owner accepts the item, and the heir confirms it. -/
def tries (name : String) : List CaseOperation :=
  [.performOnItem .metadata .accept ⟨"notary"⟩ name,
    .performOnItem .metadata .prePublishOrAcknowledge ⟨"heir"⟩ name]

/-- The heir sends the item to review. -/
def resubmits (name : String) : CaseOperation := .performOnItem .metadata .requestReview ⟨"heir"⟩ name

/-- The ledger acknowledges the item, and the owner takes that back. -/
def passesOver (name : String) : List CaseOperation :=
  [.stampItem .metadata (.acknowledged .epoch) name,
    .performOnItem .metadata .cancelPrePublishOrAcknowledge ⟨"notary"⟩ name]

end Sample

namespace Case

/-- The owner and the heir both fail on the rejected letter, and the next review marks it for good. -/
theorem rejection_of_letter :
    ∃ made, Case.openNew Sample.estate .epoch = .ok made ∧
      let c := made.after Sample.estateReviews
      let start := c.after [Sample.rejects "letter"]
      let last := start.after (Sample.tries "letter")
      let again := last.after [Sample.resubmits "letter"]
      c.Succeeds (Sample.rejects "letter") ∧
        (∃ item, (last.collection .metadata).get? "letter" = some item ∧
          last.Refuses .metadata .accept "letter" ∧
          last.Refuses .metadata .prePublishOrAcknowledge "letter") ∧
        last.Succeeds (Sample.resubmits "letter") ∧
        ∃ item, ((again.after (Sample.tries "letter")).collection .metadata).get? "letter" = some item ∧
          item.redraftedAfterRejection = true := by
  refine ⟨_, rfl, ?_⟩
  intro c start last again
  have rejected : c.Succeeds (Sample.rejects "letter") := by decide +kernel +zetaReduce
  have sent : last.Succeeds (Sample.resubmits "letter") := by decide +kernel +zetaReduce
  obtain ⟨item, found, refusesAccept, refusesConfirmation, marks⟩ :=
    (rejection_stands c .metadata "letter").1 "illegible" ⟨"notary"⟩ rejected (Sample.tries "letter")
      (spares_of_forall (by simp [Sample.tries, CaseOperation.SendsToReview, CaseOperation.Removes]))
  have kept : start.Spares (·.TakesBack .metadata "letter") (Sample.tries "letter") :=
    spares_of_forall (by simp [Sample.tries, CaseOperation.TakesBack])
  obtain ⟨marked, hmarked, mark⟩ := marks kept ⟨"heir"⟩ sent
  refine ⟨rejected, ⟨item, found, refusesAccept, (refusesConfirmation (.inr kept)).1⟩, sent, ?_⟩
  exact (rejection_stands again .metadata "letter").2 marked hmarked mark (Sample.tries "letter")
    (spares_of_forall (by simp [Sample.tries, CaseOperation.Removes]))

/-- Confirming a rejected item of the owner's, and sending one of the heir's to review without a
mark: both succeed once an acknowledgement of the ledger was taken back. -/
theorem rejection_forgotten :
    ∃ made, Case.openNew Sample.estate .epoch = .ok made ∧
      let c := made.after Sample.estateReviews
      c.Reachable ∧
      (c.Succeeds (Sample.rejects "plan") ∧
        let start := c.after [Sample.rejects "plan"]
        start.Spares (fun op => op.SendsToReview .metadata "plan" ∨ op.Removes .metadata "plan")
            (Sample.passesOver "plan") ∧
          (start.after (Sample.passesOver "plan")).Succeeds
            (.performOnItem .metadata .prePublishOrAcknowledge ⟨"notary"⟩ "plan")) ∧
      (c.Succeeds (Sample.rejects "letter") ∧
        let start := c.after [Sample.rejects "letter"]
        start.Spares (fun op => op.SendsToReview .metadata "letter" ∨ op.Removes .metadata "letter")
            (Sample.passesOver "letter") ∧
          (start.after (Sample.passesOver "letter")).Succeeds (Sample.resubmits "letter") ∧
            ∃ item, (((start.after (Sample.passesOver "letter")).after
                [Sample.resubmits "letter"]).collection .metadata).get? "letter" = some item ∧
              item.redraftedAfterRejection = false) := by
  refine ⟨_, rfl, (@Case.Reachable.openNew Sample.estate .epoch _ rfl).after Sample.estateReviews,
    ⟨by decide +kernel, ?_, by decide +kernel⟩, by decide +kernel, ?_, by decide +kernel, ?_⟩
  · exact spares_of_forall (by simp [Sample.passesOver, CaseOperation.SendsToReview, CaseOperation.Removes])
  · exact spares_of_forall (by simp [Sample.passesOver, CaseOperation.SendsToReview, CaseOperation.Removes])
  · exact ⟨_, rfl, by decide +kernel⟩

end Case
end CaseRegistry
