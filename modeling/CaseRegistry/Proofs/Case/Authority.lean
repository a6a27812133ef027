import CaseRegistry.Proofs.Case.FourEyes
import CaseRegistry.Proofs.Case.Listing

/-! Who may do what to a case.

An operation that is done in somebody's name succeeds only if the case permits it to them
(`Permits`): the owner decides on reviews, on delegates and on restricted delivery, contributors
add items, and the owner and the submitter of an item handle it. To a stranger, who is no
contributor and submitted nothing that is left, the case permits none of this; refused operations
leave the case as it is, so whatever strangers try one after the other comes to nothing
(`succeeds_only_if_permitted`). -/
namespace CaseRegistry

/-- In whose name an operation is done. -/
def CaseOperation.actor? : CaseOperation → Option Identity
  | .addDelegate actor _ | .removeDelegate actor _ | .addItem _ actor _ | .removeItem _ actor _
  | .performOnItem _ _ actor _ | .setRestrictedDelivery actor _ _ => some actor
  | _ => none

/-- An action on an item is done by somebody who handles it. -/
theorem Item.Performed.handled {kind : ItemKind} {item later : Item kind} {ctx : CaseContext}
    {actor : Identity} {step : ItemStep} (h : item.Performed ctx actor step later) :
    item.IsHandledBy actor ctx := by
  cases h with
  | accept byOwner | reject byOwner => exact .inl byOwner
  | requestReview _ handled | prePublishOrAcknowledge _ handled | preAcknowledge _ handled
  | cancelPrePublishOrAcknowledge _ handled | cancelPreAcknowledge _ handled => exact handled

namespace Case

/-- The actor owns the case, or submitted the item that is found under the key. -/
def MayHandle (c : Case) (kind : ItemKind) (actor : Identity) (key : kind.Key) : Prop :=
  ∃ item, (c.collection kind).get? key = some item ∧ (actor = c.owner ∨ actor = item.submitter)

/-- The case permits an operation to those in whose name it is done. -/
def Permits (c : Case) : CaseOperation → Prop
  | .addDelegate actor _ | .removeDelegate actor _ | .setRestrictedDelivery actor _ _
  | .performOnItem _ .accept actor _ | .performOnItem _ (.reject _) actor _ => actor = c.owner
  | .addItem _ submitter _ =>
    submitter = c.owner ∨ c.requester = some (.address submitter) ∨ submitter ∈ c.delegates
  | .removeItem kind actor key | .performOnItem kind _ actor key => c.MayHandle kind actor key
  | _ => True

/-- Somebody who is no contributor of the case and submitted none of its items. -/
structure IsStranger (c : Case) (who : Identity) : Prop where
  outside : ¬c.IsContributor who
  nothing : ∀ kind, ∀ item ∈ (c.collection kind).items, item.submitter ≠ who

variable {c : Case} {op : CaseOperation} {who : Identity}

theorem requesterAddress_eq_some :
    c.requesterAddress = some who ↔ c.requester = some (.address who) := by
  unfold requesterAddress
  cases c.requester with
  | none => simp
  | some requester => cases requester <;> simp

/-! ### Success -/

/-- What begins with a check for the owner is done by the owner. -/
theorem eq_owner_of_ensured {α : Type} {undertaking : CaseId → Undertaking}
    {rest : Unit → Except Error α} {done : α}
    (h : (c.ensureOwner who undertaking >>= rest) = .ok done) : who = c.owner := by
  obtain ⟨_, byOwner, _⟩ := bind_eq_ok.mp h
  exact ensureOwner_eq_ok.mp byOwner

theorem mayHandle_of_removeItem {kind : ItemKind} {actor : Identity} {key : kind.Key}
    (h : c.Succeeds (.removeItem kind actor key)) : c.MayHandle kind actor key := by
  obtain ⟨_, _, removed, _⟩ := run_removeItem_of_succeeds h
  obtain ⟨before, item, behind, whole, ahead, same, handled, _⟩ := Collection.remove_ok removed
  refine ⟨item, ?_, handled⟩
  unfold Collection.get?
  rw [whole, List.find?_append, List.find?_eq_none.mpr (by simpa using ahead)]
  simp [same]

theorem permits_performOnItem {kind : ItemKind} {step : ItemStep} {actor : Identity} {key : kind.Key}
    (h : c.Succeeds (.performOnItem kind step actor key)) :
    c.Permits (.performOnItem kind step actor key) := by
  obtain ⟨_, item, later, found, performed⟩ := succeeds_performOnItem.mp h
  have handled : c.MayHandle kind actor key := ⟨item, found, performed.handled⟩
  cases performed with
  | accept byOwner | reject byOwner => exact byOwner
  | _ => exact handled

theorem permits_of_succeeds (h : c.Succeeds op) : c.Permits op := by
  cases op with
  | addDelegate actor delegate =>
    obtain ⟨_, done⟩ := isOk_silently.mp h
    exact eq_owner_of_ensured done
  | removeDelegate actor delegate =>
    obtain ⟨_, done⟩ := isOk_silently.mp h
    exact eq_owner_of_ensured done
  | setRestrictedDelivery actor hash restricted =>
    obtain ⟨_, _, done⟩ := isOk_withChanges.mp h
    exact eq_owner_of_ensured done
  | addItem kind submitter payload =>
    obtain ⟨_, _, done⟩ := isOk_withChanges.mp h
    simp only [addItem, bind_eq_ok, ensure_eq_ok] at done
    obtain ⟨_, _, _, contributor, _⟩ := done
    rcases contributor with (owner | requester) | delegate
    · exact .inl owner
    · exact .inr (.inl (requesterAddress_eq_some.mp requester))
    · exact .inr (.inr delegate)
  | removeItem kind actor key => exact mayHandle_of_removeItem h
  | performOnItem kind step actor key => exact permits_performOnItem h
  | _ => trivial

/-! ### Strangers -/

theorem IsStranger.ne_owner (h : c.IsStranger who) : who ≠ c.owner := fun same =>
  h.outside (.inl (.inl same))

theorem IsStranger.not_mayHandle (h : c.IsStranger who) (kind : ItemKind) (key : kind.Key) :
    ¬c.MayHandle kind who key := by
  rintro ⟨item, found, owner | submitter⟩
  · exact h.ne_owner owner
  · exact h.nothing kind item (Collection.mem_of_get? found) submitter.symm

theorem IsStranger.not_permits (h : c.IsStranger who) (acts : op.actor? = some who) :
    ¬c.Permits op := by
  cases op with
  | addDelegate | removeDelegate | setRestrictedDelivery =>
    obtain rfl := Option.some.inj acts
    exact h.ne_owner
  | addItem =>
    obtain rfl := Option.some.inj acts
    rintro (owner | requester | delegate)
    · exact h.ne_owner owner
    · exact h.outside (.inl (.inr (requesterAddress_eq_some.mpr requester)))
    · exact h.outside (.inr delegate)
  | removeItem kind actor key =>
    obtain rfl := Option.some.inj acts
    exact h.not_mayHandle kind key
  | performOnItem kind step actor key =>
    obtain rfl := Option.some.inj acts
    cases step with
    | accept | reject => exact h.ne_owner
    | _ => exact h.not_mayHandle kind key
  | _ => cases acts

/-- Whatever strangers try is refused. -/
theorem IsStranger.refused {ops : List CaseOperation} (h : c.IsStranger who)
    (acts : ∀ op ∈ ops, op.actor? = some who) : ∀ op ∈ ops, ¬c.Succeeds op :=
  fun op mem success => h.not_permits (acts op mem) (permits_of_succeeds success)

/-- An operation succeeds only if the case permits it to those in whose name it is done, and whatever
is tried in the name of somebody who is no contributor of the case and submitted none of its items
is refused and leaves the case as it was. -/
theorem succeeds_only_if_permitted (c : Case) :
    (∀ op, c.Succeeds op → c.Permits op) ∧
      ∀ who, ¬c.IsContributor who →
        (∀ kind, ∀ item ∈ (c.collection kind).items, item.submitter ≠ who) →
        ∀ ops : List CaseOperation, (∀ op ∈ ops, op.actor? = some who) →
          (∀ op ∈ ops, ¬c.Succeeds op) ∧ c.after ops = c := by
  refine ⟨fun op => permits_of_succeeds, fun who outside nothing ops acts => ?_⟩
  have stranger : c.IsStranger who := ⟨outside, nothing⟩
  have refused := stranger.refused acts
  exact ⟨refused, after_of_refused refused⟩

end Case

/-! ### A delegate who was dismissed -/

namespace Sample

/-- The surveyor is a delegate for a while, and takes the plan out again before leaving. -/
def surveyorLeaves : List CaseOperation :=
  [.addDelegate ⟨"notary"⟩ ⟨"surveyor"⟩,
    .addItem .metadata ⟨"surveyor"⟩ ⟨"plan", "two plots"⟩,
    .addItem .metadata ⟨"heir"⟩ ⟨"letter", "agreed"⟩,
    .removeItem .metadata ⟨"surveyor"⟩ "plan",
    .removeDelegate ⟨"notary"⟩ ⟨"surveyor"⟩]

/-- What the surveyor tries afterwards. -/
def surveyorTries : List CaseOperation :=
  [.addItem .metadata ⟨"surveyor"⟩ ⟨"plan", "three plots"⟩,
    .addDelegate ⟨"surveyor"⟩ ⟨"surveyor"⟩,
    .performOnItem .metadata .requestReview ⟨"surveyor"⟩ "letter",
    .removeItem .metadata ⟨"surveyor"⟩ "letter",
    .setRestrictedDelivery ⟨"surveyor"⟩ ⟨"map"⟩ true]

end Sample

theorem Case.surveyor_refused :
    ∃ made, Case.openNew Sample.estate .epoch = .ok made ∧
      let c := made.after Sample.surveyorLeaves
      c.Succeeds (.performOnItem .metadata .requestReview ⟨"heir"⟩ "letter") ∧
        c.Permits (.performOnItem .metadata .requestReview ⟨"heir"⟩ "letter") ∧
        ¬c.IsContributor ⟨"surveyor"⟩ ∧
        (∀ kind, ∀ item ∈ (c.collection kind).items, item.submitter ≠ ⟨"surveyor"⟩) ∧
        (∀ op ∈ Sample.surveyorTries, op.actor? = some ⟨"surveyor"⟩) ∧
        (∀ op ∈ Sample.surveyorTries, ¬c.Succeeds op) ∧ c.after Sample.surveyorTries = c := by
  refine ⟨_, rfl, by decide +kernel, ?_⟩
  set c := Case.after _ Sample.surveyorLeaves
  obtain ⟨permits, refused⟩ := Case.succeeds_only_if_permitted c
  have outside : ¬c.IsContributor ⟨"surveyor"⟩ := by decide +kernel
  have nothing : ∀ kind, ∀ item ∈ (c.collection kind).items, item.submitter ≠ ⟨"surveyor"⟩ := by
    intro kind
    cases kind <;> decide +kernel
  have acts : ∀ op ∈ Sample.surveyorTries, op.actor? = some ⟨"surveyor"⟩ := by
    simp [Sample.surveyorTries, CaseOperation.actor?]
  exact ⟨permits _ (by decide +kernel), outside, nothing, acts, refused _ outside nothing _ acts⟩

end CaseRegistry
