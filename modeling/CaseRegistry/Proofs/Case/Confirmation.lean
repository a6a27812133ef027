import CaseRegistry.Proofs.Case.Rejection

/-! Who may confirm an item, and until when.

An item is confirmed under one of two protocols, which its mode settles. Asking whether
somebody may confirm it comes to the same rules as confirming it (`mayConfirm_iff`,
`succeeds_confirmation`), and since they ask for the mode of the item, no item may be confirmed
under both. Once it is confirmed, an item stands past its review (`Item.StandsConfirmed`), where
neither the ledger nor anybody else moves it back but by taking the confirmation back
(`Item.Becomes.standsConfirmed`). So whatever is found under its key stands there
(`Case.HoldsConfirmed`) until a new item is added under the key, if the confirmed item was the
only one with it. In every case that can come about it is (`Reachable.count_keys_le`); a case
that was read may hold another one behind it, which a removal brings forward
(`namesake_comes_forward`). -/
namespace CaseRegistry

namespace SubmissionMode

/-- The action that confirms what came into the case in this way. -/
def confirmation : SubmissionMode → ItemStep
  | .direct => .prePublishOrAcknowledge
  | .delegated => .preAcknowledge

/-- The action that takes such a confirmation back. -/
def cancellation : SubmissionMode → ItemStep
  | .direct => .cancelPrePublishOrAcknowledge
  | .delegated => .cancelPreAcknowledge

end SubmissionMode

/-- The operation adds an item under a key. -/
def CaseOperation.Adds (kind : ItemKind) (key : kind.Key) (op : CaseOperation) : Prop :=
  ∃ submitter payload, op = .addItem kind submitter payload ∧ kind.keyOf payload = key

theorem isOk_iff {α : Type} {x : Except Error α} : x.isOk = true ↔ ∃ a, x = .ok a := by
  cases x with
  | ok a => exact ⟨fun _ => ⟨a, rfl⟩, fun _ => rfl⟩
  | error e => exact ⟨nofun, nofun⟩

namespace Item

variable {kind : ItemKind} {c : Case} {ctx : CaseContext} {op : CaseOperation} {item later : Item kind}
  {actor : Identity} {mode : SubmissionMode}

/-- The rules of a confirmation. -/
theorem performed_confirmation : (∃ later, item.Performed ctx actor mode.confirmation later) ↔
    item.mode = mode ∧ item.IsHandledBy actor ctx ∧ item.IsConfirmable ctx := by
  constructor
  · rintro ⟨later, performed⟩
    cases mode with
    | direct =>
      cases performed with
      | prePublishOrAcknowledge direct handled confirmable => exact ⟨direct, handled, confirmable⟩
    | delegated =>
      cases performed with
      | preAcknowledge delegated handled confirmable => exact ⟨delegated, handled, confirmable⟩
  · rintro ⟨same, handled, confirmable⟩
    cases mode with
    | direct => exact ⟨_, .prePublishOrAcknowledge same handled confirmable⟩
    | delegated => exact ⟨_, .preAcknowledge same handled confirmable⟩

theorem canPrePublishOrAcknowledge_iff : item.canPrePublishOrAcknowledge actor ctx = true ↔
    item.mode = .direct ∧ item.IsHandledBy actor ctx ∧ item.IsConfirmable ctx := by
  unfold canPrePublishOrAcknowledge checkPrePublishOrAcknowledge
  simp [isOk_iff, bind_eq_ok, ensure_eq_ok, checkConfirmable_eq_ok]

theorem canPreAcknowledge_iff : item.canPreAcknowledge actor ctx = true ↔
    item.mode = .delegated ∧ item.IsHandledBy actor ctx ∧ item.IsConfirmable ctx := by
  unfold canPreAcknowledge checkPreAcknowledge
  simp [isOk_iff, bind_eq_ok, ensure_eq_ok, checkConfirmable_eq_ok]

/-- Published or acknowledged, as every confirmation leaves an item. -/
def StandsConfirmed (item : Item kind) : Prop := item.status = .published ∨ item.status = .acknowledged

theorem standsConfirmed_of_confirmation (h : item.Performed ctx actor mode.confirmation later) :
    later.StandsConfirmed := by
  unfold StandsConfirmed
  cases mode with
  | direct =>
    cases h with
    | prePublishOrAcknowledge => dsimp only; split <;> simp
  | delegated =>
    cases h with
    | preAcknowledge => exact .inr rfl

theorem StandsConfirmed.not_isConfirmable (h : item.StandsConfirmed) : ¬item.IsConfirmable ctx := by
  rintro ⟨_, _, cleared⟩
  rcases h with standing | standing <;> simp [standing] at cleared

/-- What stands confirmed stays so until the confirmation is taken back. -/
theorem Becomes.standsConfirmed (kept : ¬op.TakesBack kind item.key) (h : item.Becomes c op later)
    (hi : item.StandsConfirmed) : later.StandsConfirmed := by
  cases h with
  | same | moved | restricted | delivered => exact hi
  | @performed _ _ _ _ actor _ performed =>
    cases performed with
    | requestReview _ _ _ before => rcases hi with standing | standing <;> simp [standing] at before
    | accept _ pending | reject _ pending => rcases hi with standing | standing <;> simp [standing] at pending
    | prePublishOrAcknowledge _ _ confirmable | preAcknowledge _ _ confirmable =>
      exact absurd confirmable hi.not_isConfirmable
    | cancelPrePublishOrAcknowledge => exact absurd ⟨actor, .inl rfl⟩ kept
    | cancelPreAcknowledge => exact absurd ⟨actor, .inr rfl⟩ kept
  | stamped stamped =>
    cases stamped with
    | same | fees => exact hi
    | added => exact item.statusOnceAdded_cases
    | acknowledged => exact .inr rfl

end Item

namespace Case

variable {c c' : Case} {op : CaseOperation} {kind : ItemKind} {key : kind.Key} {item : Item kind}
  {mode : SubmissionMode} {actor : Identity}

/-! ### Asking and doing -/

/-- Whether somebody may confirm an item under the protocol of a mode. -/
def mayConfirm (c : Case) : SubmissionMode → (kind : ItemKind) → Identity → kind.Key → Bool
  | .direct => c.canPrePublishOrAcknowledge
  | .delegated => c.canPreAcknowledge

theorem allows_iff {check : Item kind → Bool} : c.allows kind key check = true ↔
    c.IsEditable ∧ ∃ item, (c.collection kind).get? key = some item ∧ check item = true := by
  simp [allows, isOk_iff, ensureEditable_eq_ok, Option.any_eq_true]

theorem mayConfirm_iff : c.mayConfirm mode kind actor key = true ↔ c.IsEditable ∧
    ∃ item, (c.collection kind).get? key = some item ∧
      item.mode = mode ∧ item.IsHandledBy actor c.context ∧ item.IsConfirmable c.context := by
  cases mode with
  | direct =>
    simp only [mayConfirm, canPrePublishOrAcknowledge, allows_iff, Item.canPrePublishOrAcknowledge_iff]
  | delegated => simp only [mayConfirm, canPreAcknowledge, allows_iff, Item.canPreAcknowledge_iff]

theorem succeeds_confirmation : c.Succeeds (.performOnItem kind mode.confirmation actor key) ↔
    c.IsEditable ∧ ∃ item, (c.collection kind).get? key = some item ∧
      item.mode = mode ∧ item.IsHandledBy actor c.context ∧ item.IsConfirmable c.context := by
  simp only [succeeds_performOnItem, exists_and_left, Item.performed_confirmation]

/-- What is found stands confirmed, so nobody may confirm it. -/
theorem not_mayConfirm (held : ∀ item, (c.collection kind).get? key = some item → item.StandsConfirmed)
    (mode : SubmissionMode) (actor : Identity) : c.mayConfirm mode kind actor key = false := by
  rw [Bool.eq_false_iff, ne_eq, mayConfirm_iff]
  rintro ⟨_, item, found, _, _, confirmable⟩
  exact (held item found).not_isConfirmable confirmable

/-! ### After a confirmation -/

/-- Whatever has the key stands confirmed. -/
def HoldsConfirmed (kind : ItemKind) (key : kind.Key) (c : Case) : Prop :=
  ∀ item ∈ (c.collection kind).items, item.key = key → item.StandsConfirmed

theorem HoldsConfirmed.step (h : c.HoldsConfirmed kind key)
    (spared : ¬(op.TakesBack kind key ∨ op.Adds kind key)) :
    ((Case.apply op).run c).2.HoldsConfirmed kind key := by
  intro later mem same
  rcases (apply_becomes op c).origin mem with
    ⟨item, hitem, becomes⟩ | ⟨submitter, payload, added, _, _, rfl⟩
  · have before : item.key = key := becomes.continues.key.symm.trans same
    exact becomes.standsConfirmed (fun back => spared (.inl (before ▸ back))) (h item hitem before)
  · exact absurd (.inr ⟨submitter, payload, added, same⟩) spared

theorem Reachable.count_keys_le (h : c.Reachable) (kind : ItemKind) (key : kind.Key) :
    (c.collection kind).keys.count key ≤ 1 :=
  List.nodup_iff_count_le_one.mp (h.isListed kind).distinct key

/-- A confirmation leaves nothing else under the key if there was nothing else. -/
theorem holdsConfirmed_of_confirmation (single : (c.collection kind).keys.count key ≤ 1)
    (h : c.Succeeds (.performOnItem kind mode.confirmation actor key)) :
    (c.after [.performOnItem kind mode.confirmation actor key]).HoldsConfirmed kind key := by
  obtain ⟨editable, item, later, found, performed⟩ := succeeds_performOnItem.mp h
  have inPlace := performed.inPlace
  have next := after_performOnItem editable found performed
  intro other mem same
  rw [next, collection_withItems] at mem
  have single : ((c.collection kind).put key later).keys.count key ≤ 1 := by
    rwa [Collection.keys_put _ (inPlace.key.trans (Collection.key_of_get? found))]
  obtain rfl : other = later :=
    Collection.eq_of_count_keys_le single (Collection.get?_put_self found inPlace.key) mem same
  exact Item.standsConfirmed_of_confirmation performed

/-- Asking whether somebody may confirm an item says whether it would succeed, and says so under one
protocol at most. After a confirmation it is denied to everybody, at least until the confirmation is
taken back or an item is added under the key, in a case that can come about, and in any other if no
other item had the key or the item is not removed meanwhile. -/
theorem mayConfirm_settles (c : Case) (kind : ItemKind) (key : kind.Key) :
    (∀ (mode : SubmissionMode) (actor : Identity), c.mayConfirm mode kind actor key = true ↔
      c.Succeeds (.performOnItem kind mode.confirmation actor key)) ∧
    (∀ who other, ¬(c.mayConfirm .direct kind who key = true ∧
      c.mayConfirm .delegated kind other key = true)) ∧
    ∀ (mode : SubmissionMode) (actor : Identity), c.Succeeds (.performOnItem kind mode.confirmation actor key) →
      let start := c.after [.performOnItem kind mode.confirmation actor key]
      ∀ ops, start.Spares (fun op => op.TakesBack kind key ∨ op.Adds kind key) ops →
        c.Reachable ∨ (c.collection kind).keys.count key ≤ 1 ∨ start.Spares (·.Removes kind key) ops →
          ∀ mode who, (start.after ops).mayConfirm mode kind who key = false := by
  refine ⟨fun mode actor => mayConfirm_iff.trans succeeds_confirmation.symm, ?_, ?_⟩
  · rintro who other ⟨direct, delegated⟩
    obtain ⟨_, item, found, isDirect, _⟩ := mayConfirm_iff.mp direct
    obtain ⟨_, same, hsame, isDelegated, _⟩ := mayConfirm_iff.mp delegated
    obtain rfl : same = item := Option.some.inj (hsame.symm.trans found)
    cases isDirect.symm.trans isDelegated
  · intro mode actor confirmed start ops spares settled
    rcases or_assoc.mpr settled with listed | present
    · have single : (c.collection kind).keys.count key ≤ 1 :=
        listed.elim (·.count_keys_le kind key) fun single => single
      have held : (start.after ops).HoldsConfirmed kind key :=
        spares.keeps (fun spared h => h.step spared) (holdsConfirmed_of_confirmation single confirmed)
      exact not_mayConfirm fun item found =>
        held item (Collection.mem_of_get? found) (Collection.key_of_get? found)
    · obtain ⟨_, first, _, performed, found⟩ := get?_performOnItem confirmed
      obtain ⟨later, hlater, standing⟩ := (spares.or present).fate (P := Item.StandsConfirmed)
        (fun _ removes => .inr removes)
        (fun spared same becomes => becomes.standsConfirmed fun back => spared (.inl (.inl (same ▸ back))))
        found (Item.standsConfirmed_of_confirmation performed)
      exact not_mayConfirm fun item hitem => Option.some.inj (hlater.symm.trans hitem) ▸ standing

end Case

/-! ### A letter that is confirmed and taken out -/

namespace Sample

/-- The letter is rejected, sent to review again and accepted. -/
def letterAccepted : List CaseOperation :=
  estateReviews ++ [rejects "letter", resubmits "letter", .performOnItem .metadata .accept ⟨"notary"⟩ "letter"]

/-- The ledger acknowledges the letter; the notary, who accepts it once more, takes it out. -/
def letterTakenOut : List CaseOperation :=
  [.stampItem .metadata (.acknowledged .epoch) "letter", .performOnItem .metadata .accept ⟨"notary"⟩ "letter",
    .removeItem .metadata ⟨"notary"⟩ "letter"]

/-- Two letters of one name, which nobody could have added one after the other. -/
def namesakes : Case where
  id := estate.id
  status := .opened
  owner := estate.owner
  requester := estate.requester
  description := estate.description
  kind := estate.kind
  createdOn := none
  decisionOn := some .epoch
  rejectionReason := none
  closedOn := none
  voidInfo := none
  sealInfo := none
  identityVerification := none
  creationFees := none
  delegates := ∅
  items :=
    { files := ∅
      metadata := ⟨[.new 0 ⟨"notary"⟩ .direct ⟨"letter", "agreed"⟩, .new 1 ⟨"notary"⟩ .direct ⟨"letter", "not agreed"⟩]⟩
      links := ∅ }
  collectionItems := []

end Sample

namespace Case

/-- The heir's confirmation of the letter leaves nothing to confirm under its name. -/
theorem settles_letter :
    ∃ made, Case.openNew Sample.estate .epoch = .ok made ∧
      let c := made.after Sample.letterAccepted
      let start := c.after [.performOnItem .metadata .prePublishOrAcknowledge ⟨"heir"⟩ "letter"]
      c.canPrePublishOrAcknowledge .metadata ⟨"heir"⟩ "letter" = true ∧
        c.Succeeds (.performOnItem .metadata .prePublishOrAcknowledge ⟨"heir"⟩ "letter") ∧
        c.Reachable ∧
        ∀ mode who, (start.after Sample.letterTakenOut).mayConfirm mode .metadata who "letter" = false := by
  refine ⟨_, rfl, ?_⟩
  intro c start
  obtain ⟨agrees, _, settles⟩ := mayConfirm_settles c .metadata "letter"
  have confirmed : c.Succeeds (.performOnItem .metadata .prePublishOrAcknowledge ⟨"heir"⟩ "letter") := by
    decide +kernel +zetaReduce
  have reachable : c.Reachable :=
    (@Case.Reachable.openNew Sample.estate .epoch _ rfl).after Sample.letterAccepted
  have spares : start.Spares (fun op => op.TakesBack .metadata "letter" ∨ op.Adds .metadata "letter")
      Sample.letterTakenOut :=
    spares_of_forall (by simp [Sample.letterTakenOut, CaseOperation.TakesBack, CaseOperation.Adds])
  exact ⟨(agrees .direct ⟨"heir"⟩).mpr confirmed, confirmed, reachable,
    settles .direct ⟨"heir"⟩ confirmed Sample.letterTakenOut spares (.inl reachable)⟩

/-- Of two letters of one name the second may be confirmed once the first was confirmed and removed,
with nothing taken back and nothing added. -/
theorem namesake_comes_forward :
    let c := Sample.namesakes
    let start := c.after [.performOnItem .metadata .prePublishOrAcknowledge ⟨"notary"⟩ "letter"]
    let removal : CaseOperation := .removeItem .metadata ⟨"notary"⟩ "letter"
    c.Succeeds (.performOnItem .metadata .prePublishOrAcknowledge ⟨"notary"⟩ "letter") ∧
      start.Spares (fun op => op.TakesBack .metadata "letter" ∨ op.Adds .metadata "letter") [removal] ∧
      start.Succeeds removal ∧
      (start.after [removal]).canPrePublishOrAcknowledge .metadata ⟨"notary"⟩ "letter" = true := by
  refine ⟨by decide +kernel, ?_, by decide +kernel, by decide +kernel⟩
  exact spares_of_forall (by simp [CaseOperation.TakesBack, CaseOperation.Adds])

end Case
end CaseRegistry
