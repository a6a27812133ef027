import CaseRegistry.Case.Operation

/-! What an operation makes of a case.

`Case.Becomes` lists all that an operation can make of a case, each with the rules under
which it does so: the case stays, because the operation is refused or has nothing left to
do, or the rules of the operation hold and it writes what it is for. Every operation does
one of these (`apply_becomes`), so that what all operations keep is shown by going through
the list once. -/
namespace CaseRegistry.Case

/-- Opened, and closed since or not. -/
def IsInForce (c : Case) : Prop := c.status = .opened ∨ c.status = .closed

instance (c : Case) : Decidable c.IsInForce := inferInstanceAs (Decidable (_ ∨ _))

/-- Items and delegates may be changed. -/
def IsEditable (c : Case) : Prop := (c.status = .draft ∨ c.status = .opened) ∧ ¬c.IsVoid

instance (c : Case) : Decidable c.IsEditable := inferInstanceAs (Decidable (_ ∧ _))

/-- The case with another collection of one kind. -/
def withItems (c : Case) (kind : ItemKind) (new : Collection kind) : Case :=
  { c with items := c.items.set kind new }

@[simp] theorem collection_withItems (c : Case) (kind : ItemKind) (new : Collection kind) :
    (c.withItems kind new).collection kind = new :=
  CaseItems.get_set c.items kind new

theorem collection_withItems_of_ne (c : Case) {kind other : ItemKind} (new : Collection kind)
    (ne : other ≠ kind) : (c.withItems kind new).collection other = c.collection other :=
  CaseItems.get_set_of_ne c.items new ne

@[simp] theorem withItems_collection (c : Case) (kind : ItemKind) :
    c.withItems kind (c.collection kind) = c := by
  cases kind <;> rfl

@[simp] theorem withItems_withItems (c : Case) (kind : ItemKind) (new newer : Collection kind) :
    (c.withItems kind new).withItems kind newer = c.withItems kind newer := by
  cases kind <;> rfl

/-- What becomes of a case by an operation. -/
inductive Becomes (c : Case) : CaseOperation → Case → Prop where
  /-- The operation is refused, or has been done before. -/
  | same (op : CaseOperation) : c.Becomes op c
  | submit (draft : c.status = .draft) (verified : c.identityVerification ≠ some .pending)
      (asked : c.requester.isSome ∨ c.kind = .identity) :
      c.Becomes .submit { c with status := .requested }
  | accept {on : Timestamp} (requested : c.status = .requested) :
      c.Becomes (.accept on) { c with status := .opened, decisionOn := some on }
  | reject {reason : String} {on : Timestamp} (requested : c.status = .requested) :
      c.Becomes (.reject reason on)
        { c with status := .rejected, rejectionReason := some reason, decisionOn := some on }
  | rework (rejected : c.status = .rejected) :
      c.Becomes .rework { c with status := .draft, rejectionReason := none, decisionOn := none }
  | create {on : Timestamp} (fresh : c.createdOn = none) (decided : c.status ≠ .requested) :
      c.Becomes (.setCreatedDate on) { c with createdOn := some on }
  | createRequested {on : Timestamp} (fresh : c.createdOn = none) (requested : c.status = .requested) :
      c.Becomes (.setCreatedDate on)
        { c with createdOn := some on, status := .opened, decisionOn := some on }
  | charge {fees : Fees} (fresh : c.creationFees = none) :
      c.Becomes (.setCreationFees fees) { c with creationFees := some fees }
  | preClose (opened : c.status = .opened) : c.Becomes .preClose { c with status := .closed }
  | close {on : Timestamp} (inForce : c.IsInForce) (fresh : c.closedOn = none) :
      c.Becomes (.close on) { c with status := .closed, closedOn := some on }
  | preVoid {reason : String} (inForce : c.IsInForce) (fresh : c.voidInfo = none) :
      c.Becomes (.preVoid reason) { c with voidInfo := some ⟨reason, none, none⟩ }
  | makeVoid {on : Timestamp} {info : VoidInfo} (inForce : c.IsInForce) (valid : ¬c.IsVoid)
      (known : info = c.voidInfo.getD ⟨"", none, none⟩) :
      c.Becomes (.makeVoid on) { c with voidInfo := some ⟨info.reason, some on, info.replacer⟩ }
  | voidAndReplace {replacer : CaseId} {on : Timestamp} {info : VoidInfo} (inForce : c.IsInForce)
      (valid : ¬c.IsVoid) (known : info = c.voidInfo.getD ⟨"", none, none⟩) :
      c.Becomes (.voidAndReplace replacer on)
        { c with voidInfo := some ⟨info.reason, some on, info.replacer.or (some replacer)⟩ }
  | startVerification (draft : c.status = .draft) :
      c.Becomes .startIdentityVerification { c with identityVerification := some .pending }
  | completeVerification {success : Bool} (pending : c.identityVerification = some .pending) :
      c.Becomes (.completeIdentityVerification success)
        { c with identityVerification := some (if success then .completed else .failed) }
  | addDelegate {actor delegate : Identity} (byOwner : actor = c.owner) (editable : c.IsEditable)
      (outside : ¬c.IsParty delegate) :
      c.Becomes (.addDelegate actor delegate) { c with delegates := c.delegates.insert delegate }
  | removeDelegate {actor delegate : Identity} (byOwner : actor = c.owner) (editable : c.IsEditable) :
      c.Becomes (.removeDelegate actor delegate) { c with delegates := c.delegates.erase delegate }
  | addEntry {itemId : String} {on : Timestamp} {fees : Fees} (collection : c.kind = .collection)
      (fresh : itemId ∉ c.collectionItems.map CollectionEntry.itemId) :
      c.Becomes (.addCollectionItem itemId on fees)
        { c with collectionItems := c.collectionItems ++ [⟨itemId, on, fees⟩] }
  | addItem {kind : ItemKind} {submitter : Identity} {payload : kind.Payload} {new : Collection kind}
      {changes : ChangeSet} (editable : c.IsEditable) (contributor : c.IsContributor submitter)
      (done : (c.collection kind).add submitter (c.submissionModeOf submitter) payload =
        .ok (new, changes)) :
      c.Becomes (.addItem kind submitter payload) (c.withItems kind new)
  | removeItem {kind : ItemKind} {actor : Identity} {key : kind.Key} {new : Collection kind}
      {changes : ChangeSet} (editable : c.IsEditable)
      (done : (c.collection kind).remove key actor c.context = .ok (new, changes)) :
      c.Becomes (.removeItem kind actor key) (c.withItems kind new)
  | performOnItem {kind : ItemKind} {step : ItemStep} {actor : Identity} {key : kind.Key}
      {new : Collection kind} {changes : ChangeSet} (editable : c.IsEditable)
      (done : (c.collection kind).modify key (Item.perform step actor c.context) = .ok (new, changes)) :
      c.Becomes (.performOnItem kind step actor key) (c.withItems kind new)
  | stampItem {kind : ItemKind} {stamp : ItemStamp} {key : kind.Key} {new : Collection kind}
      {changes : ChangeSet}
      (done : (c.collection kind).modify key (fun item => .ok (item.stamp stamp)) = .ok (new, changes)) :
      c.Becomes (.stampItem kind stamp key) (c.withItems kind new)
  | setRestrictedDelivery {actor : Identity} {hash : ContentHash} {restricted : Bool}
      {new : Collection .file} {changes : ChangeSet} (byOwner : actor = c.owner) (valid : ¬c.IsVoid)
      (done : (c.collection .file).setRestrictedDelivery hash restricted = .ok (new, changes)) :
      c.Becomes (.setRestrictedDelivery actor hash restricted) (c.withItems .file new)
  | addDeliveredCopy {hash : ContentHash} {copy : DeliveredCopy} {new : Collection .file}
      {changes : ChangeSet} (valid : ¬c.IsVoid)
      (done : (c.collection .file).addDeliveredCopy hash copy = .ok (new, changes)) :
      c.Becomes (.addDeliveredCopy hash copy) (c.withItems .file new)

section
variable {c c' : Case} {action : CaseAction}

/-! ### The rules of an operation -/

theorem ensureStatus_eq_ok {allowed : List CaseStatus} {u : Unit} :
    c.ensureStatus action allowed = .ok u ↔ c.status ∈ allowed :=
  ensure_eq_ok

theorem ensureStatus_inForce {u : Unit} :
    c.ensureStatus action [.opened, .closed] = .ok u ↔ c.IsInForce := by
  rw [ensureStatus_eq_ok]
  simp [IsInForce]

theorem ensureEditable_eq_ok {u : Unit} : c.ensureEditable = .ok u ↔ c.IsEditable := by
  unfold ensureEditable IsEditable
  simp [ensureStatus_eq_ok]

theorem ensureOwner_eq_ok {actor : Identity} {undertaking : CaseId → Undertaking} {u : Unit} :
    c.ensureOwner actor undertaking = .ok u ↔ actor = c.owner :=
  ensure_eq_ok

theorem onCollection_eq_ok {kind : ItemKind} {changes : ChangeSet}
    {f : Collection kind → Except Error (Collection kind × ChangeSet)} :
    c.onCollection kind f = .ok (c', changes) ↔
      ∃ new, f (c.collection kind) = .ok (new, changes) ∧ c' = c.withItems kind new := by
  simp only [onCollection, bind_eq_ok, pure_eq_ok, Prod.exists, Prod.mk.injEq]
  constructor
  · rintro ⟨new, _, done, rfl, rfl⟩
    exact ⟨new, done, rfl⟩
  · rintro ⟨new, done, rfl⟩
    exact ⟨new, changes, done, rfl, rfl⟩

/-! ### Every operation -/

/-- What holds of the case and of all that an operation may make of it holds after the operation. -/
theorem step_induction {P : Case → Prop} {f : Case → Except Error (Case × CaseReply)} (stays : P c)
    (hf : ∀ later reply, f c = .ok (later, reply) → P later) : P ((Action.step f).run c).2 := by
  rw [Action.run_step]
  split
  · next later reply done => exact hf later reply done
  · exact stays

theorem silently_induction {P : Case → Prop} {f : Case → Except Error Case} (stays : P c)
    (hf : ∀ later, f c = .ok later → P later) : P ((apply.silently f).run c).2 := by
  refine step_induction stays fun later reply done => ?_
  obtain ⟨after, hafter, heq⟩ := map_eq_ok.mp done
  exact (Prod.mk.inj heq).1 ▸ hf after hafter

theorem withOutcome_induction {P : Case → Prop} {f : Case → Except Error (Case × Outcome)} (stays : P c)
    (hf : ∀ later outcome, f c = .ok (later, outcome) → P later) :
    P ((apply.withOutcome f).run c).2 := by
  refine step_induction stays fun later reply done => ?_
  obtain ⟨⟨after, outcome⟩, hafter, heq⟩ := map_eq_ok.mp done
  exact (Prod.mk.inj heq).1 ▸ hf after outcome hafter

theorem withChanges_induction {P : Case → Prop} {f : Case → Except Error (Case × ChangeSet)} (stays : P c)
    (hf : ∀ later changes, f c = .ok (later, changes) → P later) :
    P ((apply.withChanges f).run c).2 := by
  refine step_induction stays fun later reply done => ?_
  obtain ⟨⟨after, changes⟩, hafter, heq⟩ := map_eq_ok.mp done
  exact (Prod.mk.inj heq).1 ▸ hf after changes hafter

theorem setCreatedDate_becomes (on : Timestamp) (c : Case) :
    c.Becomes (.setCreatedDate on) ((setCreatedDate on).run c).2 := by
  rw [run_setCreatedDate]
  by_cases created : c.createdOn.isSome
  · rw [if_pos created]
    exact .same _
  · rw [if_neg created]
    have fresh : c.createdOn = none := Option.not_isSome_iff_eq_none.mp created
    by_cases requested : c.status = .requested
    · rw [if_pos requested]
      exact .createRequested fresh requested
    · rw [if_neg requested]
      exact .create fresh requested

theorem setCreationFees_becomes (fees : Fees) (c : Case) :
    c.Becomes (.setCreationFees fees) (c.setCreationFees fees).1 := by
  unfold setCreationFees
  split
  · exact .same _
  · next charged => exact .charge (Option.not_isSome_iff_eq_none.mp charged)

theorem close_becomes {on : Timestamp} {outcome : Outcome} (h : c.close on = .ok (c', outcome)) :
    c.Becomes (.close on) c' := by
  simp only [close, bind_eq_ok, ensureStatus_inForce] at h
  obtain ⟨_, inForce, h⟩ := h
  split at h
  · obtain ⟨rfl, _⟩ := Prod.mk.inj (pure_eq_ok.mp h)
    exact .same _
  · next closed =>
    obtain ⟨rfl, _⟩ := Prod.mk.inj (pure_eq_ok.mp h)
    exact .close inForce (Option.not_isSome_iff_eq_none.mp closed)

/-- Voiding, whether or not there is a replacer. -/
theorem voidWith_eq_ok {replacer : Option CaseId} {on : Timestamp} {outcome : Outcome}
    (h : c.voidWith replacer on = .ok (c', outcome)) :
    c' = c ∨ c.IsInForce ∧ ¬c.IsVoid ∧ ∃ info, info = c.voidInfo.getD ⟨"", none, none⟩ ∧
      c' = { c with voidInfo := some ⟨info.reason, some on, info.replacer.or replacer⟩ } := by
  simp only [voidWith, bind_eq_ok, ensureStatus_inForce] at h
  obtain ⟨_, inForce, h⟩ := h
  split at h
  · obtain ⟨rfl, _⟩ := Prod.mk.inj (pure_eq_ok.mp h)
    exact .inl rfl
  · next valid =>
    obtain ⟨rfl, _⟩ := Prod.mk.inj (pure_eq_ok.mp h)
    exact .inr ⟨inForce, valid, _, rfl, rfl⟩

theorem makeVoid_becomes {on : Timestamp} {outcome : Outcome} (h : c.makeVoid on = .ok (c', outcome)) :
    c.Becomes (.makeVoid on) c' := by
  rcases voidWith_eq_ok h with rfl | ⟨inForce, valid, info, known, rfl⟩
  · exact .same _
  · rw [Option.or_none]
    exact .makeVoid inForce valid known

theorem voidAndReplace_becomes {replacer : CaseId} {on : Timestamp} {outcome : Outcome}
    (h : c.voidAndReplace replacer on = .ok (c', outcome)) :
    c.Becomes (.voidAndReplace replacer on) c' := by
  rcases voidWith_eq_ok h with rfl | ⟨inForce, valid, info, known, rfl⟩
  · exact .same _
  · exact .voidAndReplace inForce valid known

theorem addCollectionItem_becomes {itemId : String} {on : Timestamp} {fees : Fees} {outcome : Outcome}
    (h : c.addCollectionItem itemId on fees = .ok (c', outcome)) :
    c.Becomes (.addCollectionItem itemId on fees) c' := by
  simp only [addCollectionItem, ensure_bind_eq_ok] at h
  obtain ⟨collection, h⟩ := h
  split at h
  · obtain ⟨rfl, _⟩ := Prod.mk.inj (pure_eq_ok.mp h)
    exact .same _
  · next fresh =>
    obtain ⟨rfl, _⟩ := Prod.mk.inj (pure_eq_ok.mp h)
    exact .addEntry collection fresh

end

/-- Whatever operation is done, it makes of the case what it may make of it. -/
theorem apply_becomes (op : CaseOperation) (c : Case) : c.Becomes op ((Case.apply op).run c).2 := by
  cases op with
  | submit =>
    refine silently_induction (.same _) fun later done => ?_
    simp only [submit, bind_eq_ok, pure_eq_ok, ensure_eq_ok, ensureStatus_eq_ok, List.mem_singleton] at done
    obtain ⟨_, draft, _, verified, _, asked, rfl⟩ := done
    exact .submit draft verified asked
  | accept on =>
    refine silently_induction (.same _) fun later done => ?_
    simp only [accept, bind_eq_ok, pure_eq_ok, ensureStatus_eq_ok, List.mem_singleton] at done
    obtain ⟨_, requested, rfl⟩ := done
    exact .accept requested
  | reject reason on =>
    refine silently_induction (.same _) fun later done => ?_
    simp only [reject, bind_eq_ok, pure_eq_ok, ensureStatus_eq_ok, List.mem_singleton] at done
    obtain ⟨_, requested, rfl⟩ := done
    exact .reject requested
  | rework =>
    refine silently_induction (.same _) fun later done => ?_
    simp only [rework, bind_eq_ok, pure_eq_ok, ensureStatus_eq_ok, List.mem_singleton] at done
    obtain ⟨_, rejected, rfl⟩ := done
    exact .rework rejected
  | setCreatedDate on =>
    show c.Becomes (.setCreatedDate on)
      ((setCreatedDate on >>= fun outcome => pure (CaseReply.outcome outcome)).run c).2
    rw [Action.run_bind_pure]
    exact setCreatedDate_becomes on c
  | setCreationFees fees =>
    refine withOutcome_induction (.same _) fun later outcome done => ?_
    have becomes := setCreationFees_becomes fees c
    rwa [Except.ok.inj done] at becomes
  | preClose =>
    refine silently_induction (.same _) fun later done => ?_
    simp only [preClose, bind_eq_ok, pure_eq_ok, ensureStatus_eq_ok, List.mem_singleton] at done
    obtain ⟨_, opened, rfl⟩ := done
    exact .preClose opened
  | close on => exact withOutcome_induction (.same _) fun _ _ => close_becomes
  | preVoid reason =>
    refine silently_induction (.same _) fun later done => ?_
    simp only [preVoid, bind_eq_ok, pure_eq_ok, ensure_eq_ok, ensureStatus_inForce] at done
    obtain ⟨_, inForce, _, fresh, rfl⟩ := done
    exact .preVoid inForce fresh
  | makeVoid on => exact withOutcome_induction (.same _) fun _ _ => makeVoid_becomes
  | voidAndReplace replacer on => exact withOutcome_induction (.same _) fun _ _ => voidAndReplace_becomes
  | startIdentityVerification =>
    refine silently_induction (.same _) fun later done => ?_
    simp only [startIdentityVerification, bind_eq_ok, pure_eq_ok, ensureStatus_eq_ok,
      List.mem_singleton] at done
    obtain ⟨_, draft, rfl⟩ := done
    exact .startVerification draft
  | completeIdentityVerification success =>
    refine silently_induction (.same _) fun later done => ?_
    simp only [completeIdentityVerification, bind_eq_ok, pure_eq_ok, ensure_eq_ok] at done
    obtain ⟨_, pending, rfl⟩ := done
    exact .completeVerification pending
  | addDelegate actor delegate =>
    refine silently_induction (.same _) fun later done => ?_
    simp only [addDelegate, bind_eq_ok, pure_eq_ok, ensure_eq_ok, ensureOwner_eq_ok,
      ensureEditable_eq_ok] at done
    obtain ⟨_, byOwner, _, editable, _, outside, rfl⟩ := done
    exact .addDelegate byOwner editable outside
  | removeDelegate actor delegate =>
    refine silently_induction (.same _) fun later done => ?_
    simp only [removeDelegate, bind_eq_ok, pure_eq_ok, ensureOwner_eq_ok, ensureEditable_eq_ok] at done
    obtain ⟨_, byOwner, _, editable, rfl⟩ := done
    exact .removeDelegate byOwner editable
  | addCollectionItem itemId on fees =>
    exact withOutcome_induction (.same _) fun _ _ => addCollectionItem_becomes
  | addItem kind submitter payload =>
    refine withChanges_induction (.same _) fun later changes done => ?_
    simp only [addItem, bind_eq_ok, ensure_eq_ok, ensureEditable_eq_ok, onCollection_eq_ok] at done
    obtain ⟨_, editable, _, contributor, new, done, rfl⟩ := done
    exact .addItem editable contributor done
  | removeItem kind actor key =>
    refine withChanges_induction (.same _) fun later changes done => ?_
    simp only [removeItem, bind_eq_ok, ensureEditable_eq_ok, onCollection_eq_ok] at done
    obtain ⟨_, editable, new, done, rfl⟩ := done
    exact .removeItem editable done
  | performOnItem kind step actor key =>
    refine withChanges_induction (.same _) fun later changes done => ?_
    simp only [performOnItem, bind_eq_ok, ensureEditable_eq_ok, onCollection_eq_ok] at done
    obtain ⟨_, editable, new, done, rfl⟩ := done
    exact .performOnItem editable done
  | stampItem kind stamp key =>
    refine withChanges_induction (.same _) fun later changes done => ?_
    obtain ⟨new, stamped, rfl⟩ := onCollection_eq_ok.mp done
    exact .stampItem stamped
  | setRestrictedDelivery actor hash restricted =>
    refine withChanges_induction (.same _) fun later changes done => ?_
    simp only [setRestrictedDelivery, bind_eq_ok, ensure_eq_ok, ensureOwner_eq_ok,
      onCollection_eq_ok] at done
    obtain ⟨_, byOwner, _, valid, new, done, rfl⟩ := done
    exact .setRestrictedDelivery byOwner valid done
  | addDeliveredCopy hash copy =>
    refine withChanges_induction (.same _) fun later changes done => ?_
    simp only [addDeliveredCopy, bind_eq_ok, ensure_eq_ok, onCollection_eq_ok] at done
    obtain ⟨_, valid, new, done, rfl⟩ := done
    exact .addDeliveredCopy valid done

end CaseRegistry.Case
