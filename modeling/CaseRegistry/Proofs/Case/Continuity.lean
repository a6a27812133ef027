import CaseRegistry.Proofs.Case.Items

/-! What a case keeps.

Whatever operation is done to a case, whether it succeeds or fails, the case after it
is a later state of the same case (`Case.Continues`): what it was made from stays, what
the ledger has recorded stays as it was recorded, a case that came into force does not
fall back, and the items of which a predicate `kept` holds are still there, as what
becomes of an item tells (`Becomes.fate`). Any operation leaves the confirmed items
(`apply_continues`); every operation that is no removal leaves all of them
(`apply_continues_all`). -/
namespace CaseRegistry

/-- Whether an operation removes an item. -/
def CaseOperation.IsRemoval : CaseOperation → Prop
  | .removeItem .. => True
  | _ => False

namespace Case

/-- What a later state of a case keeps of an earlier one. -/
structure Continues (kept : ∀ {kind : ItemKind}, Item kind → Prop) (c later : Case) : Prop where
  id : later.id = c.id
  owner : later.owner = c.owner
  requester : later.requester = c.requester
  description : later.description = c.description
  kind : later.kind = c.kind
  sealInfo : later.sealInfo = c.sealInfo
  createdOn : ∀ on, c.createdOn = some on → later.createdOn = some on
  creationFees : ∀ fees, c.creationFees = some fees → later.creationFees = some fees
  closedOn : ∀ on, c.closedOn = some on → later.closedOn = some on
  inForce : c.IsInForce → later.IsInForce
  voidInfo : c.IsVoid → later.voidInfo = c.voidInfo
  collectionItems : c.collectionItems <+: later.collectionItems
  items : ∀ kind, (c.collection kind).Keeps kept (later.collection kind)

section
variable {kept : ∀ {kind : ItemKind}, Item kind → Prop} {c c' : Case}

theorem Continues.refl (c : Case) : c.Continues kept c where
  id := rfl
  owner := rfl
  requester := rfl
  description := rfl
  kind := rfl
  sealInfo := rfl
  createdOn _ h := h
  creationFees _ h := h
  closedOn _ h := h
  inForce h := h
  voidInfo _ := rfl
  collectionItems := List.prefix_rfl
  items _ := .refl _

theorem Continues.isVoid {later : Case} (h : c.Continues kept later) (hv : c.IsVoid) :
    later.IsVoid := by
  unfold IsVoid
  rw [h.voidInfo hv]
  exact hv

/-- Fewer items may be asked for. -/
theorem Continues.weaken {kept' : ∀ {kind : ItemKind}, Item kind → Prop} {later : Case}
    (h : c.Continues kept later) (fewer : ∀ {kind : ItemKind} (item : Item kind), kept' item → kept item) :
    c.Continues kept' later :=
  { h with items := fun kind key item found hk => h.items kind key item found (fewer item hk) }

/-- Continuity carries on, for items whose later states are kept as well. -/
theorem Continues.trans
    (stays : ∀ {kind : ItemKind} {item after : Item kind}, item.Continues after → kept item → kept after)
    {c later last : Case} (h : c.Continues kept later) (h' : later.Continues kept last) :
    c.Continues kept last where
  id := h'.id.trans h.id
  owner := h'.owner.trans h.owner
  requester := h'.requester.trans h.requester
  description := h'.description.trans h.description
  kind := h'.kind.trans h.kind
  sealInfo := h'.sealInfo.trans h.sealInfo
  createdOn on hon := h'.createdOn on (h.createdOn on hon)
  creationFees fees hf := h'.creationFees fees (h.creationFees fees hf)
  closedOn on hon := h'.closedOn on (h.closedOn on hon)
  inForce hc := h'.inForce (h.inForce hc)
  voidInfo hv := (h'.voidInfo (h.isVoid hv)).trans (h.voidInfo hv)
  collectionItems := h.collectionItems.trans h'.collectionItems
  items kind key item found hk := by
    obtain ⟨after, hafter, hcont⟩ := h.items kind key item found hk
    obtain ⟨last, hlast, hcont'⟩ := h'.items kind key after hafter (stays hcont hk)
    exact ⟨last, hlast, hcont.trans hcont'⟩

/-- What is confirmed stays confirmed, so that states in which confirmed items are kept carry on. -/
theorem Continues.trans_confirmed {c later last : Case} (h : c.Continues (¬·.IsDraft) later)
    (h' : later.Continues (¬·.IsDraft) last) : c.Continues (¬·.IsDraft) last :=
  h.trans (fun continues => continues.not_isDraft) h'

/-! ### Every operation -/

/-- What an operation makes of a case is a later state of it, if none of the items to be kept are
removed. -/
theorem Becomes.continues {op : CaseOperation} (h : c.Becomes op c')
    (confirmed : op.IsRemoval → ∀ {kind : ItemKind} (item : Item kind), kept item → ¬item.IsDraft) :
    c.Continues kept c' := by
  have same : c.Continues kept c := .refl c
  have items : ∀ kind, (c.collection kind).Keeps kept (c'.collection kind) := by
    intro kind key item found hk
    rcases h.fate found with ⟨later, hlater, becomes⟩ | ⟨⟨actor, rfl⟩, draft⟩
    · exact ⟨later, hlater, becomes.continues⟩
    · exact absurd draft (confirmed trivial item hk)
  cases h with
  | same => exact same
  | submit draft => exact { same with inForce := by simp [IsInForce, draft] }
  | accept => exact { same with inForce := fun _ => .inl rfl }
  | reject requested => exact { same with inForce := by simp [IsInForce, requested] }
  | rework rejected => exact { same with inForce := by simp [IsInForce, rejected] }
  | create fresh => exact { same with createdOn := by simp [fresh] }
  | createRequested fresh =>
    exact { same with
      createdOn := by simp [fresh]
      inForce := fun _ => .inl rfl }
  | charge fresh => exact { same with creationFees := by simp [fresh] }
  | preClose => exact { same with inForce := fun _ => .inr rfl }
  | close inForce fresh =>
    exact { same with
      closedOn := by simp [fresh]
      inForce := fun _ => .inr rfl }
  | preVoid inForce fresh => exact { same with voidInfo := by simp [IsVoid, fresh] }
  | makeVoid inForce valid | voidAndReplace inForce valid =>
    exact { same with voidInfo := fun isVoid => absurd isVoid valid }
  | startVerification | completeVerification | addDelegate | removeDelegate => exact { same with }
  | addEntry => exact { same with collectionItems := List.prefix_append _ _ }
  | addItem | removeItem | performOnItem | stampItem | setRestrictedDelivery | addDeliveredCopy =>
    exact { same with items }

end

/-- Whatever is done to a case, what the ledger has confirmed stays in it. -/
theorem apply_continues (op : CaseOperation) (c : Case) :
    c.Continues (fun item => ¬item.IsDraft) ((Case.apply op).run c).2 :=
  (apply_becomes op c).continues fun _ _ _ confirmed => confirmed

theorem continues_after (c : Case) (ops : List CaseOperation) :
    c.Continues (fun item => ¬item.IsDraft) (c.after ops) := by
  induction ops generalizing c with
  | nil => exact .refl c
  | cons op rest ih => exact (apply_continues op c).trans_confirmed (ih _)

/-- What removes no item keeps all of them. -/
theorem apply_continues_all {op : CaseOperation} (h : ¬op.IsRemoval) (c : Case) :
    c.Continues (fun _ => True) ((Case.apply op).run c).2 :=
  (apply_becomes op c).continues fun removal => absurd removal h

end Case
end CaseRegistry
