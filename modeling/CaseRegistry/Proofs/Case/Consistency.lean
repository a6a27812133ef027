import CaseRegistry.Proofs.Case.Becoming

/-! What the fields of a case say of each other.

A case is `Consistent` if its status, its requester, its dates, its voiding, the
verification of the person, its delegates and its entries fit together. The makers make
consistent cases (`build_consistent`), and whatever an operation makes of a consistent
case is consistent (`Becomes.consistent`), so that every case that can come about is.
The status moves along its graph with every operation, whatever the case
(`Becomes.status`). -/
namespace CaseRegistry

/-- The moves of a case from one status to another. -/
inductive CaseStatus.Moves : CaseStatus → CaseStatus → Prop where
  | submit : Moves .draft .requested
  | reject : Moves .requested .rejected
  | accept : Moves .requested .opened
  | rework : Moves .rejected .draft
  | close : Moves .opened .closed

namespace Case

structure Consistent (c : Case) : Prop where
  /-- A case about a person is not asked for by an identity case. -/
  person : c.kind = .identity → ∀ id, c.requester ≠ some (.identityCase id)
  /-- Only the draft of a case may lack a requester, unless it is about a person. -/
  asked : c.kind ≠ .identity → c.status ≠ .draft → c.requester.isSome
  seals : c.sealInfo.isSome → c.kind = .identity
  entries : c.collectionItems ≠ [] → c.kind = .collection
  entryIds : (c.collectionItems.map CollectionEntry.itemId).Nodup
  decision : c.decisionOn.isSome ↔ c.status = .rejected ∨ c.status = .opened ∨ c.status = .closed
  rejection : c.rejectionReason.isSome ↔ c.status = .rejected
  closing : c.closedOn.isSome → c.status = .closed
  voiding : c.voidInfo.isSome → c.status = .opened ∨ c.status = .closed
  /-- A replacer is known only once the ledger has voided the case. -/
  replacement : ∀ info ∈ c.voidInfo, info.replacer.isSome → info.voidedOn.isSome
  verification : c.identityVerification = some .pending → c.status = .draft
  outsiders : ∀ who ∈ c.delegates, ¬c.IsParty who

section
variable {c c' : Case} {op : CaseOperation}

/-! ### Making a case -/

/-- A case as it is made, before anything is decided on it. -/
structure Made (d : CaseDefinition) (status : CaseStatus) (c : Case) : Prop where
  person : d.kind = .identity → ∀ id, d.requester ≠ some (.identityCase id)
  asked : d.kind ≠ .identity → status ≠ .draft → d.requester.isSome
  seals : d.sealInfo.isSome → d.kind = .identity
  fresh : c = ⟨d.id, status, d.owner, d.requester, d.description, d.kind, none, none, none, none, none,
    d.sealInfo, none, none, ∅, ∅, []⟩

theorem build_eq_ok {status : CaseStatus} {d : CaseDefinition} (h : build status d = .ok c) :
    Made d status c := by
  simp only [build, bind_eq_ok, ensure_eq_ok, pure_eq_ok] at h
  obtain ⟨_, person, _, asked, _, seals, rfl⟩ := h
  refine ⟨fun identity id standsFor => person ⟨identity, ?_⟩, fun other notDraft => ?_, fun sealed => ?_, rfl⟩
  · rw [standsFor]
    rfl
  · rcases asked with identity | known | draft
    · exact absurd identity other
    · exact known
    · exact absurd draft notDraft
  · rcases seals with none | identity
    · simp [none] at sealed
    · exact identity

/-- A case that is made without a decision is consistent. -/
theorem Made.consistent {status : CaseStatus} {d : CaseDefinition} (h : Made d status c)
    (undecided : status = .draft ∨ status = .requested) : c.Consistent := by
  obtain ⟨person, asked, seals, rfl⟩ := h
  refine ⟨person, asked, seals, by simp, by simp, ?_, ?_, by simp, by simp, by simp, by simp, nofun⟩ <;>
    rcases undecided with rfl | rfl <;> simp

/-- A case that is opened right away is decided on by that. -/
theorem Made.opened_consistent {d : CaseDefinition} {on : Timestamp} (h : Made d .opened c) :
    Consistent { c with decisionOn := some on } := by
  obtain ⟨person, asked, seals, rfl⟩ := h
  exact ⟨person, asked, seals, by simp, by simp, by simp, by simp, by simp, by simp, by simp, by simp,
    nofun⟩

/-! ### Every operation -/

theorem Becomes.status (h : c.Becomes op c') : c'.status = c.status ∨ c.status.Moves c'.status := by
  cases h with
  | submit draft => exact .inr (draft ▸ .submit)
  | accept requested => exact .inr (requested ▸ .accept)
  | reject requested => exact .inr (requested ▸ .reject)
  | rework rejected => exact .inr (rejected ▸ .rework)
  | createRequested _ requested => exact .inr (requested ▸ .accept)
  | preClose opened => exact .inr (opened ▸ .close)
  | close inForce =>
    rcases inForce with opened | closed
    · exact .inr (opened ▸ .close)
    · exact .inl closed.symm
  | _ => exact .inl rfl

theorem Becomes.consistent (h : c.Becomes op c') (hc : c.Consistent) : c'.Consistent := by
  cases h with
  | same => exact hc
  | submit draft verified asked =>
    exact { hc with
      asked := fun other _ => asked.resolve_right other
      decision := by simpa [draft] using hc.decision
      rejection := by simpa [draft] using hc.rejection
      closing := by simpa [draft] using hc.closing
      voiding := by simpa [draft] using hc.voiding
      verification := fun pending => absurd pending verified }
  | accept requested =>
    exact { hc with
      asked := by simpa [requested] using hc.asked
      decision := by simp
      rejection := by simpa [requested] using hc.rejection
      closing := by simpa [requested] using hc.closing
      voiding := fun _ => .inl rfl
      verification := by simpa [requested] using hc.verification }
  | reject requested =>
    exact { hc with
      asked := by simpa [requested] using hc.asked
      decision := by simp
      rejection := by simp
      closing := by simpa [requested] using hc.closing
      voiding := by simpa [requested] using hc.voiding
      verification := by simpa [requested] using hc.verification }
  | rework rejected =>
    exact { hc with
      asked := fun _ notDraft => absurd rfl notDraft
      decision := by simp
      rejection := by simp
      closing := by simpa [rejected] using hc.closing
      voiding := by simpa [rejected] using hc.voiding
      verification := fun _ => rfl }
  | create => exact { hc with }
  | createRequested fresh requested =>
    exact { hc with
      asked := by simpa [requested] using hc.asked
      decision := by simp
      rejection := by simpa [requested] using hc.rejection
      closing := by simpa [requested] using hc.closing
      voiding := fun _ => .inl rfl
      verification := by simpa [requested] using hc.verification }
  | charge => exact { hc with }
  | preClose opened =>
    exact { hc with
      asked := by simpa [opened] using hc.asked
      decision := by simpa [opened] using hc.decision
      rejection := by simpa [opened] using hc.rejection
      closing := fun _ => rfl
      voiding := fun _ => .inr rfl
      verification := by simpa [opened] using hc.verification }
  | close inForce =>
    have notDraft : c.status ≠ .draft := by rcases inForce with h | h <;> simp [h]
    have notRejected : c.status ≠ .rejected := by rcases inForce with h | h <;> simp [h]
    exact { hc with
      asked := fun other _ => hc.asked other notDraft
      decision := by simpa using hc.decision.mpr (.inr inForce)
      rejection := by simpa [notRejected] using hc.rejection
      closing := fun _ => rfl
      voiding := fun _ => .inr rfl
      verification := fun pending => absurd (hc.verification pending) notDraft }
  | preVoid inForce =>
    exact { hc with
      voiding := fun _ => inForce
      replacement := by simp }
  | makeVoid inForce | voidAndReplace inForce =>
    exact { hc with
      voiding := fun _ => inForce
      replacement := by simp }
  | startVerification draft => exact { hc with verification := fun _ => draft }
  | @completeVerification success pending =>
    exact { hc with verification := by cases success <;> simp }
  | addDelegate byOwner editable outside =>
    refine { hc with outsiders := fun who member => ?_ }
    rcases IdentitySet.mem_insert.mp member with rfl | old
    · exact outside
    · exact hc.outsiders who old
  | removeDelegate =>
    exact { hc with outsiders := fun who member => hc.outsiders who (IdentitySet.mem_erase.mp member).1 }
  | addEntry collection fresh =>
    exact { hc with
      entries := fun _ => collection
      entryIds := by simpa [List.nodup_append, hc.entryIds] using fresh }
  | addItem | removeItem | performOnItem | stampItem | setRestrictedDelivery | addDeliveredCopy =>
    exact { hc with }

end

/-- The case after operations one after the other, those that fail included. -/
def after (c : Case) (ops : List CaseOperation) : Case :=
  ops.foldl (fun c op => ((Case.apply op).run c).2) c

theorem Reachable.after {c : Case} (h : c.Reachable) (ops : List CaseOperation) :
    (c.after ops).Reachable := by
  induction ops generalizing c with
  | nil => exact h
  | cons op rest ih => exact ih (.apply op h)

theorem Reachable.consistent {c : Case} (h : c.Reachable) : c.Consistent := by
  induction h with
  | draft made => exact (build_eq_ok made).consistent (.inl rfl)
  | request made => exact (build_eq_ok made).consistent (.inr rfl)
  | openNew made =>
    simp only [Case.openNew, bind_eq_ok, pure_eq_ok] at made
    obtain ⟨c, made, rfl⟩ := made
    exact (build_eq_ok made).opened_consistent
  | apply op _ ih => exact (apply_becomes op _).consistent ih

/-- In every case that can come about the fields fit together, and every operation, whether it
succeeds or fails, leaves the status or moves it along the graph. -/
theorem reachable_consistent {c : Case} (h : c.Reachable) :
    c.Consistent ∧ ∀ op, ((Case.apply op).run c).2.status = c.status ∨
      c.status.Moves ((Case.apply op).run c).2.status :=
  ⟨h.consistent, fun op => (apply_becomes op c).status⟩

end Case

/-! ### A collection that is voided and closed -/

namespace Sample

def prints : CaseDefinition where
  id := ⟨⟨List.replicate 16 2, rfl⟩⟩
  owner := ⟨"gallery"⟩
  requester := some (.address ⟨"artist"⟩)
  description := "a series of prints"
  kind := .collection
  sealInfo := none

/-- The ledger accepts the request; the case is handed in once more after that, which fails. -/
def printsHistory : List CaseOperation :=
  [.submit, .setCreatedDate .epoch, .addDelegate ⟨"gallery"⟩ ⟨"framer"⟩,
    .addCollectionItem "first print" .epoch ⟨5, none⟩, .submit, .preVoid "sold", .close .epoch,
    .voidAndReplace ⟨⟨List.replicate 16 3, rfl⟩⟩ .epoch]

end Sample

theorem Case.consistent_of_prints :
    ∃ made, Case.draft Sample.prints = .ok made ∧
      let c := made.after Sample.printsHistory
      c.status = .closed ∧ c.IsVoid ∧ c.Reachable ∧
        c.Consistent ∧ ∀ op, ((Case.apply op).run c).2.status = c.status ∨
          c.status.Moves ((Case.apply op).run c).2.status := by
  have reachable := (Case.Reachable.draft (d := Sample.prints) rfl).after Sample.printsHistory
  exact ⟨_, rfl, by decide +kernel, by decide +kernel, reachable, Case.reachable_consistent reachable⟩

end CaseRegistry
