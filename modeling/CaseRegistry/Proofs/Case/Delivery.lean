import CaseRegistry.Proofs.Case.FourEyes
import CaseRegistry.Proofs.Case.Runs

/-! Where delivered copies come from.

A file lists the copies that the payload it was added with listed, and behind them those that were
recorded since (`DeliveredSince`). Only recording a copy makes the list longer, and it asks for a
file that the ledger has confirmed and a hash that the list does not have, so what is wrong with
the list of a file was wrong in its payload (`delivered_since_added`). Adding a file asks nothing
of the copies its payload lists (`copies_on_trust`). -/
namespace CaseRegistry

namespace Item

variable {c : Case} {op : CaseOperation} {file later : Item .file} {payload : FilePayload}

/-- The hashes of the copies that a list of deliveries names. -/
def copyHashes (copies : List DeliveredCopy) : List ContentHash := copies.map DeliveredCopy.hash

/-- What is true of the list of copies if each was recorded as it should be. -/
structure HasGenuineCopies (file : Item .file) : Prop where
  confirmed : file.payload.delivered ≠ [] → file.addedOn.isSome
  once : (copyHashes file.payload.delivered).Nodup

/-- A file that was added with a payload, and the copies that were recorded since. -/
structure DeliveredSince (file : Item .file) (payload : FilePayload) (since : List DeliveredCopy) :
    Prop where
  hash : file.payload.hash = payload.hash
  delivered : file.payload.delivered = payload.delivered ++ since
  confirmed : since ≠ [] → file.addedOn.isSome
  once : (copyHashes since).Nodup
  fresh : ∀ copy ∈ since, copy.hash ∉ copyHashes payload.delivered

/-! ### One operation -/

/-- What an operation makes of the copies a file lists. -/
inductive ListsCopies (file later : Item .file) : Prop where
  | same (delivered : later.payload.delivered = file.payload.delivered)
  | recorded (copy : DeliveredCopy)
      (delivered : later.payload.delivered = file.payload.delivered ++ [copy])
      (confirmed : file.addedOn.isSome) (fresh : copy.hash ∉ copyHashes file.payload.delivered)

theorem Performed.payload_eq {kind : ItemKind} {ctx : CaseContext} {actor : Identity}
    {item later : Item kind} {step : ItemStep} (h : item.Performed ctx actor step later) :
    later.payload = item.payload := by
  cases h <;> rfl

theorem Stamped.payload_eq {kind : ItemKind} {item later : Item kind} {stamp : ItemStamp}
    (h : item.Stamped stamp later) : later.payload = item.payload := by
  cases h <;> rfl

theorem restrictDelivery_delivered (restricted : Bool) (file : Item .file) :
    (Collection.restrictDelivery restricted file).1.payload.delivered = file.payload.delivered := by
  unfold Collection.restrictDelivery
  split <;> rfl

theorem deliverCopy_listsCopies {copy : DeliveredCopy} {changes : ChangeSet}
    (h : Collection.deliverCopy copy file = .ok (later, changes)) : file.ListsCopies later := by
  simp only [Collection.deliverCopy, ensure_bind_eq_ok, pure_eq_ok] at h
  obtain ⟨confirmed, _, fresh, hlater⟩ := h
  obtain rfl := (Prod.mk.inj hlater).1
  exact .recorded copy rfl (Option.isSome_iff_ne_none.mpr confirmed) fresh

theorem Becomes.listsCopies (h : file.Becomes c op later) : file.ListsCopies later := by
  cases h with
  | same | moved => exact .same rfl
  | performed _ performed => exact .same (by rw [performed.payload_eq])
  | stamped stamped => exact .same (by rw [stamped.payload_eq])
  | @restricted _ payload _ restricted _ _ restrict =>
    exact .same (restrict ▸ restrictDelivery_delivered restricted file)
  | delivered _ deliver => exact deliverCopy_listsCopies deliver

theorem deliveredSince_new (index : Nat) (submitter : Identity) (mode : SubmissionMode)
    (payload : FilePayload) :
    DeliveredSince (Item.new index submitter mode payload) payload [] where
  hash := rfl
  delivered := (List.append_nil _).symm
  confirmed := nofun
  once := .nil
  fresh := nofun

/-- Whatever is done to a file, at most one more copy is listed. -/
theorem DeliveredSince.step {since : List DeliveredCopy} (h : file.DeliveredSince payload since)
    (becomes : file.Becomes c op later) : ∃ since, later.DeliveredSince payload since := by
  have continues := becomes.continues
  have hash : later.payload.hash = payload.hash := Eq.trans continues.key h.hash
  have still : file.addedOn.isSome → later.addedOn.isSome := fun confirmed => by
    obtain ⟨on, hon⟩ := Option.isSome_iff_exists.mp confirmed
    exact Option.isSome_iff_exists.mpr ⟨on, continues.addedOn on hon⟩
  cases becomes.listsCopies with
  | same delivered =>
    exact ⟨since, hash, delivered.trans h.delivered, fun more => still (h.confirmed more), h.once,
      h.fresh⟩
  | recorded copy delivered confirmed fresh =>
    -- The check against the whole list is one against both of its parts.
    rw [h.delivered, copyHashes, List.map_append, List.mem_append, not_or] at fresh
    refine ⟨since ++ [copy], hash, ?_, fun _ => still confirmed, ?_, ?_⟩
    · rw [delivered, h.delivered, List.append_assoc]
    · rw [copyHashes, List.map_append]
      exact List.nodup_append.mpr ⟨h.once, List.nodup_singleton _, by
        rintro a mem b single rfl
        exact fresh.2 (List.mem_singleton.mp single ▸ mem)⟩
    · intro other mem
      rcases List.mem_append.mp mem with mem | single
      · exact h.fresh other mem
      · obtain rfl := List.mem_singleton.mp single
        exact fresh.1

/-- The list of a file is in order if that of its payload was. -/
theorem DeliveredSince.genuine_iff {since : List DeliveredCopy}
    (h : file.DeliveredSince payload since) : file.HasGenuineCopies ↔
      (payload.delivered ≠ [] → file.addedOn.isSome) ∧ (copyHashes payload.delivered).Nodup := by
  have hashes : copyHashes file.payload.delivered =
      copyHashes payload.delivered ++ copyHashes since := by
    rw [h.delivered, copyHashes, List.map_append]
    rfl
  constructor
  · rintro ⟨confirmed, once⟩
    rw [hashes] at once
    refine ⟨fun listed => confirmed ?_, (List.nodup_append.mp once).1⟩
    rw [h.delivered]
    simp [listed]
  · rintro ⟨confirmed, once⟩
    refine ⟨fun listed => ?_, ?_⟩
    · rw [h.delivered, ne_eq, List.append_eq_nil_iff, not_and_or] at listed
      exact listed.elim confirmed h.confirmed
    · rw [hashes]
      refine List.nodup_append.mpr ⟨once, h.once, ?_⟩
      rintro hash before _ mem rfl
      obtain ⟨copy, listed, rfl⟩ := List.mem_map.mp mem
      exact h.fresh copy listed before

end Item

namespace Case

variable {c : Case} {ops known : List CaseOperation}

/-- The case has just been made. -/
def IsNew (c : Case) : Prop :=
  ∃ d, draft d = .ok c ∨ request d = .ok c ∨ ∃ on, openNew d on = .ok c

theorem IsNew.bare (h : c.IsNew) : c.items = ∅ := by
  obtain ⟨d, made | made | ⟨on, made⟩⟩ := h
  · rw [(build_eq_ok made).fresh]
  · rw [(build_eq_ok made).fresh]
  · simp only [Case.openNew, bind_eq_ok, pure_eq_ok] at made
    obtain ⟨c, made, rfl⟩ := made
    rw [(build_eq_ok made).fresh]

/-- Every file was added by one of the operations with a payload, and lists the copies of that
payload and those recorded since. -/
def TracesCopies (known : List CaseOperation) (c : Case) : Prop :=
  ∀ file ∈ (c.collection .file).items, ∃ submitter payload,
    .addItem .file submitter payload ∈ known ∧ ∃ since, file.DeliveredSince payload since

theorem TracesCopies.step {op : CaseOperation} (h : c.TracesCopies known) (mem : op ∈ known) :
    ((Case.apply op).run c).2.TracesCopies known := by
  intro later there
  rcases (apply_becomes op c).origin there with
    ⟨file, hfile, becomes⟩ | ⟨submitter, payload, rfl, _, _, rfl⟩
  · obtain ⟨submitter, payload, added, since, delivered⟩ := h file hfile
    exact ⟨submitter, payload, added, delivered.step becomes⟩
  · exact ⟨submitter, payload, mem, [], Item.deliveredSince_new _ _ _ payload⟩

theorem TracesCopies.after (h : c.TracesCopies known) (all : ∀ op ∈ ops, op ∈ known) :
    (c.after ops).TracesCopies known := by
  induction ops generalizing c with
  | nil => exact h
  | cons op rest ih =>
    obtain ⟨first, others⟩ := List.forall_mem_cons.mp all
    exact ih (h.step first) others

/-- Whatever is done to a case after it is made, a file lists the copies of the payload it was added
with and behind them those recorded since, the latter only if it is confirmed, each with a new hash.
So it lists copies without being confirmed, or a hash twice, exactly if that is so with the copies
of the payload alone, and never if no payload lists copies. -/
theorem delivered_since_added (made : c.IsNew) (ops : List CaseOperation) :
    (∀ file ∈ ((c.after ops).collection .file).items, ∃ submitter payload,
      .addItem .file submitter payload ∈ ops ∧ (∃ since, file.DeliveredSince payload since) ∧
        (file.HasGenuineCopies ↔ (payload.delivered ≠ [] → file.addedOn.isSome) ∧
          (Item.copyHashes payload.delivered).Nodup)) ∧
      ((∀ submitter payload, .addItem .file submitter payload ∈ ops → payload.delivered = []) →
        ∀ file ∈ ((c.after ops).collection .file).items, file.HasGenuineCopies) := by
  have bare : c.TracesCopies ops := by
    intro file mem
    rw [collection_of_bare made.bare] at mem
    cases mem
  have traced := bare.after fun op mem => mem
  refine ⟨fun file there => ?_, fun none file there => ?_⟩
  · obtain ⟨submitter, payload, added, since, delivered⟩ := traced file there
    exact ⟨submitter, payload, added, ⟨since, delivered⟩, delivered.genuine_iff⟩
  · obtain ⟨submitter, payload, added, since, delivered⟩ := traced file there
    rw [delivered.genuine_iff, none submitter payload added]
    exact ⟨fun listed => absurd rfl listed, .nil⟩

end Case

/-! ### A survey that is handed out -/

namespace Sample

def surveyCopy : DeliveredCopy := ⟨⟨"copy"⟩, ⟨"bank"⟩, .epoch⟩

/-- The notary's survey, with the copies that it is said to have been delivered in. -/
def survey (copies : List DeliveredCopy) : FilePayload :=
  ⟨⟨"survey"⟩, "survey.pdf", 4, "application/pdf", "vault", "survey", true, copies⟩

/-- The survey is added and a copy is recorded: too early, in time, and again. -/
def surveyHandedOut : List CaseOperation :=
  [.addItem .file ⟨"notary"⟩ (survey []), .addDeliveredCopy ⟨"survey"⟩ surveyCopy,
    .stampItem .file (.added .epoch) ⟨"survey"⟩, .addDeliveredCopy ⟨"survey"⟩ surveyCopy,
    .addDeliveredCopy ⟨"survey"⟩ surveyCopy]

end Sample

namespace Case

theorem delivered_of_survey :
    ∃ made, Case.openNew Sample.estate .epoch = .ok made ∧
      let c := made.after Sample.surveyHandedOut
      (c.collection .file).items.map (·.payload.delivered) = [[Sample.surveyCopy]] ∧
        ∀ file ∈ (c.collection .file).items, file.HasGenuineCopies := by
  refine ⟨_, rfl, by decide +kernel, ?_⟩
  refine (Case.delivered_since_added ⟨Sample.estate, .inr (.inr ⟨.epoch, rfl⟩)⟩
    Sample.surveyHandedOut).2 ?_
  simp [Sample.surveyHandedOut, Sample.survey]

/-- A survey that comes with a copy, listed twice, is added as it is. -/
theorem copies_on_trust :
    ∃ made, Case.openNew Sample.estate .epoch = .ok made ∧
      let c := made.after
        [.addItem .file ⟨"notary"⟩ (Sample.survey [Sample.surveyCopy, Sample.surveyCopy])]
      ∃ file ∈ (c.collection .file).items, file.addedOn = none ∧
        file.payload.delivered = [Sample.surveyCopy, Sample.surveyCopy] ∧
        ¬(Item.copyHashes file.payload.delivered).Nodup := by
  refine ⟨_, rfl, _, List.mem_singleton.mpr rfl, rfl, rfl, ?_⟩
  decide +kernel

end Case
end CaseRegistry
