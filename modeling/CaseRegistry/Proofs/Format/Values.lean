import CaseRegistry.Format.Values
import CaseRegistry.Proofs.Json.Lawful
import CaseRegistry.Proofs.Time.Texts

/-! The small values that records are made of are written and read lawfully.

What fits is what fields of fixed width can hold: counts of 64 bits, dates in the years that are
kept, and amounts below a limit of at most 128 bits, which is a parameter: the numbers that are
allowed decide where it lies (`Admits`). -/
namespace CaseRegistry

namespace Identity

theorem lt_irrefl (who : Identity) : ¬who < who := String.lt_irrefl who.address

end Identity

namespace IdentitySet

theorem insertSorted_last {who : Identity} {list : List Identity} (last : ∀ other ∈ list, other < who) :
    insertSorted who list = list ++ [who] := by
  induction list with
  | nil => rfl
  | cons other rest ih =>
    obtain ⟨first, others⟩ := List.forall_mem_cons.1 last
    have ne : who ≠ other := fun same => Identity.lt_irrefl who (same ▸ first)
    have nlt : ¬who < other := fun lt => Identity.lt_irrefl who (Identity.lt_trans lt first)
    simp [insertSorted, ne, nlt, ih others]

/-- Listed in order, each is put at the end. -/
theorem toList_foldl_insert (set : IdentitySet) (list : List Identity)
    (sorted : (set.toList ++ list).Pairwise (· < ·)) :
    (list.foldl (fun set who => set.insert who) set).toList = set.toList ++ list := by
  induction list generalizing set with
  | nil => simp
  | cons who rest ih =>
    have last : ∀ other ∈ set.toList, other < who := fun other mem =>
      (List.pairwise_append.1 sorted).2.2 other mem who List.mem_cons_self
    have grown : (set.insert who).toList = set.toList ++ [who] := insertSorted_last last
    rw [List.foldl_cons, ih (set.insert who) (by simpa [grown] using sorted), grown]
    simp

theorem ofList_toList (set : IdentitySet) : ofList set.toList = set := by
  have same : (ofList set.toList).toList = set.toList := toList_foldl_insert ∅ _ set.sorted
  cases set
  exact (IdentitySet.mk.injEq ..).mpr same

end IdentitySet

/-- An amount or two below a limit. -/
def Fees.Fits (limit : Nat) (f : Fees) : Prop := f.inclusion < limit ∧ ∀ storage ∈ f.storage, storage < limit

namespace Format

open Json

/-- All numbers of 64 bits are allowed, and of those of 128 bits just the ones below the limit. -/
structure Admits (allowed : Number → Prop) (limit : Nat) : Prop where
  counts {n : Nat} (fits : n < 2 ^ 64) : allowed (.integer n)
  amounts {n : Nat} (fits : n < 2 ^ 128) : allowed (.integer n) ↔ n < limit
  le : limit ≤ 2 ^ 128

theorem admits_isReadable : Admits Number.IsReadable (2 ^ 128) where
  counts fits := Number.isReadable_integer (Nat.lt_trans fits (by decide))
  amounts fits := ⟨fun _ => fits, fun _ => Number.isReadable_integer fits⟩
  le := Nat.le_refl _

section Lawful

variable {allowed : Number → Prop} {depth limit : Nat}

theorem lawful_caseId : caseId.Lawful allowed depth fun _ => True :=
  .text (fun id _ => CaseId.ofString?_toString id) fun _ _ _ => trivial

theorem lawful_identity : identity.Lawful allowed depth fun _ => True :=
  .iso .string (fun _ _ => rfl) (fun _ _ => trivial) fun _ _ => trivial

theorem lawful_contentHash : contentHash.Lawful allowed depth fun _ => True :=
  .iso .string (fun _ _ => rfl) (fun _ _ => trivial) fun _ _ => trivial

theorem lawful_timestamp : timestamp.Lawful allowed depth (·.date.IsInRange) :=
  .text (fun t inRange => t.ofString?_toString inRange) fun _ _ => Timestamp.isInRange_of_ofString?

theorem lawful_count (admits : Admits allowed limit) : count.Lawful allowed depth (· < 2 ^ 64) :=
  (Codec.Lawful.word 64).congr fun _ => ⟨And.left, fun fits => ⟨fits, admits.counts fits⟩⟩

theorem lawful_amount (admits : Admits allowed limit) : amount.Lawful allowed depth (· < limit) :=
  (Codec.Lawful.word 128).congr fun _ =>
    ⟨fun fits => (admits.amounts fits.1).1 fits.2, fun below =>
      have fits := Nat.lt_of_lt_of_le below admits.le
      ⟨fits, (admits.amounts fits).2 below⟩⟩

/-- No digit is the mark that may stand in front of the digits. -/
theorem toHex_ne (hash : Bytes 32) (digits : List Char) : hash.toHex ≠ '0' :: 'x' :: digits := by
  have noMark : ∀ n < 16, n.digitChar ≠ 'x' := by decide
  intro same
  unfold Bytes.toHex at same
  cases bytes : hash.toList with
  | nil => simp [bytes, Hex.encode] at same
  | cons b rest =>
    simp only [bytes, Hex.encode, List.cons.injEq] at same
    exact noMark _ (by omega) same.2.1

theorem lawful_sealHash : sealHash.Lawful allowed depth fun _ => True := by
  refine .text (fun hash _ => ?_) fun _ _ _ => trivial
  rw [String.toList_ofList]
  split
  · next digits same => exact absurd same (toHex_ne hash digits)
  · exact Bytes.ofHex?_toHex hash

theorem lawful_caseStatus : caseStatus.Lawful allowed depth fun _ => True :=
  .name fun status => by cases status <;> rfl

theorem lawful_itemStatus : itemStatus.Lawful allowed depth fun _ => True :=
  .name fun status => by cases status <;> rfl

theorem lawful_itemKind : itemKind.Lawful allowed depth fun _ => True :=
  .name fun kind => by cases kind <;> rfl

theorem lawful_caseKind : caseKind.Lawful allowed depth fun _ => True :=
  .name fun kind => by cases kind <;> rfl

theorem lawful_submissionMode : submissionMode.Lawful allowed depth fun _ => True :=
  .name fun mode => by cases mode <;> rfl

theorem lawful_reviewDecision : reviewDecision.Lawful allowed depth fun _ => True :=
  .name fun decision => by cases decision <;> rfl

theorem lawful_verificationStatus : verificationStatus.Lawful allowed depth fun _ => True :=
  .name fun status => by cases status <;> rfl

/-- An object with one field. -/
theorem object_single {f : Json → Json} (rearranges : Rearranges f) (name : String) (value : Json) :
    f (.object [(name, value)]) = .object [(name, f value)] := by
  have distinct : ([(name, value)].map Prod.fst).Nodup := by simp
  obtain ⟨fields, same, perm⟩ := rearranges.object distinct
  rw [same, perm.eq_singleton]

theorem lawful_requester : requester.Lawful allowed (depth + 1) fun _ => True where
  reads {r} _ f rearranges := by
    cases r with
    | address who =>
      have lawful : identity.Lawful allowed depth fun _ => True := lawful_identity
      simp [requester, object_single rearranges, lawful.reads trivial rearranges]
    | identityCase id =>
      have lawful : caseId.Lawful allowed depth fun _ => True := lawful_caseId
      simp [requester, object_single rearranges, lawful.reads trivial rearranges]
  within {r} _ := by
    cases r with
    | address who => exact .object (List.forall_mem_singleton.2 (lawful_identity.within trivial))
    | identityCase id => exact .object (List.forall_mem_singleton.2 (lawful_caseId.within trivial))
  fits _ _ := trivial

theorem lawful_delegates : delegates.Lawful allowed (depth + 1) fun _ => True :=
  .iso (.list lawful_identity) (fun set _ => set.ofList_toList) (fun _ _ _ _ => trivial)
    fun _ _ => trivial

theorem lawful_fees (admits : Admits allowed limit) :
    fees.Lawful allowed (depth + 1) (Fees.Fits limit) :=
  Record.Lawful.codec
    (.cons (.required (lawful_amount admits)) <|
      .cons (.optional (lawful_amount admits) rfl) .nil)
    (by decide) (fun _ => rfl) (fun _ => rfl) (by simp [Fees.Fits])

end Lawful
end Format
end CaseRegistry
