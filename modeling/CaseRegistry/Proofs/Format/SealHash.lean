import CaseRegistry.Proofs.Format.Values
import CaseRegistry.Proofs.Text.Hex

/-! The hash of a seal, written and read.

A hash is written as its 64 digits. It is read from 64 digits of either case, which may follow a
mark, and from no other text; what is read is written as these digits in lower case
(`sealHash_written_and_read`). -/
namespace CaseRegistry.Format

open Json

/-- A text consists of the digits of a hash, or of the mark `0x` and these. -/
structure IsHashText (text : String) (digits : List Char) : Prop where
  long : digits.length = 64
  digit : ∀ c ∈ digits, Hex.IsDigit c
  spelled : text.toList = digits ∨ text.toList = "0x".toList ++ digits

variable {text : String} {hash : Bytes 32}

/-- The mark is no beginning of digits, so it is clear where these begin. -/
theorem read_sealHash :
    sealHash.read (.string text) = some hash ↔
      ∃ digits, (text.toList = digits ∨ text.toList = "0x".toList ++ digits) ∧
        digits.map Char.toLower = hash.toHex := by
  simp only [sealHash, Codec.text, string?, Option.bind_some]
  split
  case h_1 behind marked =>
    rw [Bytes.ofHex?_eq_some_iff]
    refine ⟨fun lower => ⟨behind, .inr marked, lower⟩, ?_⟩
    rintro ⟨digits, plain | other, lower⟩
    · rw [← plain, marked] at lower
      exact absurd lower.symm (toHex_ne hash _)
    · obtain rfl : behind = digits := by simpa using marked.symm.trans other
      exact lower
  case h_2 unmarked =>
    rw [Bytes.ofHex?_eq_some_iff]
    refine ⟨fun lower => ⟨_, .inl rfl, lower⟩, ?_⟩
    rintro ⟨digits, plain | marked, lower⟩
    · rw [plain]
      exact lower
    · exact absurd marked (unmarked digits)

theorem isHashText_of_read (read : sealHash.read (.string text) = some hash) :
    ∃ digits, IsHashText text digits := by
  obtain ⟨digits, spelled, lower⟩ := read_sealHash.mp read
  obtain ⟨long, digit⟩ := Bytes.ofHex?_isSome_iff.mp
    (Option.isSome_iff_exists.mpr ⟨hash, Bytes.ofHex?_eq_some_iff.mpr lower⟩)
  exact ⟨digits, long, digit, spelled⟩

theorem IsHashText.read {digits : List Char} (h : IsHashText text digits) :
    ∃ hash : Bytes 32, sealHash.read (.string text) = some hash ∧
      hash.toHex = digits.map Char.toLower := by
  obtain ⟨hash, read⟩ := Option.isSome_iff_exists.mp
    (Bytes.ofHex?_isSome_iff (n := 32).mpr ⟨h.long, h.digit⟩)
  have lower := Bytes.ofHex?_eq_some_iff.mp read
  exact ⟨hash, read_sealHash.mpr ⟨digits, h.spelled, lower⟩, lower.symm⟩

/-- Every hash is written as 64 digits in lower case, which read back as it. A text is read exactly
if it consists of 64 digits of either case, behind the mark or alone, and what is read is written as
these digits in lower case. -/
theorem sealHash_written_and_read :
    (∀ hash : Bytes 32, ∃ digits : List Char,
      sealHash.write hash = .string (String.ofList digits) ∧ digits.length = 64 ∧
        (∀ c ∈ digits, c ∈ Hex.lowerDigits) ∧ sealHash.read (sealHash.write hash) = some hash) ∧
    ∀ text : String,
      ((sealHash.read (.string text)).isSome ↔ ∃ digits, IsHashText text digits) ∧
      ∀ digits hash, IsHashText text digits → sealHash.read (.string text) = some hash →
        sealHash.write hash = .string (String.ofList (digits.map Char.toLower)) := by
  refine ⟨fun hash => ⟨hash.toHex, rfl, hash.length_toHex, ?_, ?_⟩, fun text => ⟨?_, ?_⟩⟩
  · exact fun c => Bytes.mem_lowerDigits_of_mem_toHex
  · have lawful : sealHash.Lawful (fun _ => True) 0 fun _ => True := lawful_sealHash
    exact lawful.reads trivial rearranges_id
  · constructor
    · intro read
      obtain ⟨hash, read⟩ := Option.isSome_iff_exists.mp read
      exact isHashText_of_read read
    · rintro ⟨digits, h⟩
      obtain ⟨hash, read, _⟩ := h.read
      exact Option.isSome_iff_exists.mpr ⟨hash, read⟩
  · intro digits hash h read
    obtain ⟨same, read', lower⟩ := h.read
    obtain rfl : same = hash := Option.some.inj (read'.symm.trans read)
    rw [← lower]
    rfl

/-- A second mark is no digit. -/
example : sealHash.read (.string ("0x0x" ++ String.ofList (List.replicate 62 '0'))) = none := by
  decide +kernel

end CaseRegistry.Format
