import CaseRegistry.CaseId
import CaseRegistry.Proofs.Text.Hex

/-! Which texts are case identifiers.

An identifier is spelled by its digits in either case: in groups, all in a row, in groups inside
braces, or in groups after a mark (`HasSpelling`). These are the texts that are read as it, and no
others are (`ofString?_eq_some_iff`). The four forms differ in length, so no text is taken for
another one. -/
namespace CaseRegistry.CaseId

/-- The texts that spell an identifier. -/
inductive HasSpelling (id : CaseId) : List Char → Prop where
  | grouped {digits : List Char} (same : digits.map Char.toLower = id.bytes.toHex) :
    id.HasSpelling (hyphenate groupSizes digits)
  | plain {digits : List Char} (same : digits.map Char.toLower = id.bytes.toHex) :
    id.HasSpelling digits
  | braced {digits : List Char} (same : digits.map Char.toLower = id.bytes.toHex) :
    id.HasSpelling ('{' :: (hyphenate groupSizes digits ++ ['}']))
  | marked {mark digits : List Char} (marks : mark.map Char.toLower = urnMark)
    (same : digits.map Char.toLower = id.bytes.toHex) :
    id.HasSpelling (mark ++ hyphenate groupSizes digits)

/-- An identifier in the form in which it is written: groups of lower-case digits. -/
def IsWritten (text : String) : Prop :=
  ∃ digits : List Char, digits.length = 32 ∧ (∀ c ∈ digits, c ∈ Hex.lowerDigits) ∧
    text.toList = hyphenate groupSizes digits

variable {id : CaseId} {cs digits : List Char}

theorem isWritten_toString (id : CaseId) : IsWritten id.toString :=
  ⟨id.bytes.toHex, id.bytes.length_toHex, fun _ => Bytes.mem_lowerDigits_of_mem_toHex,
    String.toList_ofList⟩

/-! ### Groups -/

theorem length_hyphenate (sizes : List Nat) (cs : List Char) :
    (hyphenate sizes cs).length = cs.length + sizes.length := by
  induction sizes generalizing cs with
  | nil => rfl
  | cons n sizes ih =>
    simp only [hyphenate, List.length_append, List.length_cons, List.length_take, ih, List.length_drop]
    omega

/-- What is left without its hyphens gives the text again with them. -/
theorem hyphenate_of_unhyphenate? {sizes : List Nat} (read : unhyphenate? sizes cs = some digits) :
    hyphenate sizes digits = cs := by
  induction sizes generalizing cs digits with
  | nil => exact (Option.some.inj read).symm
  | cons n sizes ih =>
    rw [unhyphenate?] at read
    split at read
    case h_1 rest behind =>
      obtain ⟨tail, readTail, rfl⟩ := Option.map_eq_some_iff.mp read
      have long : (cs.take n).length = n := by
        have := congrArg List.length behind
        simp only [List.length_drop, List.length_cons] at this
        simp only [List.length_take]
        omega
      calc hyphenate (n :: sizes) (cs.take n ++ tail)
          = cs.take n ++ '-' :: hyphenate sizes tail := by simp [hyphenate, long]
        _ = cs.take n ++ cs.drop n := by rw [ih readTail, behind]
        _ = cs := List.take_append_drop n cs
    case h_2 => cases read

theorem length_of_same (same : digits.map Char.toLower = id.bytes.toHex) : digits.length = 32 := by
  simpa [Bytes.length_toHex] using congrArg List.length same

theorem ofDigits?_eq_some_iff : ofDigits? cs = some id ↔ cs.map Char.toLower = id.bytes.toHex := by
  simp only [ofDigits?, Option.map_eq_some_iff, Bytes.ofHex?_eq_some_iff]
  constructor
  · rintro ⟨bytes, same, rfl⟩
    exact same
  · exact fun same => ⟨id.bytes, same, rfl⟩

theorem ofHyphenated?_eq_some_iff :
    ofHyphenated? cs = some id ↔
      ∃ digits, hyphenate groupSizes digits = cs ∧ digits.map Char.toLower = id.bytes.toHex := by
  simp only [ofHyphenated?, Option.bind_eq_some_iff, ofDigits?_eq_some_iff]
  constructor
  · rintro ⟨digits, read, same⟩
    exact ⟨digits, hyphenate_of_unhyphenate? read, same⟩
  · rintro ⟨digits, rfl, same⟩
    have enough : groupSizes.foldr (· + ·) 0 ≤ digits.length := by
      rw [length_of_same same]
      decide
    exact ⟨digits, unhyphenate?_hyphenate groupSizes digits enough, same⟩

theorem ofDigits?_of_length (other : cs.length ≠ 32) : ofDigits? cs = none := by
  rw [Option.eq_none_iff_forall_ne_some]
  exact fun id read => other (length_of_same (ofDigits?_eq_some_iff.mp read))

theorem ofHyphenated?_of_length (other : cs.length ≠ 36) : ofHyphenated? cs = none := by
  rw [Option.eq_none_iff_forall_ne_some]
  intro id read
  obtain ⟨digits, rfl, same⟩ := ofHyphenated?_eq_some_iff.mp read
  rw [length_hyphenate, length_of_same same] at other
  exact other rfl

/-! ### Decorations -/

theorem length_of_marks {mark : List Char} (marks : mark.map Char.toLower = urnMark) :
    mark.length = urnMark.length := by
  simpa using congrArg List.length marks

theorem undecorated?_braces (inner : List Char) : undecorated? ('{' :: (inner ++ ['}'])) = some inner := by
  simp [undecorated?]

theorem undecorated?_mark {mark : List Char} (marks : mark.map Char.toLower = urnMark) (inner : List Char) :
    undecorated? (mark ++ inner) = some inner := by
  have long := length_of_marks marks
  unfold undecorated?
  split
  case h_1 rest brace =>
    cases mark with
    | nil => cases marks
    | cons first mark =>
      obtain rfl := (List.cons.inj brace).1
      exact absurd (List.cons.inj marks).1 (by decide)
  case h_2 => simp [← long, marks]

theorem decorated_of_undecorated? {inner : List Char} (found : undecorated? cs = some inner) :
    cs = '{' :: (inner ++ ['}']) ∨ ∃ mark, mark.map Char.toLower = urnMark ∧ cs = mark ++ inner := by
  unfold undecorated? at found
  split at found
  case h_1 rest =>
    split at found
    case isTrue last =>
      obtain ⟨front, rfl⟩ := List.getLast?_eq_some_iff.mp last
      obtain rfl : front = inner := by simpa using found
      exact .inl rfl
    case isFalse => cases found
  case h_2 =>
    split at found
    case isTrue marks =>
      obtain rfl := Option.some.inj found
      exact .inr ⟨_, marks, (List.take_append_drop _ _).symm⟩
    case isFalse => cases found

/-! ### Reading -/

theorem hasSpelling_of_ofChars? (read : ofChars? cs = some id) : id.HasSpelling cs := by
  simp only [ofChars?, Option.or_eq_some_iff, Option.bind_eq_some_iff, ofHyphenated?_eq_some_iff,
    ofDigits?_eq_some_iff] at read
  rcases read with ⟨digits, rfl, same⟩ | ⟨_, same | ⟨_, inner, found, digits, rfl, same⟩⟩
  · exact .grouped same
  · exact .plain same
  · rcases decorated_of_undecorated? found with rfl | ⟨mark, marks, rfl⟩
    · exact .braced same
    · exact .marked marks same

theorem ofHyphenated?_hyphenate (same : digits.map Char.toLower = id.bytes.toHex) :
    ofHyphenated? (hyphenate groupSizes digits) = some id :=
  ofHyphenated?_eq_some_iff.mpr ⟨digits, rfl, same⟩

/-- What is too long for an identifier without decoration is read without it. -/
theorem ofChars?_of_undecorated? {inner : List Char} (long : 36 < cs.length)
    (found : undecorated? cs = some inner) : ofChars? cs = ofHyphenated? inner := by
  rw [ofChars?, ofHyphenated?_of_length (by omega), ofDigits?_of_length (by omega), found]
  rfl

theorem HasSpelling.ofChars? (h : id.HasSpelling cs) : ofChars? cs = some id := by
  cases h with
  | grouped same => simp [CaseId.ofChars?, ofHyphenated?_hyphenate same]
  | plain same =>
    have short : cs.length ≠ 36 := by simp [length_of_same same]
    simp [CaseId.ofChars?, ofHyphenated?_of_length short, ofDigits?_eq_some_iff.mpr same]
  | braced same =>
    rw [ofChars?_of_undecorated? _ (undecorated?_braces _), ofHyphenated?_hyphenate same]
    simp [length_hyphenate, length_of_same same, groupSizes]
  | marked marks same =>
    rw [ofChars?_of_undecorated? _ (undecorated?_mark marks _), ofHyphenated?_hyphenate same]
    rw [List.length_append, length_hyphenate, length_of_same same, length_of_marks marks]
    decide

theorem ofChars?_eq_some_iff : ofChars? cs = some id ↔ id.HasSpelling cs :=
  ⟨hasSpelling_of_ofChars?, HasSpelling.ofChars?⟩

theorem ofString?_eq_some_iff {text : String} : ofString? text = some id ↔ id.HasSpelling text.toList :=
  ofChars?_eq_some_iff

/-- Only the form with groups has a decoration. -/
example : ofString? "{00000000000000000000000000000000}" = none := by decide +kernel

end CaseRegistry.CaseId
