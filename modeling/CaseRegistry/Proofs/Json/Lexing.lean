import CaseRegistry.Proofs.Json.Numerals

/-! Cutting a text into the tokens it spells.

A text spells tokens if it is their characters one after the other, with blanks between them as one
likes, and none missing where a word would run into what follows (`Spells`). Such a text is cut
into just these tokens (`tokens?_of_spells`), and every token that is cut off can be read back from
its own characters (`isLegible_of_tokens?`). -/
namespace CaseRegistry.Json

variable {cs rest : List Char} {c : Char} {t : Token} {ts done : List Token}

/-! ### Strings -/

theorem digitChar_ne {n : Nat} (small : n < 16) : n.digitChar ≠ '"' ∧ n.digitChar ≠ '\\' := by
  decide +revert

theorem hexQuad?_control {n : Nat} (control : n < 32) :
    hexQuad? '0' '0' (n / 16).digitChar (n % 16).digitChar = some n := by
  decide +revert

theorem units?_escape (c : Char) (rest : List Char) :
    units? (escape c ++ rest) = (units? rest).map (c.toNat :: ·) := by
  unfold escape
  iterate 2
    split
    · subst_vars
      simp [units?, simpleEscape?]
  iterate 5
    split
    · next code => simp [units?, simpleEscape?, code]
  split
  · next control =>
    simp [units?, hexQuad?_control control]
  · -- Written as it is, a character is taken unless it is one of those that were escaped above.
    next quote backslash _ _ _ _ _ control =>
    rw [List.singleton_append, units?.eq_def]
    split <;> grind

theorem units?_flatMap_escape (cs : List Char) :
    units? (cs.flatMap escape) = some (cs.map Char.toNat) := by
  induction cs with
  | nil => rfl
  | cons c rest ih => rw [List.flatMap_cons, units?_escape, ih]; rfl

/-- A character is no half of a surrogate pair. -/
theorem not_isSurrogate (c : Char) : ¬IsHighSurrogate c.toNat ∧ ¬IsLowSurrogate c.toNat := by
  have valid : c.toNat < 0xD800 ∨ 0xDFFF < c.toNat := by
    have := c.valid
    simp only [UInt32.isValidChar, Nat.isValidChar] at this
    simp only [Char.toNat]
    omega
  constructor <;> simp only [IsHighSurrogate, IsLowSurrogate] <;> omega

theorem joinUnits?_toNat (cs : List Char) : joinUnits? (cs.map Char.toNat) = some cs := by
  induction cs with
  | nil => rfl
  | cons c rest ih =>
    have plain := not_isSurrogate c
    cases rest with
    | nil => simp [joinUnits?, plain, Char.ofNat_toNat]
    | cons next rest =>
      simp only [List.map_cons] at ih ⊢
      simp [joinUnits?, plain, ih, Char.ofNat_toNat]

theorem quoted?_flatMap_escape (value : String) :
    quoted? (value.toList.flatMap escape) = some (.string value) := by
  simp [quoted?, units?_flatMap_escape, joinUnits?_toNat]

namespace Lexer

theorem foldlM_escape (c : Char) (read : List Char) (done : List Token) :
    (escape c).foldlM step ⟨.text read, done⟩ = some ⟨.text ((escape c).reverse ++ read), done⟩ := by
  unfold escape
  iterate 7
    split
    · rfl
  split
  · next control =>
    have high := digitChar_ne (n := c.toNat / 16) (by omega)
    have low := digitChar_ne (n := c.toNat % 16) (by omega)
    simp [step, high, low]
  · next quote backslash _ _ _ _ _ _ => simp [step, quote, backslash]

theorem foldlM_escapes (cs read : List Char) (done : List Token) :
    (cs.flatMap escape).foldlM step ⟨.text read, done⟩
      = some ⟨.text ((cs.flatMap escape).reverse ++ read), done⟩ := by
  induction cs generalizing read with
  | nil => rfl
  | cons c rest ih =>
    simp [List.flatMap_cons, List.foldlM_append, foldlM_escape, ih]

end Lexer

/-! ### One token -/

namespace Token

/-- A word has no mark at its end. -/
def IsWord : Token → Prop
  | .null | .bool _ | .number _ => True
  | _ => False

/-- What a token says can be read from its characters. Only a number may be spelled otherwise. -/
def IsLegible : Token → Prop
  | .number n => number? n.toChars = some n
  | _ => True

theorem isLegible_of_word? (read : word? cs = some t) : t.IsLegible := by
  unfold word? at read
  split at read
  · cases read
    trivial
  split at read
  · cases read
    trivial
  split at read
  · cases read
    trivial
  · obtain ⟨n, numeral, rfl⟩ := Option.map_eq_some_iff.1 read
    exact number?_toChars_of_number? numeral

theorem isLegible_of_quoted? (read : quoted? cs = some t) : t.IsLegible := by
  obtain ⟨units, -, rfl⟩ := Option.map_eq_some_iff.1 read
  split <;> trivial

theorem isLegible_of_punctuation? (read : Lexer.punctuation? c = some t) : t.IsLegible := by
  unfold Lexer.punctuation? at read
  split at read <;> cases read <;> trivial

theorem word?_toChars (word : t.IsWord) (legible : t.IsLegible) : word? t.toChars = some t := by
  cases t with
  | null => rfl
  | bool value => cases value <;> rfl
  | number n =>
    have numeral : number? n.toChars = some n := legible
    have other {keyword : List Char} (none : number? keyword = none) : n.toChars ≠ keyword := by
      rintro rfl
      simp [none] at numeral
    have null : n.toChars ≠ "null".toList := other rfl
    have true' : n.toChars ≠ "true".toList := other rfl
    have false' : n.toChars ≠ "false".toList := other rfl
    simp only [toChars, word?, null, true', false', if_false, numeral, Option.map_some]
  | _ => exact word.elim

theorem not_endsWord_of_mem (word : t.IsWord) (legible : t.IsLegible) :
    ∀ c ∈ t.toChars, ¬Lexer.endsWord c := by
  cases t with
  | null => simp [toChars, Lexer.endsWord, Lexer.isBlank, Lexer.punctuation?]
  | bool value => cases value <;> simp [toChars, Lexer.endsWord, Lexer.isBlank, Lexer.punctuation?]
  | number n => exact fun c mem => not_endsWord_of_isNumeric (isNumeric_of_number? legible c mem)
  | _ => exact word.elim

theorem toChars_ne_nil (word : t.IsWord) (legible : t.IsLegible) : t.toChars ≠ [] := by
  intro empty
  have read := word?_toChars word legible
  rw [empty] at read
  cases read

end Token

namespace Lexer

/-- The tokens of the rest of a text, behind those cut off before. -/
def tokensFrom? (s : State) (cs : List Char) : Option (List Token) := (cs.foldlM step s).bind finish

theorem tokensFrom?_append {s s' : State} (read : cs.foldlM step s = some s') (rest : List Char) :
    tokensFrom? s (cs ++ rest) = tokensFrom? s' rest := by
  simp [tokensFrom?, List.foldlM_append, read]

theorem start_of_not_endsWord (more : ¬endsWord c) (done : List Token) :
    start done c = ⟨.word [c], done⟩ := by
  unfold endsWord at more
  unfold start
  grind

theorem foldlM_word (more : ∀ c ∈ cs, ¬endsWord c) (read : List Char) (done : List Token) :
    cs.foldlM step ⟨.word read, done⟩ = some ⟨.word (cs.reverse ++ read), done⟩ := by
  induction cs generalizing read with
  | nil => rfl
  | cons c rest ih =>
    obtain ⟨first, others⟩ := List.forall_mem_cons.1 more
    simp [step, first, ih others]

/-- The text does not go on with a character that a word could take in. -/
def EndsWords (cs : List Char) : Prop := ∀ c ∈ cs.head?, endsWord c

theorem tokensFrom?_word (word : t.IsWord) (legible : t.IsLegible) (ends : EndsWords rest)
    (done : List Token) :
    tokensFrom? ⟨.between, done⟩ (t.toChars ++ rest) = tokensFrom? ⟨.between, t :: done⟩ rest := by
  have more := Token.not_endsWord_of_mem word legible
  have closed := Token.word?_toChars word legible
  have read : t.toChars.foldlM step ⟨.between, done⟩ = some ⟨.word t.toChars.reverse, done⟩ := by
    obtain ⟨c, cs, chars⟩ := List.exists_cons_of_ne_nil (Token.toChars_ne_nil word legible)
    rw [chars] at more ⊢
    obtain ⟨first, others⟩ := List.forall_mem_cons.1 more
    simp [step, start_of_not_endsWord first, foldlM_word others]
  rw [tokensFrom?_append read]
  -- The end of the text closes the word, or the next character does, which then starts anew.
  cases rest with
  | nil => simp [tokensFrom?, finish, closed]
  | cons c rest =>
    have mark : endsWord c := ends c rfl
    simp [tokensFrom?, step, mark, closed]

/-- Any token is cut off where it stands between others. -/
theorem tokensFrom?_token (legible : t.IsLegible) (ends : t.IsWord → EndsWords rest)
    (done : List Token) :
    tokensFrom? ⟨.between, done⟩ (t.toChars ++ rest) = tokensFrom? ⟨.between, t :: done⟩ rest := by
  cases t with
  | null | bool | number => exact tokensFrom?_word (by trivial) legible (ends (by trivial)) done
  | string value =>
    refine tokensFrom?_append ?_ rest
    simp [Token.toChars, List.foldlM_append, step, start, isBlank, punctuation?, foldlM_escapes,
      quoted?_flatMap_escape]
  | _ => exact tokensFrom?_append rfl rest

end Lexer

/-! ### Texts of tokens -/

inductive Spells : List Token → List Char → Prop
  | nil : Spells [] []
  | blank {ts : List Token} {c : Char} {cs : List Char} (blank : Lexer.isBlank c)
      (rest : Spells ts cs) : Spells ts (c :: cs)
  | token {ts : List Token} {t : Token} {cs : List Char} (ends : t.IsWord → Lexer.EndsWords cs)
      (rest : Spells ts cs) : Spells (t :: ts) (t.toChars ++ cs)

theorem tokensFrom?_of_spells (spells : Spells ts cs) (legible : ∀ t ∈ ts, t.IsLegible)
    (done : List Token) :
    Lexer.tokensFrom? ⟨.between, done⟩ cs = some (done.reverse ++ ts) := by
  induction spells generalizing done with
  | nil => simp [Lexer.tokensFrom?, Lexer.finish]
  | @blank ts c cs blank _ ih =>
    have skipped : [c].foldlM Lexer.step ⟨.between, done⟩ = some ⟨.between, done⟩ := by
      simp [Lexer.step, Lexer.start, blank]
    rw [← List.singleton_append, Lexer.tokensFrom?_append skipped]
    exact ih legible done
  | @token ts t cs ends _ ih =>
    obtain ⟨first, others⟩ := List.forall_mem_cons.1 legible
    rw [Lexer.tokensFrom?_token first ends, ih others]
    simp

theorem tokens?_of_spells (spells : Spells ts cs) (legible : ∀ t ∈ ts, t.IsLegible) :
    Lexer.tokens? cs = some ts :=
  tokensFrom?_of_spells spells legible []

/-! ### Tokens of a text -/

/-- What one step keeps, a run of them keeps. -/
theorem of_foldlM {σ α : Type} {step : σ → α → Option σ} {P : σ → Prop} {as : List α} {s s' : σ}
    (keeps : ∀ a ∈ as, ∀ s s', P s → step s a = some s' → P s') (start : P s)
    (run : as.foldlM step s = some s') : P s' := by
  induction as generalizing s with
  | nil =>
    cases run
    exact start
  | cons a rest ih =>
    obtain ⟨next, first, others⟩ := Option.bind_eq_some_iff.1 run
    obtain ⟨now, later⟩ := List.forall_mem_cons.1 keeps
    exact ih later (now s next start first) others

theorem isLegible_of_tokens? (read : Lexer.tokens? cs = some ts) : ∀ t ∈ ts, t.IsLegible := by
  have start {done : List Token} (legible : ∀ t ∈ done, t.IsLegible) (c : Char) :
      ∀ t ∈ (Lexer.start done c).tokens, t.IsLegible := by
    unfold Lexer.start
    split
    · exact legible
    · split
      · next mark => exact List.forall_mem_cons.2 ⟨Token.isLegible_of_punctuation? mark, legible⟩
      · split <;> exact legible
  obtain ⟨s, run, closed⟩ := Option.bind_eq_some_iff.1 read
  have legible : ∀ t ∈ s.tokens, t.IsLegible := by
    refine of_foldlM (P := fun s => ∀ t ∈ s.tokens, t.IsLegible) ?_ (by simp) run
    intro c _ s s' legible step
    unfold Lexer.step at step
    split at step
    · cases step
      exact start legible c
    · split at step
      · obtain ⟨t, word, rfl⟩ := Option.map_eq_some_iff.1 step
        exact start (List.forall_mem_cons.2 ⟨Token.isLegible_of_word? word, legible⟩) c
      · cases step
        exact legible
    · split at step
      · obtain ⟨t, text, rfl⟩ := Option.map_eq_some_iff.1 step
        exact List.forall_mem_cons.2 ⟨Token.isLegible_of_quoted? text, legible⟩
      · split at step <;> cases step <;> exact legible
    · cases step
      exact legible
  unfold Lexer.finish at closed
  split at closed
  · cases closed
    simpa using legible
  · obtain ⟨t, word, rfl⟩ := Option.map_eq_some_iff.1 closed
    simp only [List.mem_reverse]
    exact List.forall_mem_cons.2 ⟨Token.isLegible_of_word? word, legible⟩
  · cases closed
  · cases closed

end CaseRegistry.Json
