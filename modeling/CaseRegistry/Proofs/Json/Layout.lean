import CaseRegistry.Json.Writer
import CaseRegistry.Proofs.Json.Lexing

/-! What the two ways of writing a value have in common.

On one line or over several, the text of a value spells the tokens of the value: the lines and
their indents are blanks between tokens (`spells_toChars`, `spells_prettyChars`). -/
namespace CaseRegistry.Json

open Lexer (EndsWords)

/-- Values by what they are made of. -/
@[elab_as_elim, induction_eliminator]
theorem induction {motive : Json → Prop} (null : motive null) (bool : ∀ value, motive (bool value))
    (number : ∀ value, motive (number value)) (string : ∀ value, motive (string value))
    (array : ∀ elements, (∀ element ∈ elements, motive element) → motive (array elements))
    (object : ∀ fields, (∀ field ∈ fields, motive field.2) → motive (object fields))
    (unreadable : motive unreadable) (j : Json) : motive j := by
  refine @Json.rec motive (fun elements => ∀ element ∈ elements, motive element)
    (fun fields => ∀ field ∈ fields, motive field.2) (fun field => motive field.2)
    null bool number string array object unreadable ?_ ?_ ?_ ?_ ?_ j
  · simp
  · exact fun _ _ first others => List.forall_mem_cons.2 ⟨first, others⟩
  · simp
  · exact fun _ _ first others => List.forall_mem_cons.2 ⟨first, others⟩
  · exact fun _ _ value => value

/-! ### Tokens of elements and fields -/

def tokensOfField (field : String × Json) : List Token :=
  .string field.1 :: .colon :: field.2.tokens

theorem tokensOfElements_cons (element : Json) (rest : List Json) :
    tokensOfElements (element :: rest)
      = element.tokens ++ rest.flatMap fun next => .comma :: next.tokens := by
  induction rest generalizing element with
  | nil => simp [tokensOfElements]
  | cons next rest ih => simp [tokensOfElements, ih]

theorem tokensOfFields_cons (field : String × Json) (rest : List (String × Json)) :
    tokensOfFields (field :: rest)
      = tokensOfField field ++ rest.flatMap fun next => .comma :: tokensOfField next := by
  induction rest generalizing field with
  | nil => simp [tokensOfFields, tokensOfField]
  | cons next rest ih => simp [tokensOfFields, ih, tokensOfField]

/-! ### Layouts -/

section Layouts

variable {α : Type} {ts : List Token} {text gap cs : List Char}

/-- In front of anything that ends words the text spells the tokens. -/
def Lays (ts : List Token) (text : List Char) : Prop :=
  ∀ ⦃more cs⦄, EndsWords cs → Spells more cs → Spells (ts ++ more) (text ++ cs)

def AreBlank (cs : List Char) : Prop := ∀ c ∈ cs, Lexer.isBlank c

theorem Spells.blanks (spells : Spells ts cs) (blank : AreBlank gap) : Spells ts (gap ++ cs) := by
  induction gap with
  | nil => exact spells
  | cons c rest ih =>
    obtain ⟨first, others⟩ := List.forall_mem_cons.1 blank
    exact .blank first (ih others)

theorem Spells.mark {t : Token} (spells : Spells ts cs) (mark : ¬t.IsWord) :
    Spells (t :: ts) (t.toChars ++ cs) :=
  .token (fun word => absurd word mark) spells

theorem endsWords_toChars {t : Token} (mark : ¬t.IsWord) (cs : List Char) :
    EndsWords (t.toChars ++ cs) := by
  cases t with
  | null | bool | number => exact absurd trivial mark
  | _ => exact fun _ same => by cases same; rfl

theorem endsWords_gap (blank : AreBlank gap) (ends : EndsWords cs) : EndsWords (gap ++ cs) := by
  cases gap with
  | nil => exact ends
  | cons c rest =>
    have first : Lexer.isBlank c := blank c List.mem_cons_self
    simp [EndsWords, Lexer.endsWord, first]

theorem lays_token (t : Token) : Lays [t] t.toChars :=
  fun _ _ ends spells => .token (fun _ => ends) spells

/-- A comma stands before each one but the first. -/
theorem lays_rest (tokensOf : α → List Token) (lay : α → List Char) (blank : AreBlank gap)
    (rest : List α) (each : ∀ a ∈ rest, Lays (tokensOf a) (lay a)) :
    Lays (rest.flatMap fun a => .comma :: tokensOf a) (rest.flatMap fun a => ',' :: gap ++ lay a) := by
  induction rest with
  | nil => exact fun _ _ _ spells => spells
  | cons a rest ih =>
    intro more cs ends spells
    obtain ⟨first, others⟩ := List.forall_mem_cons.1 each
    -- The next comma ends the words of `a`, or what follows all of them does.
    have behind : EndsWords ((rest.flatMap fun a => ',' :: gap ++ lay a) ++ cs) := by
      cases rest with
      | nil => exact ends
      | cons => exact fun _ same => by cases same; rfl
    have line := (first behind (ih others ends spells)).blanks blank
    simpa [Token.toChars] using line.mark (t := .comma) not_false

/-- A first one and others between two brackets. -/
theorem lays_bracketed (tokensOf : α → List Token) (lay : α → List Char) {gap gap' : List Char}
    {l r : Token} (leftMark : ¬l.IsWord) (rightMark : ¬r.IsWord)
    (blank : AreBlank gap) (blank' : AreBlank gap') (a : α) (rest : List α)
    (each : ∀ b ∈ a :: rest, Lays (tokensOf b) (lay b)) :
    Lays (l :: (tokensOf a ++ rest.flatMap fun b => .comma :: tokensOf b) ++ [r])
      (l.toChars ++ gap ++ lay a ++ (rest.flatMap fun b => ',' :: gap ++ lay b) ++ gap'
        ++ r.toChars) := by
  intro more cs _ spells
  obtain ⟨first, others⟩ := List.forall_mem_cons.1 each
  have closing : EndsWords (gap' ++ (r.toChars ++ cs)) :=
    endsWords_gap blank' (endsWords_toChars rightMark cs)
  have behind : EndsWords ((rest.flatMap fun a => ',' :: gap ++ lay a)
      ++ (gap' ++ (r.toChars ++ cs))) := by
    cases rest with
    | nil => exact closing
    | cons => exact fun _ same => by cases same; rfl
  have closed := (spells.mark rightMark).blanks blank'
  have inside := first behind (lays_rest tokensOf lay blank rest others closing closed)
  simpa using (inside.blanks blank).mark leftMark

/-- A name, a colon and a value. -/
theorem lays_field (blank : AreBlank gap) {field : String × Json} {text : List Char}
    (value : Lays field.2.tokens text) :
    Lays (tokensOfField field) ((Token.string field.1).toChars ++ ':' :: gap ++ text) := by
  intro more cs ends spells
  have behind := ((value ends spells).blanks blank).mark (t := .colon) not_false
  simpa [tokensOfField, Token.toChars] using behind.mark (t := .string field.1) not_false

theorem lays_array (lay : Json → List Char) {gap gap' : List Char} (blank : AreBlank gap)
    (blank' : AreBlank gap') (element : Json) (rest : List Json)
    (each : ∀ e ∈ element :: rest, Lays e.tokens (lay e)) :
    Lays (array (element :: rest)).tokens
      ('[' :: gap ++ lay element ++ (rest.flatMap fun e => ',' :: gap ++ lay e) ++ gap' ++ [']']) := by
  rw [tokens, tokensOfElements_cons]
  exact lays_bracketed (l := .openArray) (r := .closeArray) tokens lay not_false not_false
    blank blank' element rest each

theorem lays_object (lay : String × Json → List Char) {gap gap' : List Char}
    (blank : AreBlank gap) (blank' : AreBlank gap') (field : String × Json)
    (rest : List (String × Json)) (each : ∀ f ∈ field :: rest, Lays (tokensOfField f) (lay f)) :
    Lays (object (field :: rest)).tokens
      ('\x7b' :: gap ++ lay field ++ (rest.flatMap fun f => ',' :: gap ++ lay f) ++ gap'
        ++ ['\x7d']) := by
  rw [tokens, tokensOfFields_cons]
  exact lays_bracketed (l := .openObject) (r := .closeObject) tokensOfField lay not_false
    not_false blank blank' field rest each

/-- Two brackets with nothing in between. -/
theorem lays_empty {l r : Token} (leftMark : ¬l.IsWord) (rightMark : ¬r.IsWord) :
    Lays [l, r] (l.toChars ++ r.toChars) := by
  intro more cs _ spells
  simpa using (spells.mark rightMark).mark leftMark

end Layouts

/-! ### On one line -/

theorem areBlank_nil : AreBlank [] := by simp [AreBlank]

theorem lays_toChars (j : Json) : Lays j.tokens j.toChars := by
  induction j with
  | null | bool | number | string | unreadable => simpa [toChars, tokens] using lays_token _
  | array elements ih =>
    cases elements with
    | nil => exact lays_empty (l := .openArray) (r := .closeArray) not_false not_false
    | cons element rest =>
      have text : (array (element :: rest)).toChars
          = '[' :: [] ++ element.toChars ++ (rest.flatMap fun e => ',' :: [] ++ e.toChars) ++ []
            ++ [']'] := by
        simp [toChars, tokens, tokensOfElements_cons, List.flatMap_assoc, Token.toChars]
      exact text ▸ lays_array toChars areBlank_nil areBlank_nil element rest ih
  | object fields ih =>
    cases fields with
    | nil => exact lays_empty (l := .openObject) (r := .closeObject) not_false not_false
    | cons field rest =>
      have each : ∀ f ∈ field :: rest, Lays (tokensOfField f)
          ((Token.string f.1).toChars ++ ':' :: [] ++ f.2.toChars) :=
        fun f mem => lays_field areBlank_nil (ih f mem)
      have text : (object (field :: rest)).toChars
          = '\x7b' :: [] ++ ((Token.string field.1).toChars ++ ':' :: [] ++ field.2.toChars)
            ++ (rest.flatMap fun f => ',' :: []
              ++ ((Token.string f.1).toChars ++ ':' :: [] ++ f.2.toChars)) ++ [] ++ ['\x7d'] := by
        simp [toChars, tokens, tokensOfFields_cons, tokensOfField, List.flatMap_assoc,
          Token.toChars]
      exact text ▸ lays_object _ areBlank_nil areBlank_nil field rest each

theorem spells_toChars (j : Json) : Spells j.tokens j.toChars := by
  simpa using lays_toChars j (by simp [EndsWords]) .nil

/-! ### Over several lines -/

theorem areBlank_newLine (level : Nat) : AreBlank (newLine level) := by
  refine List.forall_mem_cons.2 ⟨rfl, fun c mem => ?_⟩
  rw [List.eq_of_mem_replicate mem]
  rfl

theorem prettyElements_eq (level : Nat) (rest : List Json) :
    prettyElements level rest
      = rest.flatMap fun e => ',' :: newLine level ++ prettyChars level e := by
  induction rest with
  | nil => rfl
  | cons e rest ih => simp [prettyElements, ih]

theorem prettyFields_eq (level : Nat) (rest : List (String × Json)) :
    prettyFields level rest
      = rest.flatMap fun f => ',' :: newLine level
        ++ ((Token.string f.1).toChars ++ ':' :: [' '] ++ prettyChars level f.2) := by
  induction rest with
  | nil => rfl
  | cons f rest ih => simp [prettyFields, ih]

theorem lays_prettyChars (level : Nat) (j : Json) : Lays j.tokens (prettyChars level j) := by
  induction j generalizing level with
  | null | bool | number | string | unreadable =>
    simpa [prettyChars, tokens, Token.toChars] using lays_token _
  | array elements ih =>
    cases elements with
    | nil => exact lays_empty (l := .openArray) (r := .closeArray) not_false not_false
    | cons element rest =>
      rw [prettyChars, prettyElements_eq]
      exact lays_array (prettyChars (level + 1)) (areBlank_newLine _) (areBlank_newLine _) element
        rest fun e mem => ih e mem (level + 1)
  | object fields ih =>
    cases fields with
    | nil => exact lays_empty (l := .openObject) (r := .closeObject) not_false not_false
    | cons field rest =>
      have each : ∀ f ∈ field :: rest, Lays (tokensOfField f)
          ((Token.string f.1).toChars ++ ':' :: [' '] ++ prettyChars (level + 1) f.2) :=
        fun f mem => lays_field (by simp [AreBlank, Lexer.isBlank]) (ih f mem (level + 1))
      have text : prettyChars level (object (field :: rest))
          = '\x7b' :: newLine (level + 1)
            ++ ((Token.string field.1).toChars ++ ':' :: [' '] ++ prettyChars (level + 1) field.2)
            ++ prettyFields (level + 1) rest ++ newLine level ++ ['\x7d'] := by
        simp [prettyChars]
      rw [text, prettyFields_eq]
      exact lays_object _ (areBlank_newLine _) (areBlank_newLine _) field rest each

theorem spells_prettyChars (j : Json) : Spells j.tokens (prettyChars 0 j) := by
  simpa using lays_prettyChars 0 j (by simp [EndsWords]) .nil

end CaseRegistry.Json
