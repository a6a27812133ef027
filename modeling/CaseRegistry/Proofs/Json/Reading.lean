import CaseRegistry.Json.Reader
import CaseRegistry.Proofs.Json.Layout

/-! Which values texts stand for.

Every text that is read stands for a value whose arrays and objects nest 127 levels deep at most and
whose numbers can be held; and every such value is read from what either way of writing makes of it
(`ofString?_toString`, `ofString?_pretty`). So the values that are read are just these
(`exists_ofString?_iff`). -/
namespace CaseRegistry.Json

/-- It is not too large, and its own characters spell it. -/
def Number.IsReadable (n : Number) : Prop := n.isTooLarge = false ∧ number? n.toChars = some n

theorem Number.isReadable_integer {value : Int} (fits : value.natAbs < 2 ^ 128) :
    (Number.integer value).IsReadable :=
  ⟨isTooLarge_integer fits, number?_integer value⟩

/-- Arrays and objects nest at most so many levels deep, and all numbers are allowed. -/
inductive FitsIn (allowed : Number → Prop) : Nat → Json → Prop
  | null {depth : Nat} : FitsIn allowed depth null
  | bool {depth : Nat} (value : Bool) : FitsIn allowed depth (bool value)
  | number {depth : Nat} {n : Number} (allows : allowed n) : FitsIn allowed depth (number n)
  | string {depth : Nat} (value : String) : FitsIn allowed depth (string value)
  | unreadable {depth : Nat} : FitsIn allowed depth unreadable
  | array {depth : Nat} {elements : List Json} (each : ∀ e ∈ elements, FitsIn allowed depth e) :
      FitsIn allowed (depth + 1) (array elements)
  | object {depth : Nat} {fields : List (String × Json)}
      (each : ∀ f ∈ fields, FitsIn allowed depth f.2) : FitsIn allowed (depth + 1) (object fields)

variable {j : Json} {depth : Nat} {ts : List Token} {text : String}

/-! ### Numbers -/

theorem mem_numbersOfElements {n : Number} {elements : List Json} :
    n ∈ numbersOfElements elements ↔ ∃ e ∈ elements, n ∈ e.numbers := by
  induction elements with
  | nil => simp [numbersOfElements]
  | cons e rest ih => simp [numbersOfElements, ih]

theorem mem_numbersOfFields {n : Number} {fields : List (String × Json)} :
    n ∈ numbersOfFields fields ↔ ∃ f ∈ fields, n ∈ f.2.numbers := by
  induction fields with
  | nil => simp [numbersOfFields]
  | cons f rest ih => simp [numbersOfFields, ih]

theorem FitsIn.of_mem_numbers {allowed : Number → Prop} (fits : j.FitsIn allowed depth) :
    ∀ n ∈ j.numbers, allowed n := by
  induction fits with
  | null | bool | string | unreadable => exact nofun
  | number allows => exact List.forall_mem_singleton.2 allows
  | array _ ih =>
    intro n mem
    obtain ⟨e, among, mem⟩ := mem_numbersOfElements.1 mem
    exact ih e among n mem
  | object _ ih =>
    intro n mem
    obtain ⟨f, among, mem⟩ := mem_numbersOfFields.1 mem
    exact ih f among n mem

/-- Of what numbers are allowed only those count that occur. -/
theorem FitsIn.of_numbers {allowed allowed' : Number → Prop} (fits : j.FitsIn allowed depth)
    (all : ∀ n ∈ j.numbers, allowed' n) : j.FitsIn allowed' depth := by
  induction fits with
  | null => exact .null
  | bool => exact .bool _
  | string => exact .string _
  | unreadable => exact .unreadable
  | number => exact .number (all _ (List.mem_singleton_self _))
  | array _ ih =>
    exact .array fun e mem => ih e mem fun n among => all n (mem_numbersOfElements.2 ⟨e, mem, among⟩)
  | object _ ih =>
    exact .object fun f mem => ih f mem fun n among => all n (mem_numbersOfFields.2 ⟨f, mem, among⟩)

/-- Writing leaves nothing illegible. -/
theorem FitsIn.isLegible (fits : j.FitsIn Number.IsReadable depth) :
    ∀ t ∈ j.tokens, t.IsLegible := by
  induction fits with
  | null | bool | string | unreadable => simp [tokens, Token.IsLegible]
  | number readable => simpa [tokens, Token.IsLegible] using readable.2
  | @array _ elements _ ih =>
    cases elements with
    | nil => simp [tokens, tokensOfElements, Token.IsLegible]
    | cons e rest =>
      intro t mem
      simp only [tokens, tokensOfElements_cons, List.mem_cons, List.mem_append, List.mem_flatMap,
        List.not_mem_nil, or_false] at mem
      obtain ((rfl | first | ⟨other, mem, rfl | later⟩) | rfl) := mem
      · trivial
      · exact ih e List.mem_cons_self t first
      · trivial
      · exact ih other (List.mem_cons_of_mem e mem) t later
      · trivial
  | @object _ fields _ ih =>
    cases fields with
    | nil => simp [tokens, tokensOfFields, Token.IsLegible]
    | cons f rest =>
      intro t mem
      simp only [tokens, tokensOfFields_cons, tokensOfField, List.mem_cons, List.mem_append,
        List.mem_flatMap, List.not_mem_nil, or_false] at mem
      obtain ((rfl | (rfl | rfl | first) | ⟨other, mem, rfl | rfl | rfl | later⟩) | rfl) := mem
      · trivial
      · trivial
      · trivial
      · exact ih f List.mem_cons_self t first
      · trivial
      · trivial
      · trivial
      · exact ih other (List.mem_cons_of_mem f mem) t later
      · trivial

/-! ### From tokens to the value -/

namespace Reader

variable {stack : List Frame}

theorem fresh_eq {α : Type} (room : stack.length < maxDepth) : fresh (α := α) stack = some [] := by
  have shallow : stack.drop (maxDepth - 1) = [] := List.drop_eq_nil_of_le (by omega)
  simp [fresh, shallow]

theorem exists_tokens_cons (j : Json) : ∃ t ts, j.tokens = t :: ts ∧ t ≠ .closeArray := by
  cases j <;> exact ⟨_, _, rfl, nofun⟩

/-- An array that does not end at once begins with a value. -/
theorem foldlM_firstElement (j : Json) (more : List Token) (stack : List Frame) :
    (j.tokens ++ more).foldlM step (.firstElement stack)
      = (j.tokens ++ more).foldlM step (.value (.array (fresh stack) :: stack)) := by
  obtain ⟨t, ts, tokens, other⟩ := exists_tokens_cons j
  have first : step (.firstElement stack) t = step (.value (.array (fresh stack) :: stack)) t := by
    cases t <;> first | rfl | exact absurd rfl other
  simp [tokens, first]

/-- The value is handed on once its tokens are read. -/
def Reads (j : Json) (stack : List Frame) : Prop :=
  ∀ more, (j.tokens ++ more).foldlM step (.value stack) = more.foldlM step (close j stack)

theorem foldlM_elements (rest elements : List Json)
    (each : ∀ e ∈ rest, ∀ elements, Reads e (.array (some elements) :: stack)) (more : List Token) :
    ((rest.flatMap fun e => .comma :: e.tokens) ++ .closeArray :: more).foldlM step
        (.afterElement stack (some elements))
      = more.foldlM step (close (.array (elements.reverse ++ rest)) stack) := by
  induction rest generalizing elements with
  | nil => simp [step, arrayOf]
  | cons e rest ih =>
    obtain ⟨first, others⟩ := List.forall_mem_cons.1 each
    rw [List.flatMap_cons, List.append_assoc]
    refine (first elements _).trans ?_
    simpa [close] using ih (e :: elements) others

theorem foldlM_fields (rest fields : List (String × Json))
    (each : ∀ f ∈ rest, ∀ fields, Reads f.2 (.object (some fields) (some f.1) :: stack))
    (more : List Token) :
    ((rest.flatMap fun f => .comma :: tokensOfField f) ++ .closeObject :: more).foldlM step
        (.afterField stack (some fields))
      = more.foldlM step (close (.object (fields.reverse ++ rest)) stack) := by
  induction rest generalizing fields with
  | nil => simp [step, objectOf]
  | cons f rest ih =>
    obtain ⟨first, others⟩ := List.forall_mem_cons.1 each
    rw [List.flatMap_cons, List.append_assoc]
    refine (first fields _).trans ?_
    simpa [close, addField] using ih (f :: fields) others

theorem reads_of_fitsIn (fits : j.FitsIn Number.IsReadable depth)
    (room : stack.length + depth ≤ maxDepth) : Reads j stack := by
  induction fits generalizing stack with
  | null | bool | string | unreadable => exact fun _ => rfl
  | number readable =>
    intro more
    simp [tokens, step, beginValue, readable.1]
  | @array depth elements _ ih =>
    intro more
    have start : fresh (α := Json) stack = some [] := fresh_eq (by omega)
    cases elements with
    | nil => simp [tokens, tokensOfElements, step, beginValue, start, arrayOf]
    | cons e rest =>
      -- One frame more on the stack, one level less in the elements.
      have inside (elements) :
          (Frame.array (some elements) :: stack).length + depth ≤ maxDepth := by
        rw [List.length_cons]
        omega
      obtain ⟨first, others⟩ := List.forall_mem_cons.1 ih
      rw [tokens, tokensOfElements_cons]
      simp only [List.cons_append, List.append_assoc, List.nil_append]
      calc (e.tokens ++ ((rest.flatMap fun e => .comma :: e.tokens)
              ++ .closeArray :: more)).foldlM step (.firstElement stack)
        _ = _ := by rw [foldlM_firstElement, start]
        _ = _ := first (inside []) _
        _ = _ := foldlM_elements rest [e] (fun e mem elements => others e mem (inside elements)) more
  | @object depth fields _ ih =>
    intro more
    have start : fresh (α := String × Json) stack = some [] := fresh_eq (by omega)
    cases fields with
    | nil => simp [tokens, tokensOfFields, step, beginValue, start, objectOf]
    | cons f rest =>
      have inside (fields name) :
          (Frame.object (some fields) name :: stack).length + depth ≤ maxDepth := by
        rw [List.length_cons]
        omega
      obtain ⟨first, others⟩ := List.forall_mem_cons.1 ih
      rw [tokens, tokensOfFields_cons]
      simp only [List.cons_append, List.append_assoc, List.nil_append]
      calc (tokensOfField f ++ ((rest.flatMap fun f => .comma :: tokensOfField f)
              ++ .closeObject :: more)).foldlM step (.firstName stack)
        _ = (f.2.tokens ++ ((rest.flatMap fun f => .comma :: tokensOfField f)
              ++ .closeObject :: more)).foldlM step
              (.value (.object (some []) (some f.1) :: stack)) := by rw [← start]; rfl
        _ = _ := first (inside [] _) _
        _ = _ := foldlM_fields rest [f] (fun f mem fields => others f mem (inside fields _)) more

theorem ofTokens?_tokens (fits : j.FitsIn Number.IsReadable maxDepth) : ofTokens? j.tokens = some j := by
  have read : j.tokens.foldlM step (.value []) = some (.done j) := by
    simpa [close] using reads_of_fitsIn fits (Nat.le_of_eq (Nat.zero_add _)) []
  simp [ofTokens?, read]

end Reader

theorem ofString?_toString (fits : j.FitsIn Number.IsReadable 127) : ofString? j.toString = some j := by
  simp [ofString?, toString, tokens?_of_spells (spells_toChars j) fits.isLegible,
    Reader.ofTokens?_tokens fits]

theorem ofString?_pretty (fits : j.FitsIn Number.IsReadable 127) : ofString? j.pretty = some j := by
  simp [ofString?, pretty, tokens?_of_spells (spells_prettyChars j) fits.isLegible,
    Reader.ofTokens?_tokens fits]

/-! ### From the text to a value that fits -/

namespace Reader

variable {stack : List Frame}

/-- Levels that are left inside the given arrays and objects. -/
def room (stack : List Frame) : Nat := maxDepth - stack.length

def HoldsElements (depth : Nat) (elements : Option (List Json)) : Prop :=
  ∀ es ∈ elements, FitsIn Number.IsReadable depth (.array es)

def HoldsFields (depth : Nat) (fields : Option (List (String × Json))) : Prop :=
  ∀ fs ∈ fields, FitsIn Number.IsReadable depth (.object fs)

/-- What an open array or object holds so far would fit if it were closed. -/
def Frame.Holds (depth : Nat) : Frame → Prop
  | .array elements => HoldsElements depth elements
  | .object fields _ => HoldsFields depth fields

def Holds : List Frame → Prop
  | [] => True
  | frame :: stack => frame.Holds (room stack) ∧ Holds stack

def State.Holds : State → Prop
  | .value stack | .firstElement stack | .firstName stack => Reader.Holds stack
  | .name stack fields | .colon stack fields _ | .afterField stack fields =>
    HoldsFields (room stack) fields ∧ Reader.Holds stack
  | .afterElement stack elements => HoldsElements (room stack) elements ∧ Reader.Holds stack
  | .done j => j.FitsIn Number.IsReadable maxDepth

theorem room_of_fresh {α : Type} {as : List α} (same : as ∈ fresh (α := α) stack) :
    ∃ depth, room stack = depth + 1 ∧ as = [] := by
  unfold fresh at same
  split at same
  · next shallow =>
    cases same
    have : stack.length ≤ maxDepth - 1 := by simpa using shallow
    refine ⟨room stack - 1, ?_, rfl⟩
    simp only [room, maxDepth] at *
    omega
  · cases same

theorem holdsElements_fresh : HoldsElements (room stack) (fresh stack) := by
  intro es same
  obtain ⟨depth, left, rfl⟩ := room_of_fresh same
  exact left ▸ .array (by simp)

theorem holdsFields_fresh : HoldsFields (room stack) (fresh stack) := by
  intro fs same
  obtain ⟨depth, left, rfl⟩ := room_of_fresh same
  exact left ▸ .object (by simp)

theorem FitsIn.arrayOf {elements : Option (List Json)} (holds : HoldsElements depth elements) :
    (arrayOf elements).FitsIn Number.IsReadable depth := by
  cases elements with
  | none => exact .unreadable
  | some es =>
    cases holds es rfl with
    | array each => exact .array fun e mem => each e (List.mem_reverse.1 mem)

theorem FitsIn.objectOf {fields : Option (List (String × Json))} (holds : HoldsFields depth fields) :
    (objectOf fields).FitsIn Number.IsReadable depth := by
  cases fields with
  | none => exact .unreadable
  | some fs =>
    cases holds fs rfl with
    | object each => exact .object fun f mem => each f (List.mem_reverse.1 mem)

theorem room_cons (frame : Frame) (stack : List Frame) : room (frame :: stack) = room stack - 1 := by
  rw [room, room, List.length_cons, Nat.sub_add_eq]

theorem HoldsElements.push {elements : Option (List Json)} (holds : HoldsElements depth elements)
    (fits : j.FitsIn Number.IsReadable (depth - 1)) : HoldsElements depth (elements.map (j :: ·)) := by
  intro es same
  obtain ⟨old, rfl, rfl⟩ := Option.map_eq_some_iff.1 same
  cases holds old rfl with
  | array each => exact .array (List.forall_mem_cons.2 ⟨fits, each⟩)

theorem HoldsFields.push {fields : Option (List (String × Json))} (holds : HoldsFields depth fields)
    (fits : j.FitsIn Number.IsReadable (depth - 1)) (name : Option String) :
    HoldsFields depth (addField name j fields) := by
  intro fs same
  unfold addField at same
  split at same
  · next old name =>
    cases same
    cases holds old rfl with
    | object each => exact .object (List.forall_mem_cons.2 ⟨fits, each⟩)
  · cases same

theorem holds_close (fits : j.FitsIn Number.IsReadable (room stack)) (holds : Holds stack) :
    (close j stack).Holds := by
  unfold close
  split
  · exact fits
  · rw [room_cons] at fits
    exact ⟨HoldsElements.push holds.1 fits, holds.2⟩
  · rw [room_cons] at fits
    exact ⟨HoldsFields.push holds.1 fits _, holds.2⟩

theorem holds_beginValue {s' : State} {t : Token} (legible : t.IsLegible) (holds : Holds stack)
    (read : beginValue stack t = some s') : s'.Holds := by
  unfold beginValue at read
  split at read
  · cases read; exact holds_close .null holds
  · cases read; exact holds_close (.bool _) holds
  · cases read
    refine holds_close ?_ holds
    split
    · exact .unreadable
    · next small => exact .number ⟨by simpa using small, legible⟩
  · cases read; exact holds_close (.string _) holds
  · cases read; exact holds_close .unreadable holds
  · cases read; exact holds
  · cases read; exact holds
  · cases read

theorem holds_step {s s' : State} {t : Token} (legible : t.IsLegible) (holds : s.Holds)
    (read : step s t = some s') : s'.Holds := by
  unfold step at read
  split at read
  · exact holds_beginValue legible holds read
  · cases read; exact holds_close (FitsIn.arrayOf holdsElements_fresh) holds
  · exact holds_beginValue legible (by exact ⟨holdsElements_fresh, holds⟩) read
  · cases read; exact holds_close (FitsIn.objectOf holdsFields_fresh) holds
  · cases read; exact ⟨holdsFields_fresh, holds⟩
  · cases read; exact ⟨holdsFields_fresh, holds⟩
  · cases read; exact holds
  · cases read; exact holds
  · cases read; exact holds
  · cases read; exact holds
  · cases read; exact holds_close (FitsIn.arrayOf holds.1) holds.2
  · cases read; exact holds
  · cases read; exact holds_close (FitsIn.objectOf holds.1) holds.2
  · cases read

end Reader

theorem fitsIn_of_ofString? (read : ofString? text = some j) : j.FitsIn Number.IsReadable 127 := by
  obtain ⟨ts, cut, taken⟩ := Option.bind_eq_some_iff.1 read
  unfold Reader.ofTokens? at taken
  split at taken
  · next value run =>
    cases taken
    have start : (Reader.State.value []).Holds := trivial
    exact of_foldlM (P := Reader.State.Holds)
      (fun t mem _ _ holds read => Reader.holds_step (isLegible_of_tokens? cut t mem) holds read)
      start run
  · cases taken

theorem exists_ofString?_iff : (∃ text, ofString? text = some j) ↔ j.FitsIn Number.IsReadable 127 :=
  ⟨fun ⟨_, read⟩ => fitsIn_of_ofString? read, fun fits => ⟨_, ofString?_toString fits⟩⟩

end CaseRegistry.Json
