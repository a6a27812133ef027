import CaseRegistry.Json.Record
import CaseRegistry.Proofs.Json.Ordering

/-! What codecs owe.

A codec is lawful for the values that fit: what it writes of one is read back, also with the fields
rearranged, and stays within a depth and to the numbers that are allowed; and whatever is read from
a value within the same bounds fits (`Codec.Lawful`). Lawful parts make lawful lists and records
(`Lawful.list`, `Record.Lawful.codec`), so that a format is as lawful as the texts and numbers at
its leaves. -/
namespace CaseRegistry.Json

variable {α β : Type} {allowed : Number → Prop} {depth : Nat}

/-! ### Lists that are read -/

theorem mapM_eq_some_self {read : α → Option α} {as : List α} (each : ∀ a ∈ as, read a = some a) :
    as.mapM read = some as := by
  induction as with
  | nil => rfl
  | cons a rest ih =>
    obtain ⟨first, others⟩ := List.forall_mem_cons.1 each
    simp [first, ih others]

theorem exists_of_mem_mapM {read : β → Option α} {bs : List β} {as : List α}
    (run : bs.mapM read = some as) : ∀ a ∈ as, ∃ b ∈ bs, read b = some a := by
  induction bs generalizing as with
  | nil =>
    cases run
    simp
  | cons b rest ih =>
    simp only [List.mapM_cons, Option.bind_eq_bind, Option.bind_eq_some_iff, Option.pure_def,
      Option.some.injEq] at run
    obtain ⟨a, first, as, others, rfl⟩ := run
    refine List.forall_mem_cons.2 ⟨⟨b, List.mem_cons_self, first⟩, fun a' mem => ?_⟩
    obtain ⟨b', mem, taken⟩ := ih others a' mem
    exact ⟨b', List.mem_cons_of_mem b mem, taken⟩

/-! ### Codecs -/

structure Codec.Lawful (allowed : Number → Prop) (depth : Nat) (codec : Codec α) (Fits : α → Prop) :
    Prop where
  reads {a : α} (fits : Fits a) {f : Json → Json} (rearranges : Rearranges f) :
    codec.read (f (codec.write a)) = some a
  within {a : α} (fits : Fits a) : (codec.write a).FitsIn allowed depth
  fits {j : Json} {a : α} (within : j.FitsIn allowed depth) (read : codec.read j = some a) : Fits a

namespace Codec.Lawful

variable {codec : Codec α} {Fits : α → Prop}

theorem congr {Fits' : α → Prop} (lawful : codec.Lawful allowed depth Fits)
    (same : ∀ a, Fits a ↔ Fits' a) : codec.Lawful allowed depth Fits' := by
  have : Fits = Fits' := funext fun a => propext (same a)
  exact this ▸ lawful

theorem free : Codec.free.Lawful allowed depth
    fun j => j.FitsIn allowed depth ∧ j.isReadable ∧ j.canonical = j where
  reads fits f rearranges := by
    simp [Codec.free, rearranges.isReadable fits.2.1, rearranges.canonical, fits.2.2]
  within fits := fits.1
  fits {j a} within read := by
    simp only [Codec.free] at read
    split at read
    · next readable =>
      cases read
      exact ⟨within.canonical, isReadable_canonical readable, canonical_canonical j⟩
    · cases read

theorem bool : Codec.bool.Lawful allowed depth fun _ => True where
  reads _ f rearranges := by simp [Codec.bool, rearranges.bool]
  within _ := .bool _
  fits _ _ := trivial

theorem string : Codec.string.Lawful allowed depth fun _ => True where
  reads _ f rearranges := by simp [Codec.string, rearranges.string, string?]
  within _ := .string _
  fits _ _ := trivial

theorem word (bits : Nat) : (Codec.word bits).Lawful allowed depth
    fun n => n < 2 ^ bits ∧ allowed (.integer n) where
  reads {n} fits f rearranges := by
    have stays : f (Json.nat n) = Json.nat n := rearranges.number _
    have small : n < Nat.pow 2 bits := fits.1
    rw [Codec.word, stays]
    exact if_pos small
  within fits := .number fits.2
  fits {j n} within read := by
    simp only [Codec.word] at read
    split at read
    · split at read
      · next small =>
        cases read
        cases within with
        | number allows => exact ⟨small, allows⟩
      · cases read
    · cases read

theorem text {write : α → String} {read : String → Option α} {Fits : α → Prop}
    (reads : ∀ a, Fits a → read (write a) = some a) (fits : ∀ s a, read s = some a → Fits a) :
    (Codec.text write read).Lawful allowed depth Fits where
  reads {a} ok f rearranges := by simp [Codec.text, rearranges.string, string?, reads a ok]
  within _ := .string _
  fits _ taken := by
    obtain ⟨s, -, taken⟩ := Option.bind_eq_some_iff.1 taken
    exact fits s _ taken

theorem iso (lawful : codec.Lawful allowed depth Fits) {Fits' : β → Prop} {into : α → β}
    {back : β → α} (back_into : ∀ b, Fits' b → into (back b) = b)
    (fits_back : ∀ b, Fits' b → Fits (back b)) (fits_into : ∀ a, Fits a → Fits' (into a)) :
    (codec.iso into back).Lawful allowed depth Fits' where
  reads {b} fits f rearranges := by
    simp [Codec.iso, lawful.reads (fits_back b fits) rearranges, back_into b fits]
  within fits := lawful.within (fits_back _ fits)
  fits within read := by
    obtain ⟨a, taken, rfl⟩ := Option.map_eq_some_iff.1 read
    exact fits_into a (lawful.fits within taken)

theorem name {toName : α → String} {all : List α}
    (finds : ∀ a, all.find? (toName · = toName a) = some a) :
    (Codec.name toName all).Lawful allowed depth fun _ => True where
  reads {a} _ f rearranges := by simp [Codec.name, rearranges.string, finds a]
  within _ := .string _
  fits _ _ := trivial

theorem list (lawful : codec.Lawful allowed depth Fits) :
    (Codec.list codec).Lawful allowed (depth + 1) fun as => ∀ a ∈ as, Fits a where
  reads {as} fits f rearranges := by
    have each := mapM_eq_some_self fun a mem => lawful.reads (fits a mem) rearranges
    simpa [Codec.list, rearranges.array, Function.comp_def] using each
  within fits := .array (List.forall_mem_map.2 fun a mem => lawful.within (fits a mem))
  fits within read a mem := by
    cases within with
    | array each =>
      obtain ⟨e, old, taken⟩ := exists_of_mem_mapM read a mem
      exact lawful.fits (each e old) taken
    | _ => cases read

end Codec.Lawful

/-! ### Slots -/

structure Slot.Lawful (allowed : Number → Prop) (depth : Nat) (slot : Slot α) (Fits : α → Prop) :
    Prop where
  reads {a : α} (fits : Fits a) {j : Json} (written : slot.write a = some j) {f : Json → Json}
    (rearranges : Rearranges f) : slot.read (f j) = some a
  /-- What is not written is what a missing field stands for. -/
  omits {a : α} (omitted : slot.write a = none) : slot.missing = some a
  within {a : α} (fits : Fits a) {j : Json} (written : slot.write a = some j) :
    j.FitsIn allowed depth
  fits {j : Json} {a : α} (within : j.FitsIn allowed depth) (read : slot.read j = some a) : Fits a
  missing {a : α} (missing : slot.missing = some a) : Fits a
  beyond {a : α} (beyond : slot.beyond = some a) : Fits a

namespace Slot.Lawful

variable {codec : Codec α} {Fits : α → Prop} {name : String}

theorem required (lawful : codec.Lawful allowed depth Fits) :
    (Slot.required name codec).Lawful allowed depth Fits where
  reads fits j written f rearranges := by
    cases written
    exact lawful.reads fits rearranges
  omits := nofun
  within fits j written := by
    cases written
    exact lawful.within fits
  fits within read := lawful.fits within read
  missing := nofun
  beyond := nofun

theorem defaulted (lawful : codec.Lawful allowed depth Fits) {default : α} (fits : Fits default) :
    (Slot.defaulted name codec default).Lawful allowed depth Fits where
  reads fits j written f rearranges := by
    cases written
    exact lawful.reads fits rearranges
  omits := nofun
  within fits j written := by
    cases written
    exact lawful.within fits
  fits within read := lawful.fits within read
  missing same := Option.some.inj same ▸ fits
  beyond same := Option.some.inj same ▸ fits

/-- A field that may be null must not be null when it has a value. -/
theorem optional (lawful : codec.Lawful allowed depth Fits) (notNull : codec.read .null = none) :
    (Slot.optional name codec).Lawful allowed depth fun o => ∀ a ∈ o, Fits a where
  reads {o} fits j written f rearranges := by
    obtain ⟨a, rfl, rfl⟩ := Option.map_eq_some_iff.1 written
    have taken := lawful.reads (fits a rfl) rearranges
    simp only [Slot.optional]
    split
    · next null =>
      rw [null, notNull] at taken
      cases taken
    · rw [taken]
      rfl
  omits {o} omitted := by
    cases o with
    | none => rfl
    | some a => cases omitted
  within {o} fits j written := by
    obtain ⟨a, rfl, rfl⟩ := Option.map_eq_some_iff.1 written
    exact lawful.within (fits a rfl)
  fits within read := by
    simp only [Slot.optional] at read
    split at read
    · cases read
      simp
    · obtain ⟨a, taken, rfl⟩ := Option.map_eq_some_iff.1 read
      intro b same
      exact Option.some.inj same ▸ lawful.fits within taken
  missing same := by
    cases same
    simp
  beyond := nofun

theorem trailing (lawful : codec.Lawful allowed depth Fits) (notNull : codec.read .null = none) :
    (Slot.trailing name codec).Lawful allowed depth fun o => ∀ a ∈ o, Fits a := by
  have base : (Slot.optional name codec).Lawful allowed depth fun o => ∀ a ∈ o, Fits a :=
    optional lawful notNull
  refine { base with beyond := fun same => ?_ }
  cases same
  simp

end Slot.Lawful

/-! ### Values under a name -/

section Values

variable {name : String} {fields fields' : List (String × Json)}

theorem valuesOf_cons (field : String × Json) (rest : List (String × Json)) :
    valuesOf name (field :: rest)
      = if field.1 = name then field.2 :: valuesOf name rest else valuesOf name rest := by
  unfold valuesOf
  rw [List.filterMap_cons]
  split <;> simp_all

theorem valuesOf_eq_nil (absent : name ∉ fields.map Prod.fst) : valuesOf name fields = [] := by
  refine List.filterMap_eq_nil_iff.2 fun field mem => ?_
  rw [if_neg]
  exact fun same => absent (List.mem_map.2 ⟨field, mem, same⟩)

theorem length_valuesOf_le (distinct : (fields.map Prod.fst).Nodup) :
    (valuesOf name fields).length ≤ 1 := by
  induction fields with
  | nil => simp [valuesOf]
  | cons field rest ih =>
    obtain ⟨new, distinct⟩ := List.nodup_cons.1 distinct
    rw [valuesOf_cons]
    split
    · next same => simp [valuesOf_eq_nil (same ▸ new)]
    · exact ih distinct

/-- The values of fields are the same in any order, as long as no name is repeated. -/
theorem valuesOf_perm (distinct : (fields.map Prod.fst).Nodup) (perm : fields'.Perm fields)
    (name : String) : valuesOf name fields' = valuesOf name fields := by
  have values : (valuesOf name fields').Perm (valuesOf name fields) := perm.filterMap _
  have single : (valuesOf name fields).length ≤ 1 := length_valuesOf_le distinct
  rcases found : valuesOf name fields with _ | ⟨value, _ | ⟨_, _⟩⟩
  · rw [found] at values
    exact values.eq_nil
  · rw [found] at values
    exact values.eq_singleton
  · simp [found] at single

theorem valuesOf_map (f : Json → Json) (name : String) (fields : List (String × Json)) :
    valuesOf name (fields.map fun field => (field.1, f field.2)) = (valuesOf name fields).map f := by
  induction fields with
  | nil => rfl
  | cons field rest ih =>
    rw [List.map_cons, valuesOf_cons, valuesOf_cons, ih]
    split <;> rfl

theorem mem_of_mem_valuesOf {value : Json} (mem : value ∈ valuesOf name fields) :
    ∃ field ∈ fields, field.2 = value := by
  obtain ⟨field, mem, same⟩ := List.mem_filterMap.1 mem
  split at same
  · exact ⟨field, mem, Option.some.inj same⟩
  · cases same

end Values

/-! ### Records -/

namespace Record

def names : {β : Type} → Record β → List String
  | _, .nil => []
  | _, .cons slot rest => slot.name :: rest.names

/-- The slots are lawful, each for its part of the values. -/
inductive Lawful (allowed : Number → Prop) (depth : Nat) :
    {β : Type} → Record β → (β → Prop) → Prop
  | nil : Lawful allowed depth .nil fun _ => True
  | cons {α β : Type} {slot : Slot α} {rest : Record β} {Fits : α → Prop} {FitsRest : β → Prop}
      (first : slot.Lawful allowed depth Fits) (others : Lawful allowed depth rest FitsRest) :
      Lawful allowed depth (.cons slot rest) fun ab => Fits ab.1 ∧ FitsRest ab.2

variable {record : Record β} {Fits : β → Prop} {b : β}

theorem names_fields_sublist (record : Record β) (b : β) :
    ((record.fields b).map Prod.fst).Sublist record.names := by
  induction record with
  | nil => exact .slnil
  | cons slot rest ih =>
    obtain ⟨a, b⟩ := b
    rw [fields]
    split
    · exact (ih b).cons_cons _
    · exact (ih b).cons _

section Cons

variable {slot : Slot α} {rest : Record β} {a : α}

theorem valuesOf_fields_first (fresh : slot.name ∉ rest.names) :
    valuesOf slot.name ((Record.cons slot rest).fields (a, b)) = (slot.write a).toList := by
  have absent : valuesOf slot.name (rest.fields b) = [] :=
    valuesOf_eq_nil fun mem => fresh ((names_fields_sublist rest b).subset mem)
  rw [fields]
  split
  · next value written => simp [valuesOf_cons, absent, written]
  · next omitted => simp [absent, omitted]

theorem valuesOf_fields_others {name : String} (other : name ≠ slot.name) :
    valuesOf name ((Record.cons slot rest).fields (a, b)) = valuesOf name (rest.fields b) := by
  rw [fields]
  split
  · rw [valuesOf_cons, if_neg (Ne.symm other)]
  · rfl

end Cons

namespace Lawful

theorem within (lawful : record.Lawful allowed depth Fits) (fits : Fits b) :
    ∀ f ∈ record.fields b, f.2.FitsIn allowed depth := by
  induction lawful with
  | nil => nofun
  | cons first _ ih =>
    obtain ⟨a, b⟩ := b
    rw [fields]
    split
    · next value written => exact List.forall_mem_cons.2 ⟨first.within fits.1 written, ih fits.2⟩
    · exact ih fits.2

/-- The values are found under the names of the slots, whatever else there is. -/
theorem ofFields?_eq_some (lawful : record.Lawful allowed depth Fits)
    (distinct : record.names.Nodup) (fits : Fits b) {f : Json → Json} (rearranges : Rearranges f)
    {all : List (String × Json)}
    (values : ∀ name ∈ record.names, valuesOf name all = (valuesOf name (record.fields b)).map f) :
    record.ofFields? all = some b := by
  induction lawful with
  | nil => rfl
  | @cons α β slot rest _ _ first others ih =>
    obtain ⟨a, b⟩ := b
    obtain ⟨fresh, distinct⟩ := List.nodup_cons.1 distinct
    obtain ⟨here, there⟩ := List.forall_mem_cons.1 values
    rw [valuesOf_fields_first fresh] at here
    -- `all` stays whole on the way down; it is the names to be found in it that become fewer.
    have rest : rest.ofFields? all = some b := by
      refine ih distinct fits.2 fun name mem => ?_
      rw [there name mem, valuesOf_fields_others]
      exact fun same => fresh (same ▸ mem)
    rw [ofFields?, here]
    cases written : slot.write a with
    | none => simp [first.omits written, rest]
    | some value => simp [first.reads fits.1 written rearranges, rest]

theorem fits_of_ofFields? (lawful : record.Lawful allowed depth Fits) {all : List (String × Json)}
    (within : ∀ f ∈ all, f.2.FitsIn allowed depth) (read : record.ofFields? all = some b) :
    Fits b := by
  induction lawful with
  | nil => trivial
  | @cons α β slot rest _ _ first others ih =>
    simp only [ofFields?] at read
    split at read
    · obtain ⟨a, here, behind⟩ := Option.bind_eq_some_iff.1 read
      obtain ⟨b, there, same⟩ := Option.bind_eq_some_iff.1 behind
      cases same
      exact ⟨first.missing here, ih there⟩
    · next value found =>
      obtain ⟨field, mem, rfl⟩ := mem_of_mem_valuesOf (found ▸ List.mem_singleton_self value)
      obtain ⟨a, here, behind⟩ := Option.bind_eq_some_iff.1 read
      obtain ⟨b, there, same⟩ := Option.bind_eq_some_iff.1 behind
      cases same
      exact ⟨first.fits (within field mem) here, ih there⟩
    · cases read

theorem fits_of_ofElements? (lawful : record.Lawful allowed depth Fits) {elements : List Json}
    (within : ∀ e ∈ elements, e.FitsIn allowed depth) (read : record.ofElements? elements = some b) :
    Fits b := by
  induction lawful generalizing elements with
  | nil => trivial
  | cons first others ih =>
    cases elements with
    | nil =>
      simp only [ofElements?, Option.bind_eq_bind, Option.bind_eq_some_iff, Option.some.injEq] at read
      obtain ⟨a, here, b, there, rfl⟩ := read
      exact ⟨first.beyond here, ih within there⟩
    | cons e rest =>
      simp only [ofElements?, Option.bind_eq_bind, Option.bind_eq_some_iff, Option.some.injEq] at read
      obtain ⟨a, here, b, there, rfl⟩ := read
      obtain ⟨now, later⟩ := List.forall_mem_cons.1 within
      exact ⟨first.fits now here, ih later there⟩

theorem codec (lawful : record.Lawful allowed depth Fits) (distinct : record.names.Nodup)
    {apart : α → β} {together : β → α} (whole : ∀ a, together (apart a) = a)
    (parts : ∀ b, apart (together b) = b) {FitsWhole : α → Prop}
    (same : ∀ a, Fits (apart a) ↔ FitsWhole a) :
    (record.codec apart together).Lawful allowed (depth + 1) FitsWhole where
  reads {a} fits f rearranges := by
    have written : ((record.fields (apart a)).map Prod.fst).Nodup :=
      distinct.sublist (names_fields_sublist record _)
    obtain ⟨all, given, perm⟩ := rearranges.object written
    have read : record.ofFields? all = some (apart a) := by
      refine lawful.ofFields?_eq_some distinct ((same a).2 fits) rearranges fun name _ => ?_
      rw [valuesOf_perm _ perm, valuesOf_map]
      simpa [Function.comp_def] using written
    simp [Record.codec, given, Record.read, read, whole]
  within fits := .object fun f mem => lawful.within ((same _).2 fits) f mem
  fits within read := by
    obtain ⟨b, taken, rfl⟩ := Option.map_eq_some_iff.1 read
    rw [← same, parts]
    cases within with
    | array each => exact lawful.fits_of_ofElements? each taken
    | object each => exact lawful.fits_of_ofFields? each taken
    | _ => cases taken

end Lawful
end Record

/-! ### Texts -/

namespace Codec

variable {codec : Codec α} {Fits : α → Prop}

/-- The text of a value. -/
def toText (codec : Codec α) (a : α) : String := (codec.write a).toString

/-- Reads a text. -/
def ofText? (codec : Codec α) (text : String) : Option α := (ofString? text).bind codec.read

/-- What is written reads back. -/
def ReadsBack (codec : Codec α) (a : α) : Prop := codec.ofText? (codec.toText a) = some a

theorem Lawful.fits_of_ofText? (lawful : codec.Lawful Number.IsReadable 127 Fits) {text : String}
    {a : α} (read : codec.ofText? text = some a) : Fits a := by
  obtain ⟨j, spelled, taken⟩ := Option.bind_eq_some_iff.1 read
  exact lawful.fits (fitsIn_of_ofString? spelled) taken

/-- Just the values that fit read back. -/
theorem Lawful.readsBack_iff (lawful : codec.Lawful Number.IsReadable 127 Fits) {a : α} :
    codec.ReadsBack a ↔ Fits a := by
  refine ⟨lawful.fits_of_ofText?, fun fits => ?_⟩
  have spelled := ofString?_toString (lawful.within fits)
  have taken : codec.read (codec.write a) = some a := lawful.reads fits rearranges_id
  rw [ReadsBack, ofText?, toText, spelled, Option.bind_some, taken]

end Codec

end CaseRegistry.Json
