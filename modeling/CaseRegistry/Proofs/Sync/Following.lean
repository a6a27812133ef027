import CaseRegistry.Proofs.Sync.Dispatch

/-! What following the ledger does to the stored cases.

The ledger is a list of events, each an operation with the time of its block. A case of
the node takes the stamps of the events that name it, in order, and any other case stays
as it is (`Case.followed`). `Repository.Follows` says this of all stored cases together,
along with the order of listing and the change sets saved on the way; it composes
(`Follows.trans`), and one dispatched operation is one event followed
(`follows_of_dispatch`). -/
namespace CaseRegistry

/-- An operation together with the time of its block. -/
structure LedgerEvent where
  operation : LedgerOperation
  on : Timestamp

def LedgerBlock.events (b : LedgerBlock) : List LedgerEvent :=
  b.operations.map fun op => ⟨op, b.timestamp⟩

/-- The events of `n` blocks from a height on, by height and then by emission. -/
def Chain.events (c : Chain) (height n : Nat) : List LedgerEvent :=
  (List.range' height n).flatMap fun h => (c.blockAt h).events

theorem Chain.blockAt_congr {c d : Chain} (h : c.blocks = d.blocks) : c.blockAt = d.blockAt := by
  unfold blockAt block?
  rw [h]

theorem Chain.events_congr {c d : Chain} (h : c.blocks = d.blocks) : c.events = d.events := by
  unfold events
  rw [blockAt_congr h]

/-- The stamp that an event has for a case, with its time. -/
def LedgerEvent.stampFor (id : CaseId) (e : LedgerEvent) : Option (ChainStamp × Timestamp) :=
  match e.operation.stamp? with
  | some (named, stamp) => if named = id then some (stamp, e.on) else none
  | none => none

theorem LedgerEvent.stampFor_eq_some {id : CaseId} {e : LedgerEvent} {stamp : ChainStamp}
    {on : Timestamp} :
    e.stampFor id = some (stamp, on) ↔ e.operation.stamp? = some (id, stamp) ∧ e.on = on := by
  unfold stampFor
  cases e.operation.stamp? with
  | none => simp
  | some found =>
    obtain ⟨named, stamp'⟩ := found
    by_cases same : named = id <;> simp [same]

theorem LedgerEvent.stampFor_eq_none {id : CaseId} {e : LedgerEvent} :
    e.stampFor id = none ↔ ∀ stamp, e.operation.stamp? ≠ some (id, stamp) := by
  rw [Option.eq_none_iff_forall_not_mem]
  constructor
  · exact fun h stamp hs => h (stamp, e.on) (stampFor_eq_some.mpr ⟨hs, rfl⟩)
  · exact fun h ⟨stamp, _⟩ hs => h stamp (stampFor_eq_some.mp hs).1

/-- The case with a stamp put on it, unless the stamp is refused. -/
def ChainStamp.put (stamp : ChainStamp) (on : Timestamp) (c : Case) : Except Error Case :=
  ((stamp.apply on).run c).1.map fun _ => ((stamp.apply on).run c).2

theorem ChainStamp.put_eq_ok {stamp : ChainStamp} {on : Timestamp} {c c' : Case} :
    stamp.put on c = .ok c' ↔ ∃ changes, (stamp.apply on).run c = (.ok changes, c') := by
  unfold put
  obtain ⟨result, after⟩ := (stamp.apply on).run c
  rw [map_eq_ok]
  exact exists_congr fun changes => Prod.mk.injEq _ _ _ _ ▸ Iff.rfl

namespace Case

variable {node : Identity} {c c' : Case}

/-- The case with stamps put on it one after the other. -/
def putAll (c : Case) (stamps : List (ChainStamp × Timestamp)) : Except Error Case :=
  stamps.foldlM (fun c stamp => stamp.1.put stamp.2 c) c

@[simp] theorem putAll_nil (c : Case) : c.putAll [] = .ok c := rfl

theorem putAll_cons (c : Case) (stamp : ChainStamp × Timestamp) (rest : List (ChainStamp × Timestamp)) :
    c.putAll (stamp :: rest) = stamp.1.put stamp.2 c >>= (·.putAll rest) :=
  List.foldlM_cons

theorem putAll_append (c : Case) (stamps later : List (ChainStamp × Timestamp)) :
    c.putAll (stamps ++ later) = c.putAll stamps >>= (·.putAll later) :=
  List.foldlM_append

/-- Stamps leave a later state of the case, with none of its items lost. -/
theorem putAll_continues {stamps : List (ChainStamp × Timestamp)} (h : c.putAll stamps = .ok c') :
    c.Continues (fun _ => True) c' := by
  induction stamps generalizing c with
  | nil => exact Except.ok.inj h ▸ .refl c
  | cons stamp rest ih =>
    rw [putAll_cons, bind_eq_ok] at h
    obtain ⟨next, put, h⟩ := h
    obtain ⟨changes, ran⟩ := ChainStamp.put_eq_ok.mp put
    exact (stamp_ok ran).1.trans (fun _ _ => trivial) (ih h)

theorem putAll_bears {stamps : List (ChainStamp × Timestamp)} (h : c.putAll stamps = .ok c') :
    ∀ stamp ∈ stamps, c'.Bears stamp.1 stamp.2 := by
  induction stamps generalizing c with
  | nil => exact nofun
  | cons first rest ih =>
    rw [putAll_cons, bind_eq_ok] at h
    obtain ⟨next, put, h⟩ := h
    obtain ⟨changes, ran⟩ := ChainStamp.put_eq_ok.mp put
    intro stamp hstamp
    rcases List.mem_cons.mp hstamp with rfl | hstamp
    · exact (stamp_ok ran).2.1.continues (putAll_continues h)
    · exact ih h stamp hstamp

theorem putAll_of_bears {stamps : List (ChainStamp × Timestamp)}
    (h : ∀ stamp ∈ stamps, c.Bears stamp.1 stamp.2) : c.putAll stamps = .ok c := by
  induction stamps with
  | nil => rfl
  | cons first rest ih =>
    have put : first.1.put first.2 c = .ok c :=
      ChainStamp.put_eq_ok.mpr ⟨∅, stamp_of_bears (h first List.mem_cons_self)⟩
    rw [putAll_cons, put]
    exact ih fun stamp hstamp => h stamp (List.mem_cons_of_mem first hstamp)

/-- What following events makes of a case: one of the node takes the stamps of the events that
name it, any other stays. -/
def followed (c : Case) (node : Identity) (events : List LedgerEvent) : Except Error Case :=
  if c.owner = node then c.putAll (events.filterMap (·.stampFor c.id)) else .ok c

theorem followed_mine (mine : c.owner = node) (events : List LedgerEvent) :
    c.followed node events = c.putAll (events.filterMap (·.stampFor c.id)) := if_pos mine

theorem followed_other (other : c.owner ≠ node) (events : List LedgerEvent) :
    c.followed node events = .ok c := if_neg other

theorem followed_continues {events : List LedgerEvent} (h : c.followed node events = .ok c') :
    c.Continues (fun _ => True) c' := by
  unfold followed at h
  split at h
  · exact putAll_continues h
  · exact Except.ok.inj h ▸ .refl c

theorem followed_nil (c : Case) (node : Identity) : c.followed node [] = .ok c := by
  unfold followed
  split <;> rfl

theorem followed_append (c : Case) (node : Identity) (events later : List LedgerEvent) :
    c.followed node (events ++ later) = c.followed node events >>= (·.followed node later) := by
  by_cases mine : c.owner = node
  · rw [followed_mine mine, followed_mine mine, List.filterMap_append, putAll_append]
    cases h : c.putAll (events.filterMap (·.stampFor c.id)) with
    | error e => rfl
    | ok c' =>
      have continues := putAll_continues h
      show c'.putAll _ = c'.followed node later
      rw [followed_mine (continues.owner.trans mine), continues.id]
  · rw [followed_other mine, followed_other mine]
    exact (followed_other mine later).symm

/-- A case that has followed events does not change by following some of them again. -/
theorem followed_again {events again : List LedgerEvent} (h : c.followed node events = .ok c')
    (sub : again ⊆ events) : c'.followed node again = .ok c' := by
  have continues := followed_continues h
  by_cases mine : c.owner = node
  · rw [followed_mine mine] at h
    rw [followed_mine (continues.owner.trans mine), continues.id]
    refine putAll_of_bears fun stamp hstamp => putAll_bears h stamp ?_
    obtain ⟨e, he, hs⟩ := List.mem_filterMap.mp hstamp
    exact List.mem_filterMap.mpr ⟨e, sub he, hs⟩
  · exact followed_other (continues.owner ▸ mine) again

/-- A case that has followed the first of some events already comes to the same by following all of
them as it does from where it was before. -/
theorem followed_of_prefix {first events : List LedgerEvent} (h : c.followed node first = .ok c')
    (le : first <+: events) : c'.followed node events = c.followed node events := by
  obtain ⟨rest, rfl⟩ := le
  rw [c'.followed_append, c.followed_append, h, followed_again h (List.Subset.refl first)]

theorem followed_singleton_mine (mine : c.owner = node) {e : LedgerEvent} {stamp : ChainStamp}
    {on : Timestamp} (h : e.stampFor c.id = some (stamp, on)) :
    c.followed node [e] = stamp.put on c := by
  rw [followed_mine mine]
  simp only [List.filterMap_cons, h, List.filterMap_nil, putAll_cons]
  cases stamp.put on c <;> rfl

/-- An event without a stamp for a case leaves it. -/
theorem followed_singleton_none {e : LedgerEvent} (h : e.stampFor c.id = none) :
    c.followed node [e] = .ok c := by
  by_cases mine : c.owner = node
  · rw [followed_mine mine]
    simp only [List.filterMap_cons, h, List.filterMap_nil, putAll_nil]
  · exact followed_other mine _

end Case

namespace Repository

variable {node : Identity} {r r' r'' : Repository}

/-- The identifiers of all cases in listing order. -/
def ids (r : Repository) : List CaseId := r.cases.map Case.id

theorem find?_eq_none_iff {id : CaseId} : r.find? id = none ↔ id ∉ r.ids := by
  simp [find?, ids, List.find?_eq_none]

theorem ids_place {c : Case} {cases : List Case} (h : c.id ∈ cases.map Case.id) :
    (place c cases).map Case.id = cases.map Case.id := by
  induction cases with
  | nil => cases h
  | cons other rest ih =>
    by_cases same : other.id = c.id
    · simp [place, same]
    · have hr : c.id ∈ rest.map Case.id := by simpa [Ne.symm same] using h
      simp [place, same, ih hr]

/-- A case that is not stored yet goes behind those that are. -/
theorem place_of_unknown {c : Case} {cases : List Case} (unknown : c.id ∉ cases.map Case.id) :
    place c cases = cases ++ [c] := by
  induction cases with
  | nil => rfl
  | cons other rest ih =>
    rw [List.map_cons, List.mem_cons, not_or] at unknown
    rw [place, if_neg (Ne.symm unknown.1), ih unknown.2, List.cons_append]

theorem ids_insert {c : Case} (unknown : r.find? c.id = none) :
    (r.insert c).ids = r.ids ++ [c.id] := by
  simp [insert, ids, place_of_unknown (find?_eq_none_iff.mp unknown)]

/-- Saving a known case keeps the order of listing. -/
theorem ids_save {c : Case} {changes : ChangeSet} (h : c.id ∈ r.ids) : (r.save c changes).ids = r.ids :=
  ids_place h

/-- The owner of a stored case. -/
def ownerOf? (r : Repository) (id : CaseId) : Option Identity := (r.find? id).map Case.owner

/-- Where the same cases are known, the same are unknown. -/
theorem unknown_of_ids (ids : r'.ids = r.ids) {id : CaseId} (hn : r.find? id = none) :
    r'.find? id = none := by
  rw [find?_eq_none_iff, ids]
  exact find?_eq_none_iff.mp hn

/-- Cases that are all still there, each of the owner that it had. -/
theorem ownerOf?_congr (ids : r'.ids = r.ids)
    (cases : ∀ id c, r.find? id = some c → ∃ c', r'.find? id = some c' ∧ c'.owner = c.owner) :
    r'.ownerOf? = r.ownerOf? := by
  funext id
  unfold ownerOf?
  cases found : r.find? id with
  | none => rw [unknown_of_ids ids found]
  | some c =>
    obtain ⟨c', found', owner⟩ := cases id c found
    rw [found', Option.map_some, Option.map_some, owner]

/-- Whether an event puts a stamp on a stored case of the node. -/
def heeds (r : Repository) (node : Identity) (e : LedgerEvent) : Bool :=
  match e.operation.stamp? with
  | some (id, _) => r.ownerOf? id = some node
  | none => false

/-- An event can be read as far as it must be: its kind is known, so is the case that it names
unless that may be missing, and for a case of the node its stamp can be made out. -/
def Admits (r : Repository) (node : Identity) (e : LedgerEvent) : Prop :=
  match e.operation.demand with
  | .error _ => False
  | .ok (.pass _) => True
  | .ok (.stamp kind id) =>
    match r.ownerOf? id with
    | none => kind.targetPolicy = .tolerant
    | some owner => owner = node → (ChainStamp.ofOperation kind e.operation).isOk

/-- What becomes of the stored cases when a node follows events. -/
structure Follows (node : Identity) (events : List LedgerEvent) (r r' : Repository) : Prop where
  admits : ∀ e ∈ events, r.Admits node e
  cases : ∀ id c, r.find? id = some c → ∃ c', c.followed node events = .ok c' ∧ r'.find? id = some c'
  ids : r'.ids = r.ids
  saves : ∃ saved, r'.saves = r.saves ++ saved ∧ saved.length = events.countP (r.heeds node) ∧
    ∀ entry ∈ saved, entry.2.IsUpdateOnly

/-- Which events are heeded depends on who owns which case. -/
theorem heeds_congr (h : r.ownerOf? = r'.ownerOf?) : r.heeds = r'.heeds := by
  unfold heeds
  rw [h]

theorem admits_congr (h : r.ownerOf? = r'.ownerOf?) : r.Admits = r'.Admits := by
  unfold Admits
  rw [h]

namespace Follows

variable {events later : List LedgerEvent}

theorem refl (r : Repository) : Follows node [] r r where
  admits := nofun
  cases _ c found := ⟨c, c.followed_nil node, found⟩
  ids := rfl
  saves := ⟨[], (List.append_nil _).symm, rfl, nofun⟩

theorem unknown (h : Follows node events r r') {id : CaseId} (hn : r.find? id = none) :
    r'.find? id = none := unknown_of_ids h.ids hn

/-- Following events changes neither who owns a case nor which cases there are. -/
theorem ownerOf?_eq (h : Follows node events r r') : r'.ownerOf? = r.ownerOf? := by
  refine ownerOf?_congr h.ids fun id c found => ?_
  obtain ⟨c', hc, found'⟩ := h.cases id c found
  exact ⟨c', found', (Case.followed_continues hc).owner⟩

theorem trans (h : Follows node events r r') (h' : Follows node later r' r'') :
    Follows node (events ++ later) r r'' where
  admits e he := by
    rcases List.mem_append.mp he with he | he
    · exact h.admits e he
    · rw [← admits_congr h.ownerOf?_eq]
      exact h'.admits e he
  cases id c found := by
    obtain ⟨c', hc, found'⟩ := h.cases id c found
    obtain ⟨c'', hc', found''⟩ := h'.cases id c' found'
    refine ⟨c'', ?_, found''⟩
    rw [c.followed_append, hc]
    exact hc'
  ids := h'.ids.trans h.ids
  saves := by
    obtain ⟨saved, hs, hl, hu⟩ := h.saves
    obtain ⟨saved', hs', hl', hu'⟩ := h'.saves
    refine ⟨saved ++ saved', by rw [hs', hs, List.append_assoc], ?_, ?_⟩
    · rw [List.length_append, hl, hl', heeds_congr h.ownerOf?_eq, List.countP_append]
    · intro entry hentry
      exact (List.mem_append.mp hentry).elim (hu entry) (hu' entry)

end Follows

/-! ### One operation -/

variable {e : LedgerEvent}

theorem ownerOf?_of_find? {id : CaseId} {c : Case} (found : r.find? id = some c) :
    r.ownerOf? id = some c.owner := congrArg (Option.map Case.owner) found

/-- An event that is not refused can be read. -/
theorem admits_of_ruling (h : ∀ error, r.ruling node e.operation e.on ≠ .refuse error) :
    r.Admits node e := by
  unfold Admits
  unfold ruling at h
  split
  · next error hd => exact h error (by rw [hd])
  · trivial
  · next kind id hd =>
    simp only [hd] at h
    split
    · next owner =>
      have unknown : r.find? id = none := Option.map_eq_none_iff.mp owner
      refine Decidable.byContradiction fun strict => h (.missingTarget e.operation.kind id) ?_
      rw [unknown, Ruling.onTarget, if_neg strict]
    · next owner hw =>
      rintro rfl
      obtain ⟨c, found, rfl⟩ := Option.map_eq_some_iff.mp hw
      simp only [found, Ruling.onTarget, Case.ruling, if_true] at h
      cases ho : ChainStamp.ofOperation kind e.operation with
      | error error => exact absurd (by rw [ho]) (h error)
      | ok _ => rfl

/-- An event that can be read and is refused has a stamp that a case of the node refuses. -/
theorem refused_by_case (admits : r.Admits node e) {error : Error}
    (h : r.ruling node e.operation e.on = .refuse error) :
    ∃ id c, r.find? id = some c ∧ ∀ c', c.followed node [e] ≠ .ok c' := by
  unfold Admits at admits
  unfold ruling at h
  split at admits
  · exact admits.elim
  · next hd =>
    rw [hd] at h
    cases h
  · next kind id hd =>
    simp only [hd] at h
    split at admits
    · next owner =>
      have unknown : r.find? id = none := Option.map_eq_none_iff.mp owner
      rw [unknown, Ruling.onTarget, if_pos admits] at h
      cases h
    · next owner hw =>
      obtain ⟨c, found, rfl⟩ := Option.map_eq_some_iff.mp hw
      simp only [found, Ruling.onTarget, Case.ruling] at h
      split at h
      · next mine =>
        split at h
        · next ho =>
          rw [ho] at admits
          cases admits mine
        · cases h
        · next stamp ho =>
          refine ⟨id, c, found, fun c' hc => ?_⟩
          have named : e.stampFor c.id = some (stamp, e.on) :=
            LedgerEvent.stampFor_eq_some.mpr
              ⟨LedgerOperation.stamp?_eq_some.mpr ⟨kind, id_of_find? found ▸ hd, ho⟩, rfl⟩
          rw [Case.followed_singleton_mine mine named] at hc
          obtain ⟨changes, ran⟩ := ChainStamp.put_eq_ok.mp hc
          rw [ran] at h
          cases h
      · cases h

/-- An operation that is passed over changes no case. -/
theorem follows_of_pass {reason : SkipReason} (h : r.ruling node e.operation e.on = .pass reason) :
    Follows node [e] r r ∧ r.heeds node e = false := by
  have stampless : ∀ id c, r.find? id = some c → c.owner = node → e.stampFor id = none := by
    exact fun id c found mine =>
      LedgerEvent.stampFor_eq_none.mpr fun stamp hs => not_mine_of_ruling h hs found mine
  have unheeded : r.heeds node e = false := by
    unfold heeds
    split
    · next id stamp hs =>
      refine decide_eq_false fun mine => ?_
      obtain ⟨c, found, hc⟩ := Option.map_eq_some_iff.mp mine
      exact not_mine_of_ruling h hs found hc
    · rfl
  have admits : r.Admits node e := admits_of_ruling fun error he => by
    rw [h] at he
    cases he
  refine ⟨⟨by simpa using admits, fun id c found => ⟨c, ?_, found⟩, rfl,
    [], (List.append_nil _).symm, ?_, nofun⟩, unheeded⟩
  · by_cases mine : c.owner = node
    · exact Case.followed_singleton_none (id_of_find? found ▸ stampless id c found mine)
    · exact Case.followed_other mine _
  · simp [unheeded]

/-- An operation that stamps a case changes that case and no other. -/
theorem follows_of_stamp {id : CaseId} {after : Case} {changes : ChangeSet}
    (h : r.ruling node e.operation e.on = .stamp id after changes) :
    Follows node [e] r (r.save after changes) ∧ r.heeds node e = true := by
  obtain ⟨stamp, c, hs, found, mine, ran⟩ := ruling_eq_stamp.mp h
  obtain ⟨continues, _, updates⟩ := Case.stamp_ok ran
  have hid : c.id = id := id_of_find? found
  have heeded : r.heeds node e = true := by
    unfold heeds
    simp only [hs, ownerOf?_of_find? found, mine, decide_true]
  have admits : r.Admits node e := admits_of_ruling fun error he => by
    rw [h] at he
    cases he
  refine ⟨⟨by simpa using admits, fun other c' found' => ?_, ?_, ?_⟩, heeded⟩
  · by_cases same : other = id
    · subst same
      obtain rfl : c = c' := Option.some.inj (found.symm.trans found')
      have named : e.stampFor c.id = some (stamp, e.on) :=
        LedgerEvent.stampFor_eq_some.mpr ⟨by rw [hid]; exact hs, rfl⟩
      refine ⟨after, ?_, ?_⟩
      · rw [Case.followed_singleton_mine mine named]
        exact ChainStamp.put_eq_ok.mpr ⟨changes, ran⟩
      · rw [find?_save, if_pos (continues.id.trans hid)]
    · have other_id : c'.id = other := id_of_find? found'
      have unnamed : e.stampFor c'.id = none := LedgerEvent.stampFor_eq_none.mpr fun stamp' hs' => by
        have both := Option.some.inj (hs.symm.trans hs')
        exact same (other_id.symm.trans (Prod.mk.inj both).1.symm)
      refine ⟨c', Case.followed_singleton_none unnamed, ?_⟩
      rw [find?_save, if_neg (fun he => same (he.symm.trans (continues.id.trans hid)))]
      exact found'
  · refine ids_save ?_
    rw [continues.id, hid, ← not_not (a := id ∈ r.ids), ← find?_eq_none_iff, found]
    exact Option.some_ne_none c
  · exact ⟨[(after.id, changes)], rfl, by simp [heeded], by simpa using updates⟩

end Repository
end CaseRegistry
