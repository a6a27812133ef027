import CaseRegistry.Time.Timestamp

/-!
The journal: for each stream the record of every block that was followed. A block followed again
is recorded anew; all records of a stream are discarded together.
-/
namespace CaseRegistry

/-- What following a block came to. -/
structure BlockRecord where
  height : Nat
  timestamp : Timestamp
  applied : Nat
  skipped : Nat
deriving DecidableEq

structure Journal where
  /-- Streams and records in the order of recording. -/
  entries : List (String × BlockRecord)
deriving DecidableEq

namespace Journal

def empty : Journal := ⟨[]⟩

instance : Inhabited Journal := ⟨empty⟩

/-- The records of a stream, in the order of recording. -/
def records (j : Journal) (stream : String) : List BlockRecord :=
  (j.entries.filter (·.1 = stream)).map Prod.snd

/-- Records a block, in place of an earlier record of its height. -/
def record (j : Journal) (stream : String) (block : BlockRecord) : Journal :=
  ⟨j.entries.filter (fun entry => ¬(entry.1 = stream ∧ entry.2.height = block.height))
    ++ [(stream, block)]⟩

def discard (j : Journal) (stream : String) : Journal := ⟨j.entries.filter (·.1 ≠ stream)⟩

theorem records_discard (j : Journal) (stream other : String) :
    (j.discard stream).records other = if other = stream then [] else j.records other := by
  unfold records discard
  rw [List.filter_filter]
  split
  · next same => simp [same]
  · next ne =>
    congr 1
    refine List.filter_congr fun entry _ => ?_
    by_cases h : entry.1 = other
    · simp [h, ne]
    · simp [h]

theorem records_record (j : Journal) (stream : String) (block : BlockRecord) :
    (j.record stream block).records stream =
      (j.records stream).filter (·.height ≠ block.height) ++ [block] := by
  unfold records record
  simp only [List.filter_append, List.filter_filter, List.map_append, List.filter_map]
  congr 1
  · congr 1
    refine List.filter_congr fun entry _ => ?_
    by_cases h : entry.1 = stream <;> simp [h]
  · simp

theorem records_record_of_ne (j : Journal) {stream other : String} (block : BlockRecord)
    (ne : other ≠ stream) : (j.record stream block).records other = j.records other := by
  unfold records record
  simp only [List.filter_append, List.filter_filter, List.map_append]
  have none : List.filter (fun entry => decide (entry.1 = other)) [(stream, block)] = [] := by
    simp [Ne.symm ne]
  rw [none, List.map_nil, List.append_nil]
  congr 1
  refine List.filter_congr fun entry _ => ?_
  by_cases h : entry.1 = other
  · simp [h, ne]
  · simp [h]

end Journal
end CaseRegistry
