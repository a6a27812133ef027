import CaseRegistry.Ledger.Operation

/-!
A recorded chain: blocks that were pushed, and the height of its head. A height at or below the
head without a block stands for an empty block. The heights that were served are noted.
-/
namespace CaseRegistry

structure Chain where
  head : Nat
  /-- The newest first; of blocks with one height the newest counts. -/
  blocks : List LedgerBlock
  /-- Served heights in their order. -/
  fetched : List Nat

namespace Chain

def empty : Chain := ⟨0, [], []⟩

instance : Inhabited Chain := ⟨empty⟩

def block? (c : Chain) (height : Nat) : Option LedgerBlock :=
  c.blocks.find? (·.height = height)

/-- The block at a height, empty where none was pushed. -/
def blockAt (c : Chain) (height : Nat) : LedgerBlock :=
  (c.block? height).getD ⟨height, .epoch, []⟩

/-- Adds a block; the head moves up to it. -/
def push (c : Chain) (block : LedgerBlock) : Chain :=
  { c with head := max c.head block.height, blocks := block :: c.blocks }

/-- Moves the head alone. -/
def setHead (c : Chain) (height : Nat) : Chain := { c with head := height }

/-- Goes back to a height; the blocks above it are dropped. -/
def rollback (c : Chain) (height : Nat) : Chain :=
  { c with head := height, blocks := c.blocks.filter (·.height ≤ height) }

/-- Serves the block at a height, which must not lie above the head. -/
def fetch (c : Chain) (height : Nat) : Except Error (Chain × LedgerBlock) :=
  if c.head < height then .error (.ledger s!"block {height} is above head {c.head}")
  else .ok ({ c with fetched := c.fetched ++ [height] }, c.blockAt height)

theorem block?_push (c : Chain) (block : LedgerBlock) (height : Nat) :
    (c.push block).block? height = if block.height = height then some block else c.block? height := by
  by_cases h : block.height = height <;> simp [push, block?, h]

theorem block?_rollback (c : Chain) (height other : Nat) :
    (c.rollback height).block? other = if other ≤ height then c.block? other else none := by
  unfold rollback block?
  rw [List.find?_filter]
  split
  · next le =>
    congr 1
    funext block
    by_cases h : block.height = other
    · simp [h, le]
    · simp [h]
  · next nle =>
    rw [List.find?_eq_none]
    intro block _ both
    simp only [decide_eq_true_eq] at both
    exact nle (both.2 ▸ both.1)

end Chain
end CaseRegistry
