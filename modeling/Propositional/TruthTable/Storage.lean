import Propositional.TruthTable.Basic

/-!
# Storage

The places a collector reserves come as one block of storage, and no block has more than 2⁶³ - 1
of them. A reservation for more is refused at once. A table asks for its block when its variables
have been counted and before its first row is evaluated.
-/

namespace Propositional

/-- More places were asked for than any block has. -/
structure StorageError where
  places : Nat
  deriving DecidableEq, Repr

def StorageError.message (_ : StorageError) : String := "capacity overflow"

namespace Collector

/-- The places of the largest block. -/
def largestBlock : Nat := 0x7fffffffffffffff

/-- `withReserved`, with the block for its places. -/
def allocate (capacity expected : Nat) : Except StorageError Collector :=
  if reservation capacity expected ≤ largestBlock then .ok (withReserved capacity expected)
  else .error ⟨reservation capacity expected⟩

end Collector

namespace TruthTable

/-- The table of a formula, with a block of storage for its values. -/
def buildInStorage (f : Formula) (settings : Settings := {}) :
    Except StorageError (Except Error TruthTable) :=
  buildIn Collector.allocate f settings

end TruthTable

end Propositional
