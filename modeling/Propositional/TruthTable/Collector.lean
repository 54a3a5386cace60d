/-!
# Collector

Takes the values of a truth table one by one and keeps the first `capacity` of them. A value that
no longer fits is counted and forgotten; the caller may ask for an error instead. The capacity is
a bound and not a size: room is reserved for the values that are expected, and more is taken up as
they arrive.
-/

namespace Propositional

inductive TableError where
  | tooManyVariables (count max : Nat)
  | capacityExceeded (capacity : Nat)
  deriving DecidableEq, Repr

def TableError.message : TableError → String
  | tooManyVariables count max =>
    "expression has " ++ toString count ++ " free variables, at most " ++ toString max ++
      " are supported"
  | capacityExceeded capacity => "truth table capacity " ++ toString capacity ++ " exceeded"

structure Collector where
  values : Array Bool
  capacity : Nat
  /-- how many values came after the collector was full -/
  dropped : Nat := 0
  deriving DecidableEq, Repr

namespace Collector

/-- Places asked for in advance when `expected` values are announced. -/
def reservation (capacity expected : Nat) : Nat := min capacity expected

/-- An empty collector that is told how many values to expect. -/
def withReserved (capacity expected : Nat) : Collector where
  values := Array.emptyWithCapacity (reservation capacity expected)
  capacity

def withCapacity (capacity : Nat) : Collector := withReserved capacity 0

/-- The values kept, the earliest first. -/
def toList (c : Collector) : List Bool := c.values.toList

def size (c : Collector) : Nat := c.values.size

def hasRoom (c : Collector) : Bool := c.size < c.capacity

/-- Keeps the value if there is room, else counts it. -/
def offer (c : Collector) (b : Bool) : Collector :=
  if c.hasRoom then { c with values := c.values.push b } else { c with dropped := c.dropped + 1 }

/-- Offers a value and tells whether it was kept. -/
def push (c : Collector) (b : Bool) : Bool × Collector := (c.hasRoom, c.offer b)

/-- Offers a value; one that is not kept is an error. -/
def tryPush (c : Collector) (b : Bool) : Except TableError Unit × Collector :=
  (if c.hasRoom then .ok () else .error (.capacityExceeded c.capacity), c.offer b)

/-- The values kept, as a bracketed list. -/
def text (c : Collector) : String :=
  "[" ++ ", ".intercalate (c.toList.map fun b => if b then "true" else "false") ++ "]"

instance : ToString Collector := ⟨text⟩

@[simp] theorem toList_withReserved (capacity expected : Nat) :
    (withReserved capacity expected).toList = [] := rfl

@[simp] theorem length_toList (c : Collector) : c.toList.length = c.size := rfl

theorem ext_toList {c d : Collector} (hlist : c.toList = d.toList)
    (hcapacity : c.capacity = d.capacity) (hdropped : c.dropped = d.dropped) : c = d := by
  cases c
  cases d
  simp_all [toList]

/-- The reservation is a hint: it leaves no trace. -/
theorem withReserved_eq_withCapacity (capacity expected : Nat) :
    withReserved capacity expected = withCapacity capacity := rfl

theorem hasRoom_iff {c : Collector} : c.hasRoom = true ↔ c.size < c.capacity := by simp [hasRoom]

theorem toList_offer (c : Collector) (b : Bool) :
    (c.offer b).toList = if c.hasRoom then c.toList ++ [b] else c.toList := by
  unfold offer
  split <;> simp [toList]

theorem size_offer (c : Collector) (b : Bool) :
    (c.offer b).size = if c.hasRoom then c.size + 1 else c.size := by
  rw [← length_toList, toList_offer]
  split <;> simp

@[simp] theorem capacity_offer (c : Collector) (b : Bool) :
    (c.offer b).capacity = c.capacity := by
  unfold offer
  split <;> rfl

theorem dropped_offer (c : Collector) (b : Bool) :
    (c.offer b).dropped = if c.hasRoom then c.dropped else c.dropped + 1 := by
  unfold offer
  split <;> rfl

end Collector

end Propositional
