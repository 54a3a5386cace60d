import Mathlib.Algebra.Group.Nat.Defs
import Propositional.TruthTable.Collector

/-!
# Runs of a collector

`Collected capacity offered c` says what a collector holds once the values `offered` were offered to
it, kept or not. That determines the collector, and one more offer leaves it true of one more value.
So after any calls a collector holds the first values, as many as its capacity, and has counted all
others; neither the size it was told to expect nor the kind of the calls makes a difference. What a
call answers depends only on how many values came before.
-/

namespace Propositional.Collector

/-- The state of a collector to which the values `offered` were offered, the earliest first. -/
structure Collected (capacity : Nat) (offered : List Bool) (c : Collector) : Prop where
  capacity_eq : c.capacity = capacity
  toList_eq : c.toList = offered.take (min capacity offered.length)
  /-- every value is kept or counted -/
  size_add_dropped : c.size + c.dropped = offered.length

/-- The two ways to offer a value. -/
inductive Call where
  | push (b : Bool)
  | tryPush (b : Bool)
  deriving DecidableEq, Repr

/-- The value that is offered. -/
def Call.value : Call → Bool
  | push b => b
  | tryPush b => b

/-- The collector behind a call. -/
def Call.apply (c : Collector) : Call → Collector
  | push b => (c.push b).2
  | tryPush b => (c.tryPush b).2

/-- The collector behind calls made one after another. -/
def run (calls : List Call) (c : Collector) : Collector := calls.foldl Call.apply c

variable {capacity : Nat} {offered : List Bool} {c d : Collector}

theorem Call.apply_eq_offer (c : Collector) (call : Call) : call.apply c = c.offer call.value := by
  cases call <;> rfl

namespace Collected

theorem size_eq (h : Collected capacity offered c) : c.size = min capacity offered.length := by
  rw [← length_toList, h.toList_eq, List.length_take]
  omega

theorem size_le (h : Collected capacity offered c) : c.size ≤ c.capacity := by
  rw [h.size_eq, h.capacity_eq]
  exact Nat.min_le_left _ _

/-- A value is counted only by a full collector. -/
theorem size_eq_capacity (h : Collected capacity offered c) (hd : 0 < c.dropped) :
    c.size = c.capacity := by
  have hsize := h.size_eq
  have hcount := h.size_add_dropped
  rw [h.capacity_eq]
  omega

theorem hasRoom_iff (h : Collected capacity offered c) :
    c.hasRoom = true ↔ offered.length < capacity := by
  rw [Collector.hasRoom_iff, h.size_eq, h.capacity_eq]
  omega

theorem eq (h : Collected capacity offered c) (h' : Collected capacity offered d) : c = d := by
  refine ext_toList (h.toList_eq.trans h'.toList_eq.symm)
    (h.capacity_eq.trans h'.capacity_eq.symm) ?_
  have hc := h.size_add_dropped
  have hd := h'.size_add_dropped
  rw [h.size_eq] at hc
  rw [h'.size_eq] at hd
  omega

theorem withReserved (capacity expected : Nat) :
    Collected capacity [] (withReserved capacity expected) := ⟨rfl, List.take_nil.symm, rfl⟩

/-- One more value is kept if there were fewer than fit, and counted if not. -/
theorem offer (h : Collected capacity offered c) (b : Bool) :
    Collected capacity (offered ++ [b]) (c.offer b) := by
  have hcount := h.size_add_dropped
  refine ⟨(capacity_offer c b).trans h.capacity_eq, ?_, ?_⟩
  · rw [toList_offer, h.toList_eq, List.length_append, List.length_singleton]
    split
    · rename_i hroom
      have hlt := h.hasRoom_iff.1 hroom
      rw [Nat.min_eq_right (Nat.le_of_lt hlt), Nat.min_eq_right hlt, List.take_length,
        List.take_of_length_le (by simp)]
    · rename_i hroom
      have hle : capacity ≤ offered.length := Nat.not_lt.1 fun hlt => hroom (h.hasRoom_iff.2 hlt)
      rw [Nat.min_eq_left hle, Nat.min_eq_left (Nat.le_succ_of_le hle),
        List.take_append_of_le_length hle]
  · rw [size_offer, dropped_offer, List.length_append, List.length_singleton]
    split <;> omega

/-- What holds behind some calls holds behind more. -/
theorem run (h : Collected capacity offered c) (calls : List Call) :
    Collected capacity (offered ++ calls.map Call.value) (run calls c) := by
  induction calls generalizing offered c with
  | nil => rwa [List.map_nil, List.append_nil]
  | cons call calls ih =>
    have hstep := h.offer call.value
    rw [← Call.apply_eq_offer] at hstep
    rw [List.map_cons, List.append_cons]
    exact ih hstep

end Collected

theorem push_eq_true_iff {b : Bool} :
    (c.push b).1 = true ↔ (c.push b).2.toList = c.toList ++ [b] := by
  simp only [push, toList_offer]
  split
  · rename_i hroom
    exact iff_of_true hroom rfl
  · rename_i hroom
    exact iff_of_false hroom fun h => List.cons_ne_nil b [] (List.self_eq_append_right.1 h)

theorem push_eq_false_iff {b : Bool} :
    (c.push b).1 = false ↔ (c.push b).2 = { c with dropped := c.dropped + 1 } := by
  simp only [push]
  constructor
  · intro hroom
    rw [offer, if_neg (Bool.eq_false_iff.1 hroom)]
  · intro h
    have hdropped : (c.offer b).dropped = c.dropped + 1 := congrArg dropped h
    rw [dropped_offer] at hdropped
    exact Bool.eq_false_iff.2 fun hroom => by rw [if_pos hroom] at hdropped; omega

/-- After any calls a collector has kept the first values offered, as many as fit, and counted the
others. Each call tells whether its value was kept, and what it tells depends on nothing but the
number of calls before. -/
theorem run_withReserved (capacity expected : Nat) (calls : List Call) :
    let c := run calls (withReserved capacity expected)
    let offered := calls.map Call.value
    c.toList = offered.take (min capacity offered.length) ∧
      c.size + c.dropped = offered.length ∧ c.size ≤ c.capacity ∧ c.capacity = capacity ∧
      (0 < c.dropped → c.size = c.capacity) ∧
      (calls.length < 2 ^ 64 → c.size < 2 ^ 64 ∧ c.dropped < 2 ^ 64) ∧
      (∀ b, ((c.push b).1 = true ↔ (c.push b).2.toList = c.toList ++ [b]) ∧
        ((c.push b).1 = false ↔ (c.push b).2 = { c with dropped := c.dropped + 1 }) ∧
        (c.push b).1 = decide (calls.length < capacity) ∧
        c.tryPush b =
          (if (c.push b).1 then .ok () else .error (.capacityExceeded capacity), (c.push b).2)) ∧
      ∀ expected' calls', calls'.map Call.value = offered →
        run calls' (withReserved capacity expected') = c := by
  intro c offered
  have h (expected : Nat) (calls : List Call) : Collected capacity (calls.map Call.value)
      (run calls (withReserved capacity expected)) :=
    (Collected.withReserved capacity expected).run calls
  have hc : Collected capacity offered c := h expected calls
  have hcount := hc.size_add_dropped
  have hlen : offered.length = calls.length := List.length_map _
  refine ⟨hc.toList_eq, hcount, hc.size_le, hc.capacity_eq, hc.size_eq_capacity, fun _ => by omega,
    fun b => ⟨push_eq_true_iff, push_eq_false_iff, ?_, ?_⟩, fun expected' calls' hcalls => ?_⟩
  · rw [← hlen, Bool.eq_iff_iff, decide_eq_true_iff]
    exact hc.hasRoom_iff
  · rw [tryPush, hc.capacity_eq]
    rfl
  · exact Collected.eq (hcalls ▸ h expected' calls') hc

end Propositional.Collector
