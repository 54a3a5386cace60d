import Propositional.Proofs.Tree.Agreement

/-!
# The descent, call by call

`read` says what a call comes to. `Descent` says what happens on the way: the calls that wait for
the tree of another stand on a stack, and a step enters a call or returns a tree to the call on top.
A level is entered with an opening parenthesis or a negation and left with its operand. Leaving one
where none is open is a fault of its own, not a subtraction that stops at zero.

`Move` lists what a step can do. From a call with any other calls waiting, some number of steps
comes to what `read` makes of the tokens (`reaches_read`), so every call ends.
-/

namespace Propositional

open Grammar

namespace Grammar

/-- The connectives of the binary levels, the weakest first. -/
def levels : List Junction := [.implies, .or, .and]

end Grammar

namespace Tree

/-- What is called for. -/
inductive Call where
  /-- the binary level with this number, past the last of them a unary part -/
  | level (n : Nat)
  | unary
  | atom

/-- A call that waits for the tree of another. -/
inductive Activation where
  /-- a level, with its connective and the operands that have been read -/
  | level (n : Nat) (j : Junction) (earlier : List Tree)
  | negation
  | group

inductive Turn where
  | call (c : Call)
  /-- a tree is returned -/
  | value (t : Tree)

structure Descent where
  position : Nat
  depth : Nat
  /-- the innermost first -/
  waiting : List Activation := []
  turn : Turn

/-- Why a descent breaks off. -/
inductive Halt where
  | parse (e : ParseError)
  /-- a level was left where none was open -/
  | underflow

def Call.part : Call → Part
  | level n =>
    match levels[n]? with
    | some j => .level j
    | none => .unary
  | unary => .unary
  | atom => .atom

/-- The operands of a level joined without a check, a single one for itself. -/
def joinRead (c : Connective) : (earlier : List Tree) → Tree → (later : List Tree) → Tree
  | [], t, later => joinUnchecked c t later
  | first :: earlier, t, later => joinUnchecked c first (earlier ++ t :: later)

theorem joinRead_snoc (c : Connective) (earlier : List Tree) (t u : Tree) (later : List Tree) :
    joinRead c (earlier ++ [t]) u later = joinRead c earlier t (u :: later) := by
  cases earlier with
  | nil => rfl
  | cons first earlier => simp [joinRead]

namespace Descent

/-- Past an opening token, one level deeper, if the limit allows it. -/
def enter (limit : Nat) (d : Descent) (a : Activation) (c : Call) : Except Halt Descent :=
  if d.depth < limit then
    .ok ⟨d.position + 1, d.depth + 1, a :: d.waiting, .call c⟩
  else .error (.parse (.tooDeep d.position))

def leave (d : Descent) : Except Halt Descent :=
  match d.depth with
  | 0 => .error .underflow
  | depth + 1 => .ok { d with depth }

def call (limit : Nat) (tokens : List Token) (d : Descent) : Call → Except Halt Descent
  | .level n =>
    match levels[n]? with
    | some j => .ok { d with waiting := .level n j [] :: d.waiting, turn := .call (.level (n + 1)) }
    | none => .ok { d with turn := .call .unary }
  | .unary =>
    if tokens[d.position]? = some (.op .not) then d.enter limit .negation .unary
    else .ok { d with turn := .call .atom }
  | .atom =>
    match tokens[d.position]? with
    | none => .error (.parse (.unexpectedEnd .operand))
    | some (.ident name) =>
      if IsName name then .ok { d with position := d.position + 1, turn := .value (leaf name) }
      else .error (.parse (.invalidIdentifier name d.position))
    | some .lparen => d.enter limit .group (.level 0)
    | some t => .error (.parse (.unexpectedToken t d.position))

/-- The call on top goes on with the tree it waited for. -/
def resume (tokens : List Token) (d : Descent) (t : Tree) : Activation → Except Halt Descent
  | .level n j earlier =>
    if tokens[d.position]? = some (.op (.binary j)) then
      .ok ⟨d.position + 1, d.depth, .level n j (earlier ++ [t]) :: d.waiting,
        .call (.level (n + 1))⟩
    else .ok { d with turn := .value (joinRead (.binary j) earlier t []) }
  | .negation => do
    let d ← d.leave
    return { d with turn := .value (unary .not t) }
  | .group => do
    let d ← d.leave
    match tokens[d.position]? with
    | some .rparen => return { d with position := d.position + 1, turn := .value t }
    | some u => .error (.parse (.unexpectedToken u d.position))
    | none => .error (.parse (.unexpectedEnd .closing))

/-- One call or return. Where a tree is returned and no call waits, the descent is at its end. -/
def step (limit : Nat) (tokens : List Token) (d : Descent) : Except Halt Descent :=
  match d.turn, d.waiting with
  | .call c, _ => d.call limit tokens c
  | .value t, a :: waiting => resume tokens { d with waiting } t a
  | .value _, [] => .ok d

def run (limit : Nat) (tokens : List Token) : Nat → Descent → Except Halt Descent
  | 0, d => .ok d
  | n + 1, d => d.step limit tokens >>= run limit tokens n

/-- What a step can do, unless it breaks off. -/
inductive Move (limit : Nat) (tokens : List Token) : Descent → Descent → Prop where
  | level {p d n : Nat} {w : List Activation} {j : Junction} (hn : levels[n]? = some j) :
      Move limit tokens ⟨p, d, w, .call (.level n)⟩
        ⟨p, d, .level n j [] :: w, .call (.level (n + 1))⟩
  | pastLevels {p d n : Nat} {w : List Activation} (hn : levels[n]? = none) :
      Move limit tokens ⟨p, d, w, .call (.level n)⟩ ⟨p, d, w, .call .unary⟩
  | neg {p d : Nat} {w : List Activation} (ht : tokens[p]? = some (.op .not)) (hd : d < limit) :
      Move limit tokens ⟨p, d, w, .call .unary⟩ ⟨p + 1, d + 1, .negation :: w, .call .unary⟩
  | bare {p d : Nat} {w : List Activation} (ht : tokens[p]? ≠ some (.op .not)) :
      Move limit tokens ⟨p, d, w, .call .unary⟩ ⟨p, d, w, .call .atom⟩
  | name {p d : Nat} {w : List Activation} {name : String} (ht : tokens[p]? = some (.ident name))
      (hn : IsName name) :
      Move limit tokens ⟨p, d, w, .call .atom⟩ ⟨p + 1, d, w, .value (leaf name)⟩
  | opening {p d : Nat} {w : List Activation} (ht : tokens[p]? = some .lparen) (hd : d < limit) :
      Move limit tokens ⟨p, d, w, .call .atom⟩ ⟨p + 1, d + 1, .group :: w, .call (.level 0)⟩
  | joining {p d n : Nat} {w : List Activation} {j : Junction} {earlier : List Tree} {t : Tree}
      (ht : tokens[p]? = some (.op (.binary j))) :
      Move limit tokens ⟨p, d, .level n j earlier :: w, .value t⟩
        ⟨p + 1, d, .level n j (earlier ++ [t]) :: w, .call (.level (n + 1))⟩
  | levelEnd {p d n : Nat} {w : List Activation} {j : Junction} {earlier : List Tree} {t : Tree}
      (ht : tokens[p]? ≠ some (.op (.binary j))) :
      Move limit tokens ⟨p, d, .level n j earlier :: w, .value t⟩
        ⟨p, d, w, .value (joinRead (.binary j) earlier t [])⟩
  | negEnd {p d : Nat} {w : List Activation} {t : Tree} :
      Move limit tokens ⟨p, d + 1, .negation :: w, .value t⟩ ⟨p, d, w, .value (unary .not t)⟩
  | closing {p d : Nat} {w : List Activation} {t : Tree} (ht : tokens[p]? = some .rparen) :
      Move limit tokens ⟨p, d + 1, .group :: w, .value t⟩ ⟨p + 1, d, w, .value t⟩
  | atEnd {p d : Nat} {t : Tree} : Move limit tokens ⟨p, d, [], .value t⟩ ⟨p, d, [], .value t⟩

variable {limit : Nat} {tokens : List Token} {d d' : Descent} {c : Call}

theorem Move.step_eq (h : Move limit tokens d d') : d.step limit tokens = .ok d' := by
  cases h with
  | level hn | pastLevels hn => simp only [step, call, hn]
  | neg ht hd => simp only [step, call, enter, if_pos ht, if_pos hd]
  | bare ht => simp only [step, call, if_neg ht]
  | name ht hn => simp only [step, call, ht, if_pos hn]
  | opening ht hd => simp only [step, call, enter, ht, if_pos hd]
  | joining ht => simp only [step, resume, if_pos ht]
  | levelEnd ht => simp only [step, resume, if_neg ht]
  | negEnd => rfl
  | closing ht =>
    simp only [step, resume, leave, bind, Except.bind, ht]
    rfl
  | atEnd => rfl

theorem move_of_call (h : d.call limit tokens c = .ok d') (hd : d.turn = .call c) :
    Move limit tokens d d' := by
  obtain ⟨p, depth, w, turn⟩ := d
  cases hd
  cases c with
  | level n =>
    rw [call] at h
    split at h
    · rename_i j hn
      cases h
      exact .level hn
    · rename_i hn
      cases h
      exact .pastLevels hn
  | unary =>
    rw [call] at h
    split at h
    · rename_i ht
      rw [enter] at h
      split at h
      · rename_i hd
        cases h
        exact .neg ht hd
      · cases h
    · rename_i ht
      cases h
      exact .bare ht
  | atom =>
    rw [call] at h
    split at h
    · cases h
    · rename_i name ht
      split at h
      · rename_i hn
        cases h
        exact .name ht hn
      · cases h
    · rename_i ht
      rw [enter] at h
      split at h
      · rename_i hd
        cases h
        exact .opening ht hd
      · cases h
    · cases h

theorem move_of_resume {p depth : Nat} {a : Activation} {w : List Activation} {t : Tree}
    (h : resume tokens ⟨p, depth, w, .value t⟩ t a = .ok d') :
    Move limit tokens ⟨p, depth, a :: w, .value t⟩ d' := by
  cases a with
  | level n j earlier =>
    rw [resume] at h
    split at h
    · rename_i ht
      cases h
      exact .joining ht
    · rename_i ht
      cases h
      exact .levelEnd ht
  | negation =>
    cases depth with
    | zero => cases h
    | succ depth =>
      cases h
      exact .negEnd
  | group =>
    cases depth with
    | zero => cases h
    | succ depth =>
      simp only [resume, leave, bind, Except.bind] at h
      split at h
      · rename_i ht
        cases h
        exact .closing ht
      · cases h
      · cases h

theorem step_eq_ok_iff : d.step limit tokens = .ok d' ↔ Move limit tokens d d' := by
  refine ⟨fun h => ?_, Move.step_eq⟩
  obtain ⟨p, depth, w, turn⟩ := d
  cases turn with
  | call c => exact move_of_call h rfl
  | value t =>
    cases w with
    | nil =>
      cases h
      exact .atEnd
    | cons a w => exact move_of_resume h

/-- Some number of steps comes to this descent, or breaks off with this error. -/
def Reaches (limit : Nat) (tokens : List Token) (d : Descent) (x : Except ParseError Descent) :
    Prop :=
  ∃ n, d.run limit tokens n = x.mapError .parse

theorem run_add (m n : Nat) (d : Descent) :
    d.run limit tokens (m + n) = d.run limit tokens m >>= run limit tokens n := by
  induction m generalizing d with
  | zero => rw [Nat.zero_add]; rfl
  | succ m ih =>
    rw [Nat.add_right_comm, run, run]
    cases d.step limit tokens with
    | error e => rfl
    | ok d => exact ih d

namespace Reaches

variable {x : Except ParseError Descent} {e : ParseError}

theorem refl (d : Descent) : Reaches limit tokens d (.ok d) := ⟨0, rfl⟩

theorem move (h : Move limit tokens d d') (hx : Reaches limit tokens d' x) :
    Reaches limit tokens d x := by
  obtain ⟨n, hn⟩ := hx
  exact ⟨n + 1, by rw [run, h.step_eq, ← hn]; rfl⟩

theorem trans (h : Reaches limit tokens d (.ok d')) (hx : Reaches limit tokens d' x) :
    Reaches limit tokens d x := by
  obtain ⟨m, hm⟩ := h
  obtain ⟨n, hn⟩ := hx
  exact ⟨m + n, by rw [run_add, hm, ← hn]; rfl⟩

theorem error (h : d.step limit tokens = .error (.parse e)) :
    Reaches limit tokens d (.error e) :=
  ⟨1, by rw [run, h]; rfl⟩

theorem bind {α β : Type} {x : Except ParseError α} {f : α → Except ParseError β}
    {g : α → Descent} {k : β → Descent} (h : Reaches limit tokens d (x.map g))
    (hf : ∀ a, x = .ok a → Reaches limit tokens (g a) ((f a).map k)) :
    Reaches limit tokens d ((x >>= f).map k) := by
  cases x with
  | error e => exact h
  | ok a => exact h.trans (hf a rfl)

end Reaches

end Descent

section

open Descent

variable {limit position depth n : Nat} {tokens ts : List Token} {w : List Activation} {c : Call}
  {j : Junction} {p : Part} {x : Except ParseError Descent}

/-- The tree that has been read is returned. -/
def Reading.returned {bound : Nat} (r : Reading Tree bound) (w : List Activation) : Descent :=
  ⟨r.position, r.depth, w, .value r.value⟩

theorem part_level_succ (hn : levels[n]? = some j) : (Call.level (n + 1)).part = operand j := by
  match n, hn with
  | 0, rfl => rfl
  | 1, rfl => rfl
  | 2, rfl => rfl

/-- A level past the last is the unary part. -/
theorem reaches_of_part_unary (hc : c.part = .unary)
    (h : Reaches limit tokens ⟨position, depth, w, .call .unary⟩ x) :
    Reaches limit tokens ⟨position, depth, w, .call c⟩ x := by
  cases c with
  | level n =>
    rw [Call.part] at hc
    split at hc
    · cases hc
    · rename_i hn
      exact h.move (.pastLevels hn)
  | unary => exact h
  | atom => cases hc

theorem exists_level_of_part (hc : c.part = .level j) :
    ∃ n, c = .level n ∧ levels[n]? = some j := by
  cases c with
  | level n =>
    rw [Call.part] at hc
    split at hc
    · rename_i k hn
      cases hc
      exact ⟨n, rfl, hn⟩
    · cases hc
  | unary => cases hc
  | atom => cases hc

theorem eq_atom_of_part (hc : c.part = .atom) : c = .atom := by
  cases c with
  | level n =>
    rw [Call.part] at hc
    split at hc
    · cases hc
    · cases hc
  | unary => cases hc
  | atom => rfl

/-- What has been read stands, wherever it is read from. -/
theorem stands_of_read {r : Reading Tree ts.length} (hd : depth ≤ limit)
    (h : read limit p position depth ts = .ok r) : Stands limit p position depth ts r := by
  have ha : Agrees limit p position depth ts (read limit p position depth ts) := by
    refine (agrees limit).1 p position depth ts hd ?_
    rintro rfl hhead
    obtain ⟨us, rfl⟩ := List.head?_eq_some_iff.1 hhead
    rw [read.eq_7 _ _ _ _ _ (fun _ h => by cases h) (fun h => by cases h)] at h
    cases h
  rw [h] at ha
  exact ha

theorem Stands.drop_eq {r : Reading Tree ts.length} (h : Stands limit p position depth ts r)
    (hts : tokens.drop position = ts) : tokens.drop r.position = r.rest := by
  obtain ⟨us, f, n, hus, hposition, -⟩ := h.derives
  calc tokens.drop r.position = (tokens.drop position).drop us.length := by
        rw [hposition, List.drop_drop]
    _ = (us ++ r.rest).drop us.length := by rw [hts, ← hus]
    _ = r.rest := List.drop_left

theorem getElem?_of_drop (hts : tokens.drop position = ts) : tokens[position]? = ts.head? := by
  rw [← hts, List.head?_drop]

theorem getElem?_ne_of_drop {t : Token} (hts : tokens.drop position = ts)
    (h : ∀ us, ts = t :: us → False) : tokens[position]? ≠ some t := by
  rw [getElem?_of_drop hts]
  intro ht
  obtain ⟨us, hus⟩ := List.head?_eq_some_iff.1 ht
  exact h us hus

theorem drop_succ {t : Token} (hts : tokens.drop position = t :: ts) :
    tokens.drop (position + 1) = ts := by
  rw [← List.tail_drop, hts, List.tail_cons]

/-- A group is left before its closing parenthesis is looked for. -/
theorem reaches_closeGroup {bound : Nat} {inner : Reading Tree bound}
    (hd : inner.depth = depth + 1) (hts : tokens.drop inner.position = inner.rest) :
    Reaches limit tokens (inner.returned (.group :: w))
      ((closeGroup inner).map (·.returned w)) := by
  obtain ⟨t, position, d, rest, shorter⟩ := inner
  obtain rfl : d = depth + 1 := hd
  have ht : tokens[position]? = rest.head? := getElem?_of_drop hts
  cases rest with
  | nil =>
    refine .error ?_
    simp only [Reading.returned, step, resume, leave, bind, Except.bind, ht, List.head?_nil]
  | cons u rest =>
    cases u with
    | rparen => exact .move (.closing ht) (.refl _)
    | lparen | op _ | ident _ =>
      refine .error ?_
      simp only [Reading.returned, step, resume, leave, bind, Except.bind, ht, List.head?_cons]

/-- The descent comes to what `read` makes of the tokens, whatever calls wait. -/
theorem reaches_read (limit : Nat) (tokens : List Token) :
    (∀ p position depth ts, depth ≤ limit → tokens.drop position = ts → ∀ c w, c.part = p →
      Reaches limit tokens ⟨position, depth, w, .call c⟩
        ((read limit p position depth ts).map (·.returned w))) ∧
    ∀ j position depth ts, depth ≤ limit → tokens.drop position = ts →
      ∀ n earlier t w, levels[n]? = some j →
        Reaches limit tokens ⟨position, depth, .level n j earlier :: w, .value t⟩
          ((readMore limit j position depth ts).map fun r =>
            ⟨r.position, r.depth, w, .value (joinRead (.binary j) earlier t r.value)⟩) := by
  refine @read.mutual_induct limit
    (fun p position depth ts => depth ≤ limit → tokens.drop position = ts → ∀ c w, c.part = p →
      Reaches limit tokens ⟨position, depth, w, .call c⟩
        ((read limit p position depth ts).map (·.returned w)))
    (fun j position depth ts => depth ≤ limit → tokens.drop position = ts →
      ∀ n earlier t w, levels[n]? = some j →
        Reaches limit tokens ⟨position, depth, .level n j earlier :: w, .value t⟩
          ((readMore limit j position depth ts).map fun r =>
            ⟨r.position, r.depth, w, .value (joinRead (.binary j) earlier t r.value)⟩))
    ?level ?neg ?negTooDeep ?bare ?nil ?name ?noName ?group ?groupTooDeep ?token ?cons ?other ?done
  case level =>
    intro position depth j ts ih ihs hd hts c w hc
    obtain ⟨n, rfl, hn⟩ := exists_level_of_part hc
    rw [read]
    refine ((ih hd hts _ _ (part_level_succ hn)).move (.level hn)).bind fun first hr => ?_
    have hs := stands_of_read hd hr
    exact (ihs first (hs.depth_eq ▸ hd) (hs.drop_eq hts) n [] first.value w hn).bind
      fun more _ => .refl _
  case neg =>
    intro position depth ts hlt ih hd hts c w hc
    rw [read, if_pos hlt]
    refine reaches_of_part_unary hc (.move (.neg (getElem?_of_drop hts) hlt) ?_)
    refine (ih hlt (drop_succ hts) _ _ rfl).bind fun child hr => ?_
    have hdepth : child.depth = depth + 1 := (stands_of_read hlt hr).depth_eq
    simp only [Reading.returned, hdepth]
    exact .move .negEnd (.refl _)
  case negTooDeep =>
    intro position depth ts hlt _ hts c w hc
    rw [read, if_neg hlt]
    have ht : tokens[position]? = some (.op .not) := getElem?_of_drop hts
    refine reaches_of_part_unary hc (.error ?_)
    simp only [step, call, if_pos ht, enter, if_neg hlt]
  case bare =>
    intro position depth ts hn ih hd hts c w hc
    rw [read.eq_3 _ _ _ _ hn]
    exact reaches_of_part_unary hc
      (.move (.bare (getElem?_ne_of_drop hts hn)) (ih hd hts _ _ rfl))
  case nil =>
    intro position depth _ hts c w hc
    obtain rfl := eq_atom_of_part hc
    rw [read]
    exact .error (by simp only [step, call, getElem?_of_drop hts, List.head?_nil])
  case name =>
    intro position depth name ts hname _ hts c w hc
    obtain rfl := eq_atom_of_part hc
    rw [read, if_pos hname]
    exact .move (.name (getElem?_of_drop hts) hname) (.refl _)
  case noName =>
    intro position depth name ts hname _ hts c w hc
    obtain rfl := eq_atom_of_part hc
    rw [read, if_neg hname]
    exact .error (by simp only [step, call, getElem?_of_drop hts, List.head?_cons, if_neg hname])
  case group =>
    intro position depth ts hlt ih hd hts c w hc
    obtain rfl := eq_atom_of_part hc
    rw [read, if_pos hlt]
    refine .move (.opening (getElem?_of_drop hts) hlt) ?_
    refine (ih hlt (drop_succ hts) _ _ rfl).bind fun inner hr => ?_
    have hs := stands_of_read hlt hr
    exact reaches_closeGroup hs.depth_eq (hs.drop_eq (drop_succ hts))
  case groupTooDeep =>
    intro position depth ts hlt _ hts c w hc
    obtain rfl := eq_atom_of_part hc
    rw [read, if_neg hlt]
    refine .error ?_
    simp only [step, call, getElem?_of_drop hts, List.head?_cons, enter, if_neg hlt]
  case token =>
    intro position depth t ts hi hl _ hts c w hc
    obtain rfl := eq_atom_of_part hc
    rw [read.eq_7 _ _ _ _ _ hi hl]
    refine .error ?_
    simp only [step, call, getElem?_of_drop hts, List.head?_cons]
  case cons =>
    intro position depth j ts ih ihs hd hts n earlier t w hn
    rw [readMore, if_pos rfl]
    refine .move (.joining (getElem?_of_drop hts)) ?_
    refine (ih hd (drop_succ hts) _ _ (part_level_succ hn)).bind fun next hr => ?_
    have hs := stands_of_read hd hr
    refine (ihs next (hs.depth_eq ▸ hd) (hs.drop_eq (drop_succ hts)) n _ next.value w hn).bind
      fun more _ => ?_
    rw [joinRead_snoc]
    exact .refl _
  case other =>
    intro j position depth k ts hk _ hts n earlier t w _
    rw [readMore, if_neg hk]
    refine .move (.levelEnd ?_) (.refl _)
    rw [getElem?_of_drop hts]
    exact fun h => hk (by simpa using h)
  case done =>
    intro j position depth ts hdone _ hts n earlier t w _
    rw [readMore.eq_2 _ _ _ _ _ hdone]
    exact .move (.levelEnd (getElem?_ne_of_drop hts (hdone j))) (.refl _)

end

end Tree

end Propositional
