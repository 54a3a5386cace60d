import Propositional.Proofs.Formula.OpenLevels
import Propositional.Proofs.Tree.Activation

/-!
# Levels open during the descent

Between two steps the depth of the descent counts the levels that waiting calls have entered and not
left. The tokens read so far say which these are, but for the negations that end where a tree is
returned: they are left one after the other (`exists_opened_eq`). `Between` is the invariant. It
holds where a call is made and each step keeps it, so no level is left where none is open. The
parser, which reads one token after the other, goes along (`Followed`).
-/

namespace Propositional

open Grammar Parsing

namespace Tree

def Activation.opening? : Activation → Option Token
  | .level _ _ _ => none
  | .negation => some (.op .not)
  | .group => some .lparen

/-- The tokens that opened the levels which waiting calls have entered and not left. -/
def opened (w : List Activation) : List Token := w.filterMap Activation.opening?

def Turn.isCall : Turn → Bool
  | .call _ => true
  | .value _ => false

namespace Descent

/-- What the tokens have open: a tree that is returned ends the negations that wait for it. -/
def goingOn (d : Descent) : List Token :=
  match d.turn with
  | .call _ => opened d.waiting
  | .value _ => behindOperand (opened d.waiting)

/-- No negation waits for a level, so the operands of a level end none. -/
def Nested : List Activation → Prop
  | [] => True
  | .level _ _ _ :: w => behindOperand (opened w) = opened w ∧ Nested w
  | .negation :: w | .group :: w => Nested w

/-- The parser has read the tokens from `start` up to `q`. These opened the levels it is in, and an
operand is due or not. -/
def Followed (limit start base : Nat) (tokens : List Token) (q : Nat) (us : List Token)
    (due : Bool) : Prop :=
  ∃ s : State, State.run limit { depth := base } start (tokens.extract start q) = .ok s ∧
    s.opened = us ∧ s.focus.isOperand = due

/-- What holds between two steps of a descent that begins at the token `start`, `base` levels
deep. -/
structure Between (limit start base : Nat) (tokens : List Token) (d : Descent) : Prop where
  start_le : start ≤ d.position
  le_length : d.position ≤ tokens.length
  depth_le : d.depth ≤ limit
  depth_eq : d.depth = base + (opened d.waiting).length
  followed : Followed limit start base tokens d.position d.goingOn d.turn.isCall
  nested : Nested d.waiting
  /-- nor is a level called for behind a negation -/
  level : ∀ n, d.turn = .call (.level n) → behindOperand (opened d.waiting) = opened d.waiting

section

variable {limit start base q : Nat} {tokens : List Token} {t : Token} {us : List Token}
  {due due' : Bool} {d d' : Descent}

theorem lt_length (ht : tokens[q]? = some t) : q < tokens.length :=
  (List.getElem?_eq_some_iff.1 ht).1

theorem extract_succ (hs : start ≤ q) (ht : tokens[q]? = some t) :
    tokens.extract start (q + 1) = tokens.extract start q ++ [t] := by
  have hget : (tokens.drop start)[q - start]? = some t := by
    rw [List.getElem?_drop, Nat.add_sub_cancel' hs, ht]
  rw [List.extract, List.extract, Nat.succ_sub hs, List.take_add_one, hget]
  rfl

/-- The waiting calls have entered what the tokens have open, and on the way back the negations that
end here. -/
theorem exists_opened_eq (d : Descent) :
    ∃ k, Tree.opened d.waiting = List.replicate k (.op .not) ++ d.goingOn ∧
      (d.turn.isCall → k = 0) := by
  obtain ⟨p, depth, w, turn⟩ := d
  cases turn with
  | call c => exact ⟨0, rfl, fun _ => rfl⟩
  | value t =>
    obtain ⟨k, hk⟩ := exists_eq_replicate_append (Tree.opened w)
    exact ⟨k, hk, nofun⟩

theorem Followed.exists_run (h : Followed limit start base tokens q us due) :
    us = (tokens.extract start q).foldl openBehind [] ∧
      ∃ s, State.run limit { depth := base } start (tokens.extract start q) = .ok s ∧
        s.opened = us ∧ s.focus.isOperand = due ∧ s.depth = base + us.length := by
  obtain ⟨s, hr, rfl, hf⟩ := h
  obtain ⟨ho, hd⟩ := State.opened_of_run hr (show base = base + 0 from rfl)
  exact ⟨ho, s, hr, rfl, hf, hd⟩

/-- The parser reads one more token if it can from every such state. -/
theorem Followed.next (h : Followed limit start base tokens q us due) (hs : start ≤ q)
    (ht : tokens[q]? = some t)
    (hn : ∀ s : State, s.opened = us → s.focus.isOperand = due → s.depth = base + us.length →
      ∃ s', State.Next limit t s s' ∧ s'.focus.isOperand = due') :
    Followed limit start base tokens (q + 1) (openBehind us t) due' := by
  obtain ⟨-, s, hr, ho, hf, hd⟩ := h.exists_run
  obtain ⟨s', hn, hf'⟩ := hn s ho hf hd
  refine ⟨s', ?_, by rw [hn.opened_eq, ho], hf'⟩
  rw [extract_succ hs ht, State.run_append, hr]
  exact hn.run_cons []

theorem between_start (hs : start ≤ tokens.length) (hb : base ≤ limit) (c : Call) :
    Between limit start base tokens { position := start, depth := base, turn := .call c } where
  start_le := Nat.le_refl start
  le_length := hs
  depth_le := hb
  depth_eq := rfl
  followed := ⟨{ depth := base }, by rw [List.extract, Nat.sub_self]; rfl, rfl, rfl⟩
  nested := trivial
  level _ _ := rfl

theorem Between.move (h : Between limit start base tokens d) (hm : Move limit tokens d d') :
    Between limit start base tokens d' := by
  have ⟨hstart, hlen, hle, hdepth, hfollowed, hnested, hlevel⟩ := h
  cases hm with
  | level hn =>
    have hl := hlevel _ rfl
    exact ⟨hstart, hlen, hle, hdepth, hfollowed, ⟨hl, hnested⟩, fun _ _ => hl⟩
  | pastLevels hn => exact ⟨hstart, hlen, hle, hdepth, hfollowed, hnested, nofun⟩
  | neg ht hd =>
    refine ⟨Nat.le_succ_of_le hstart, lt_length ht, hd, congrArg (· + 1) hdepth, ?_, hnested, nofun⟩
    exact hfollowed.next hstart ht fun s _ hf hs => State.exists_neg hf (hs.trans hdepth.symm ▸ hd)
  | bare ht => exact ⟨hstart, hlen, hle, hdepth, hfollowed, hnested, nofun⟩
  | name ht hn =>
    refine ⟨Nat.le_succ_of_le hstart, lt_length ht, hle, hdepth, ?_, hnested, nofun⟩
    exact hfollowed.next hstart ht fun s _ hf _ => State.exists_name hf hn
  | opening ht hd =>
    refine ⟨Nat.le_succ_of_le hstart, lt_length ht, hd, congrArg (· + 1) hdepth, ?_, hnested,
      fun _ _ => rfl⟩
    exact hfollowed.next hstart ht fun s _ hf hs =>
      State.exists_opening hf (hs.trans hdepth.symm ▸ hd)
  | @joining p _ _ w j _ _ ht =>
    -- the operand ended no negation of the level, so the same levels are open behind its connective
    have hw : behindOperand (Tree.opened w) = Tree.opened w := hnested.1
    have hf : Followed limit start base tokens (p + 1) (behindOperand (Tree.opened w)) true :=
      hfollowed.next hstart ht fun s _ hf _ => State.exists_joining hf j
    rw [hw] at hf
    exact ⟨Nat.le_succ_of_le hstart, lt_length ht, hle, hdepth, hf, hnested, fun _ _ => hw⟩
  | levelEnd ht => exact ⟨hstart, hlen, hle, hdepth, hfollowed, hnested.2, nofun⟩
  | negEnd =>
    -- the tokens had ended this negation already, so the parser stays where it is
    exact ⟨hstart, hlen, Nat.le_of_succ_le hle, Nat.succ.inj hdepth, hfollowed, hnested, nofun⟩
  | closing ht =>
    refine ⟨Nat.le_succ_of_le hstart, lt_length ht, Nat.le_of_succ_le hle, Nat.succ.inj hdepth, ?_,
      hnested, nofun⟩
    exact hfollowed.next hstart ht fun s ho hf _ => State.exists_closing hf ho
  | atEnd => exact h

theorem call_ne_underflow (d : Descent) (c : Call) :
    d.call limit tokens c ≠ .error .underflow := by
  intro h
  cases c with
  | level n =>
    rw [call] at h
    split at h <;> cases h
  | unary =>
    rw [call, enter] at h
    split at h
    · split at h <;> cases h
    · cases h
  | atom =>
    rw [call, enter] at h
    split at h
    · cases h
    · split at h <;> cases h
    · split at h <;> cases h
    · cases h

/-- A level is left only where one is open. -/
theorem Between.step_ne_underflow (h : Between limit start base tokens d) :
    d.step limit tokens ≠ .error .underflow := by
  intro hs
  obtain ⟨p, depth, w, turn⟩ := d
  have hdepth : depth = base + (Tree.opened w).length := h.depth_eq
  cases turn with
  | call c => exact call_ne_underflow _ c hs
  | value t =>
    cases w with
    | nil => cases hs
    | cons a w =>
      cases a with
      | level n j earlier =>
        simp only [step, resume] at hs
        split at hs <;> cases hs
      | negation =>
        obtain ⟨m, rfl⟩ : ∃ m, depth = m + 1 := ⟨_, hdepth⟩
        cases hs
      | group =>
        obtain ⟨m, rfl⟩ : ∃ m, depth = m + 1 := ⟨_, hdepth⟩
        simp only [step, resume, leave, bind, Except.bind] at hs
        split at hs <;> cases hs

/-- What holds at the start holds after any number of steps, unless the tokens are refused. -/
theorem Between.run (h : Between limit start base tokens d) (n : Nat) :
    (∃ d', d.run limit tokens n = .ok d' ∧ Between limit start base tokens d') ∨
      ∃ e, d.run limit tokens n = .error (.parse e) := by
  induction n generalizing d with
  | zero => exact .inl ⟨d, rfl, h⟩
  | succ n ih =>
    rw [Descent.run]
    cases hs : d.step limit tokens with
    | error e =>
      cases e with
      | parse e => exact .inr ⟨e, rfl⟩
      | underflow => exact absurd hs h.step_ne_underflow
    | ok d₁ => exact ih (h.move (step_eq_ok_iff.1 hs))

theorem Between.of_run {n : Nat} (h : Between limit start base tokens d)
    (hr : d.run limit tokens n = .ok d') : Between limit start base tokens d' := by
  rcases h.run n with ⟨d₁, hr', hd⟩ | ⟨e, he⟩
  · cases hr'.symm.trans hr
    exact hd
  · cases he.symm.trans hr

/-- Where a tree is returned and no call waits, nothing happens any more. -/
theorem run_returned (p depth : Nat) (t : Tree) (n : Nat) :
    Descent.run limit tokens n ⟨p, depth, [], .value t⟩ = .ok ⟨p, depth, [], .value t⟩ := by
  induction n with
  | zero => rfl
  | succ n ih => exact ih

/-- A descent comes to one result. -/
theorem Reaches.eq_returned {bound n p depth : Nat} {t : Tree}
    {x : Except ParseError (Reading Tree bound)}
    (h : Reaches limit tokens d (x.map (·.returned [])))
    (hr : d.run limit tokens n = .ok ⟨p, depth, [], .value t⟩) :
    ∃ r, x = .ok r ∧ r.position = p ∧ r.depth = depth ∧ r.value = t := by
  obtain ⟨m, hm⟩ := h
  have hsum : d.run limit tokens n >>= Descent.run limit tokens m =
      d.run limit tokens m >>= Descent.run limit tokens n := by
    rw [← run_add, ← run_add, Nat.add_comm]
  rw [hr, hm] at hsum
  have hend := (run_returned p depth t m).symm.trans hsum
  cases x with
  | error e => cases hend
  | ok r =>
    have hsame : (⟨p, depth, [], .value t⟩ : Descent) = ⟨r.position, r.depth, [], .value r.value⟩ :=
      Except.ok.inj (hend.trans (run_returned r.position r.depth r.value n))
    cases hsame
    exact ⟨r, rfl, rfl, rfl, rfl⟩

end

end Descent

open Descent

variable {limit position depth : Nat} {tokens : List Token} {p : Part} {j : Junction}

theorem goesOn_part {m l : Nat} (h : m ≤ l) (hl : levels[l]? = some j) :
    GoesOn (Call.level m).part j := by
  match l, hl, m, h with
  | 0, rfl, 0, _ => trivial
  | 1, rfl, 0, _ => trivial
  | 1, rfl, 1, _ =>
    show Junction.or ≠ .implies
    decide
  | 2, rfl, 0, _ => trivial
  | 2, rfl, 1, _ =>
    show Junction.and ≠ .implies
    decide
  | 2, rfl, 2, _ => rfl

theorem Stands.position_lt {ts : List Token} {r : Reading Tree ts.length}
    (h : Stands limit p position depth ts r) : position < r.position := by
  obtain ⟨us, f, n, -, hposition, hf, -⟩ := h.derives
  rw [hposition]
  exact Nat.lt_add_of_pos_right (List.length_pos_of_ne_nil hf.ne_nil)

/-- Whatever is called for, wherever and by whom, the call ends with what `read` makes of the
tokens. A tree is returned at the depth of the call, behind a token at least, and no connective
follows that the level or a tighter one goes on with. On the way no level is left that is not open,
and the depth stays within the limit. It counts the levels that have been entered and not left:
those that the tokens have open and, while a tree is returned, the negations that end with it. The
parser is as deep between the same tokens, but for these. -/
theorem call_ends_at_depth (limit : Nat) (tokens : List Token) (c : Call) {position depth : Nat}
    (hp : position ≤ tokens.length) (hd : depth ≤ limit) :
    let start : Descent := { position, depth, turn := .call c }
    (∀ w, ∃ n, Descent.run limit tokens n ⟨position, depth, w, .call c⟩ =
        ((read limit c.part position depth (tokens.drop position)).map (·.returned w)).mapError
          .parse) ∧
      (∀ n position' depth' t, start.run limit tokens n = .ok ⟨position', depth', [], .value t⟩ →
        depth' = depth ∧ position < position' ∧ position' ≤ tokens.length ∧
          ∀ m l j, c = .level m → m ≤ l → levels[l]? = some j →
            tokens[position']? ≠ some (.op (.binary j))) ∧
      (∀ n, start.run limit tokens n ≠ .error .underflow) ∧
      ∀ n d, start.run limit tokens n = .ok d →
        position ≤ d.position ∧ d.position ≤ tokens.length ∧
          d.depth ≤ limit ∧ d.depth = depth + (opened d.waiting).length ∧
          ∃ k s, opened d.waiting = List.replicate k (.op .not) ++
              (tokens.extract position d.position).foldl openBehind [] ∧
            (d.turn.isCall → k = 0) ∧
            Parsing.State.run limit { depth } position (tokens.extract position d.position) =
              .ok s ∧ d.depth = s.depth + k := by
  intro start
  have hstart := between_start hp hd c
  have hread (w : List Activation) : Reaches limit tokens ⟨position, depth, w, .call c⟩ _ :=
    (reaches_read limit tokens).1 _ position depth _ hd rfl c w rfl
  refine ⟨hread, fun n position' depth' t hr => ?_, fun n hr => ?_, fun n d hr => ?_⟩
  · obtain ⟨r, hr', rfl, rfl, -⟩ := (hread []).eq_returned hr
    have hs := stands_of_read hd hr'
    refine ⟨hs.depth_eq, hs.position_lt, (hstart.of_run hr).le_length, ?_⟩
    rintro m l j rfl hml hj
    rw [getElem?_of_drop (hs.drop_eq rfl)]
    exact hs.ends j (goesOn_part hml hj)
  · rcases hstart.run n with ⟨d, hd, -⟩ | ⟨e, he⟩
    · cases hd.symm.trans hr
    · cases he.symm.trans hr
  · have hb := hstart.of_run hr
    obtain ⟨hopen, s, hs, -, -, hdepth⟩ := hb.followed.exists_run
    obtain ⟨k, hk, hcall⟩ := d.exists_opened_eq
    refine ⟨hb.start_le, hb.le_length, hb.depth_le, hb.depth_eq, k, s, hopen ▸ hk, hcall, hs, ?_⟩
    rw [hb.depth_eq, hk, List.length_append, List.length_replicate, hdepth]
    omega

/-- The disjunction behind the parenthesis of `( NOT ( P OR NOT Q ) AND R IMPLIES P )` ends before
the implication. Where `Q` is due, three levels more are open than at its start. -/
theorem call_ends_at_depth_of_disjunction :
    let tokens : List Token := [.lparen, .op .not, .lparen, .ident "P", .op (.binary .or), .op .not,
      .ident "Q", .rparen, .op (.binary .and), .ident "R", .op (.binary .implies), .ident "P",
      .rparen]
    let start : Descent := { position := 1, depth := 1, turn := .call (.level 1) }
    1 ≤ tokens.length ∧ 1 ≤ 4 ∧
      (∃ d t, start.run 4 tokens 31 = .ok ⟨10, d, [], .value t⟩ ∧ d = 1 ∧
        tokens[10]? ≠ some (.op (.binary .or)) ∧ tokens[10]? ≠ some (.op (.binary .and))) ∧
      ∃ d, start.run 4 tokens 18 = .ok d ∧ d.turn = .call .atom ∧ d.depth ≤ 4 ∧
        d.depth = 1 + [Token.op .not, .lparen, .op .not].length := by
  intro tokens start
  obtain ⟨-, hok, -, hbetween⟩ := call_ends_at_depth 4 tokens (.level 1)
    (show 1 ≤ tokens.length by decide) (show 1 ≤ 4 by decide)
  obtain ⟨hdepth, -, -, hnext⟩ := hok 31 10 1 _ rfl
  obtain ⟨-, -, hle, heq, -⟩ := hbetween 18 _ rfl
  exact ⟨by decide, by decide, ⟨1, _, rfl, hdepth, hnext 1 1 .or rfl (by decide) rfl,
    hnext 1 2 .and rfl (by decide) rfl⟩, _, rfl, rfl, hle, heq⟩

end Tree

end Propositional
