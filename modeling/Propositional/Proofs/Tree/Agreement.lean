import Propositional.Proofs.Formula.Refusal
import Propositional.Proofs.Tree.Descent

/-!
# Descent and parser agree

Where the descent reads a part, the parser reads the same formula and goes on behind it. Where the
descent stops with an error, the parser stops with it from every state in which the part may begin
(`Refuses`). The two facts are proved together along the calls of the descent (`agrees`), and whole
token lists have the same outcome in both.
-/

namespace Propositional

open Grammar Parsing

namespace Parsing.State

/-- What comes of the tokens from `position` on if they are the last. -/
def outcome (limit : Nat) (s : State) (position : Nat) (ts : List Token) :
    Except ParseError Formula :=
  s.run limit position ts >>= finish

variable {limit position : Nat} {s s' : State} {t : Token} {e : ParseError}

theorem Next.outcome_cons (h : Next limit t s s') (ts : List Token) :
    s.outcome limit position (t :: ts) = s'.outcome limit (position + 1) ts := by
  rw [outcome, h.run_cons, outcome]

theorem Refused.outcome_cons (h : Refused limit position t s e) (ts : List Token) :
    s.outcome limit position (t :: ts) = .error e := by
  rw [outcome, run, h.step_eq]
  rfl

end Parsing.State

namespace Tree

/-- The parser stops with `e` wherever it reads the tokens as a part `p`. -/
def Refuses (limit : Nat) (p : Part) (position depth : Nat) (ts : List Token) (e : ParseError) :
    Prop :=
  ∀ ⦃s : State⦄ ⦃k : Nat⦄, s.focus = .operand k → (∀ j, p = .level j → k = 0) →
    s.pending.Fresh p → s.depth = depth → s.outcome limit position ts = .error e

/-- The same behind an operand. -/
def RefusesMore (limit position depth : Nat) (ts : List Token) (e : ParseError) : Prop :=
  ∀ ⦃s : State⦄ ⦃f : Formula⦄, s.focus = .operator f → s.depth = depth →
    s.outcome limit position ts = .error e

/-- The parser agrees with what the descent makes of a part. -/
def Agrees (limit : Nat) (p : Part) (position depth : Nat) (ts : List Token) :
    Except ParseError (Reading Tree ts.length) → Prop
  | .ok r => Stands limit p position depth ts r
  | .error e => Refuses limit p position depth ts e

def AgreesMore (limit : Nat) (j : Junction) (position depth : Nat) (ts : List Token) :
    Except ParseError (Reading (List Tree) (ts.length + 1)) → Prop
  | .ok r => StandsMore limit j position depth ts r
  | .error e => RefusesMore limit position depth ts e

section

variable {limit position depth : Nat} {p : Part} {j : Junction} {t : Token} {ts : List Token}
  {e : ParseError}

/-- The parser reads what the descent has read and goes on behind it. -/
theorem Stands.outcome {r : Reading Tree ts.length} (h : Stands limit p position depth ts r)
    {s : State} {k : Nat} (hs : s.focus = .operand k) (hk : ∀ j, p = .level j → k = 0)
    (hp : s.pending.Fresh p) (hd : s.depth = depth) :
    ∃ q g, s.outcome limit position ts =
      (State.complete { s with pending := q } k g).outcome limit r.position r.rest := by
  obtain ⟨us, f, n, hts, hposition, hf, hn, -⟩ := h.derives
  obtain ⟨q, g, -, -, hr⟩ := State.reads_of_derives limit hf position k s r.rest hs hk hp (by omega)
  refine ⟨q, g, ?_⟩
  rw [← hts, ← hposition] at hr
  exact congrArg (· >>= State.finish) hr

theorem Refuses.first (h : Refuses limit (operand j) position depth ts e) :
    Refuses limit (.level j) position depth ts e := by
  intro s k hs hk hp hd
  obtain rfl := hk j rfl
  exact h hs (fun _ _ => rfl) hp.operand hd

theorem Refuses.later {first : Reading Tree ts.length}
    (hf : Stands limit (operand j) position depth ts first)
    (h : RefusesMore limit first.position first.depth first.rest e) :
    Refuses limit (.level j) position depth ts e := by
  intro s k hs hk hp hd
  obtain rfl := hk j rfl
  obtain ⟨q, g, ho⟩ := hf.outcome hs (fun _ _ => rfl) hp.operand hd
  rw [ho]
  exact h rfl (hd.trans hf.depth_eq.symm)

theorem Refuses.neg (hd : depth < limit)
    (h : Refuses limit .unary (position + 1) (depth + 1) ts e) :
    Refuses limit .unary position depth (.op .not :: ts) e := by
  intro s k hs _ _ hdepth
  rw [(State.Next.neg hs (hdepth ▸ hd)).outcome_cons]
  exact h rfl nofun trivial (congrArg (· + 1) hdepth)

theorem Refuses.bare (h : Refuses limit .atom position depth ts e) :
    Refuses limit .unary position depth ts e :=
  fun _ _ hs _ _ hd => h hs nofun trivial hd

theorem Refuses.group (hd : depth < limit)
    (h : Refuses limit (.level .implies) (position + 1) (depth + 1) ts e) :
    Refuses limit .atom position depth (.lparen :: ts) e := by
  intro s k hs _ _ hdepth
  rw [(State.Next.opening hs (hdepth ▸ hd)).outcome_cons]
  exact h rfl (fun _ _ => rfl) rfl (congrArg (· + 1) hdepth)

/-- No closing parenthesis follows. -/
theorem Refuses.unclosed (hd : depth < limit) {inner : Reading Tree ts.length}
    (hi : Stands limit (.level .implies) (position + 1) (depth + 1) ts inner)
    (h : closeGroup inner = .error e) : Refuses limit .atom position depth (.lparen :: ts) e := by
  intro s k hs _ _ hdepth
  obtain ⟨q, g, ho⟩ := hi.outcome
    (s := { depth := s.depth + 1, outer := ⟨s.pending, k⟩ :: s.outer, focus := .operand 0 })
    rfl (fun _ _ => rfl) rfl (congrArg (· + 1) hdepth)
  rw [(State.Next.opening hs (hdepth ▸ hd)).outcome_cons, ho]
  have hends := hi.ends
  unfold closeGroup at h
  split at h
  · cases h
  · rename_i hr
    cases h
    exact (State.Refused.inGroup rfl hends.not_binary (List.cons_ne_nil _ _) hr).outcome_cons _
  · cases h
    rfl

theorem Refuses.tooDeep (ht : t = .lparen ∨ t = .op .not) (hd : ¬ depth < limit) :
    Refuses limit p position depth (t :: ts) (.tooDeep position) := by
  intro s k hs _ _ hdepth
  exact (State.Refused.tooDeep hs ht (hdepth ▸ Nat.not_lt.1 hd)).outcome_cons ts

theorem Refuses.nil : Refuses limit p position depth [] (.unexpectedEnd .operand) := by
  intro s k hs _ _ _
  simp only [State.outcome, State.run, State.finish, hs, bind, Except.bind]

theorem RefusesMore.next (h : Refuses limit (operand j) (position + 1) depth ts e) :
    RefusesMore limit position depth (.op (.binary j) :: ts) e := by
  intro s f hs hd
  rw [(State.Next.joining hs j).outcome_cons]
  exact h rfl (fun _ _ => rfl) (s.pending.fresh_add f j) hd

theorem RefusesMore.later {next : Reading Tree ts.length}
    (hn : Stands limit (operand j) (position + 1) depth ts next)
    (h : RefusesMore limit next.position next.depth next.rest e) :
    RefusesMore limit position depth (.op (.binary j) :: ts) e := by
  intro s f hs hd
  obtain ⟨q, g, ho⟩ := hn.outcome
    (s := { s with pending := s.pending.add f j, focus := .operand 0 })
    rfl (fun _ _ => rfl) (s.pending.fresh_add f j) hd
  rw [(State.Next.joining hs j).outcome_cons, ho]
  exact h rfl (hd.trans hn.depth_eq.symm)

theorem Agrees.cases {x : Except ParseError (Reading Tree ts.length)}
    (h : Agrees limit p position depth ts x) :
    (∃ e, x = .error e ∧ Refuses limit p position depth ts e) ∨
      ∃ r, x = .ok r ∧ Stands limit p position depth ts r := by
  cases x with
  | error e => exact .inl ⟨e, rfl, h⟩
  | ok r => exact .inr ⟨r, rfl, h⟩

theorem AgreesMore.cases {x : Except ParseError (Reading (List Tree) (ts.length + 1))}
    (h : AgreesMore limit j position depth ts x) :
    (∃ e, x = .error e ∧ RefusesMore limit position depth ts e) ∨
      ∃ r, x = .ok r ∧ StandsMore limit j position depth ts r := by
  cases x with
  | error e => exact .inl ⟨e, rfl, h⟩
  | ok r => exact .inr ⟨r, rfl, h⟩

theorem agrees_level (h : Agrees limit (operand j) position depth ts
      (read limit (operand j) position depth ts))
    (hs : ∀ first : Reading Tree ts.length, Stands limit (operand j) position depth ts first →
      AgreesMore limit j first.position first.depth first.rest
        (readMore limit j first.position first.depth first.rest)) :
    Agrees limit (.level j) position depth ts (read limit (.level j) position depth ts) := by
  rw [read]
  rcases h.cases with ⟨e, hr, he⟩ | ⟨first, hr, hf⟩
  · rw [hr]
    exact Refuses.first he
  · simp only [hr, bind, Except.bind]
    rcases (hs first hf).cases with ⟨e, hr, he⟩ | ⟨more, hr, hm⟩
    · rw [hr]
      exact Refuses.later hf he
    · rw [hr]
      exact Stands.level hf hm _

theorem agrees_neg (hd : depth < limit) (h : Agrees limit .unary (position + 1) (depth + 1) ts
      (read limit .unary (position + 1) (depth + 1) ts)) :
    Agrees limit .unary position depth (.op .not :: ts)
      (read limit .unary position depth (.op .not :: ts)) := by
  rw [read, if_pos hd]
  rcases h.cases with ⟨e, hr, he⟩ | ⟨child, hr, hc⟩
  · rw [hr]
    exact Refuses.neg hd he
  · rw [hr]
    exact Stands.neg hc _

theorem agrees_bare
    (h : Agrees limit .atom position depth ts (read limit .atom position depth ts)) :
    Agrees limit .unary position depth ts (read limit .atom position depth ts) := by
  rcases h.cases with ⟨e, hr, he⟩ | ⟨r, hr, hs⟩
  · rw [hr]
    exact Refuses.bare he
  · rw [hr]
    exact Stands.bare hs

theorem agrees_group (hd : depth < limit)
    (h : Agrees limit (.level .implies) (position + 1) (depth + 1) ts
      (read limit (.level .implies) (position + 1) (depth + 1) ts)) :
    Agrees limit .atom position depth (.lparen :: ts)
      (read limit .atom position depth (.lparen :: ts)) := by
  rw [read, if_pos hd]
  rcases h.cases with ⟨e, hr, he⟩ | ⟨inner, hr, hi⟩
  · rw [hr]
    exact Refuses.group hd he
  · simp only [hr, bind, Except.bind]
    cases hc : closeGroup inner with
    | error e => exact Refuses.unclosed hd hi hc
    | ok r => exact Stands.group hi hc

theorem agreesMore_cons (h : Agrees limit (operand j) (position + 1) depth ts
      (read limit (operand j) (position + 1) depth ts))
    (hs : ∀ next : Reading Tree ts.length, Stands limit (operand j) (position + 1) depth ts next →
      AgreesMore limit j next.position next.depth next.rest
        (readMore limit j next.position next.depth next.rest)) :
    AgreesMore limit j position depth (.op (.binary j) :: ts)
      (readMore limit j position depth (.op (.binary j) :: ts)) := by
  rw [readMore, if_pos rfl]
  rcases h.cases with ⟨e, hr, he⟩ | ⟨next, hr, hn⟩
  · rw [hr]
    exact RefusesMore.next he
  · simp only [hr, bind, Except.bind]
    rcases (hs next hn).cases with ⟨e, hr, he⟩ | ⟨more, hr, hm⟩
    · rw [hr]
      exact RefusesMore.later hn he
    · rw [hr]
      exact StandsMore.cons hn hm _

theorem refuses_token (hl : t ≠ .lparen) (hi : ∀ name, t ≠ .ident name) (hn : t ≠ .op .not) :
    Refuses limit p position depth (t :: ts) (.unexpectedToken t position) := by
  intro s k hs _ _ _
  refine State.Refused.outcome_cons (.noOperand hs ?_) ts
  match t with
  | .rparen => exact .inl rfl
  | .op (.binary j) => exact .inr ⟨j, rfl⟩
  | .op .not => exact absurd rfl hn
  | .lparen => exact absurd rfl hl
  | .ident name => exact absurd rfl (hi name)

end

/-- Descent and parser agree on every part. An atom is only read where no negation stands. -/
theorem agrees (limit : Nat) :
    (∀ p position depth ts, depth ≤ limit → (p = .atom → ts.head? ≠ some (.op .not)) →
      Agrees limit p position depth ts (read limit p position depth ts)) ∧
    ∀ j position depth ts, depth ≤ limit → Ends (operand j) ts →
      AgreesMore limit j position depth ts (readMore limit j position depth ts) := by
  refine @read.mutual_induct limit
    (fun p position depth ts => depth ≤ limit → (p = .atom → ts.head? ≠ some (.op .not)) →
      Agrees limit p position depth ts (read limit p position depth ts))
    (fun j position depth ts => depth ≤ limit → Ends (operand j) ts →
      AgreesMore limit j position depth ts (readMore limit j position depth ts))
    ?level ?neg ?negTooDeep ?bare ?nil ?name ?noName ?group ?groupTooDeep ?token ?cons ?other ?done
  case level =>
    intro position depth j ts ih ihs hd _
    refine agrees_level (ih hd fun h => by cases j <;> cases h) fun first hf => ?_
    exact ihs first (hf.depth_eq ▸ hd) hf.ends
  case neg =>
    intro position depth ts hlt ih hd _
    exact agrees_neg hlt (ih hlt nofun)
  case negTooDeep =>
    intro position depth ts hlt _ _
    rw [read, if_neg hlt]
    exact Refuses.tooDeep (.inr rfl) hlt
  case bare =>
    intro position depth ts hn ih hd _
    rw [read.eq_3 _ _ _ _ hn]
    refine agrees_bare (ih hd fun _ h => ?_)
    obtain ⟨us, hts⟩ := List.head?_eq_some_iff.1 h
    exact hn us hts
  case nil =>
    intro position depth _ _
    rw [read]
    exact Refuses.nil
  case name =>
    intro position depth name ts hname hd _
    rw [read, if_pos hname]
    exact Stands.name hname hd _
  case noName =>
    intro position depth name ts hname hd _
    rw [read, if_neg hname]
    exact fun s k hs _ _ _ => State.Refused.outcome_cons (.noName hs hname) ts
  case group =>
    intro position depth ts hlt ih hd _
    exact agrees_group hlt (ih hlt nofun)
  case groupTooDeep =>
    intro position depth ts hlt _ _
    rw [read, if_neg hlt]
    exact Refuses.tooDeep (.inl rfl) hlt
  case token =>
    intro position depth t ts hi hl hd hn
    rw [read.eq_7 _ _ _ _ _ hi hl]
    exact refuses_token hl hi fun h => hn rfl (congrArg some h)
  case cons =>
    intro position depth j ts ih ihs hd _
    refine agreesMore_cons (ih hd fun h => by cases j <;> cases h) fun next hn => ?_
    exact ihs next (hn.depth_eq ▸ hd) hn.ends
  case other =>
    intro j position depth k ts hk hd hends
    rw [readMore, if_neg hk]
    exact StandsMore.nil hd (hends.level fun h => hk (by simpa using h)) _
  case done =>
    intro j position depth ts hts hd hends
    rw [readMore.eq_2 _ _ _ _ _ hts]
    refine StandsMore.nil hd (hends.level fun h => ?_) _
    obtain ⟨us, hus⟩ := List.head?_eq_some_iff.1 h
    exact hts j us hus

/-- Where the tokens end behind a formula, it is what they write. -/
theorem Stands.ofTokens_eq {limit : Nat} {ts : List Token} {r : Reading Tree ts.length}
    (h : Stands limit (.level .implies) 0 0 ts r) (hrest : r.rest = []) :
    (Formula.ofTokens ts limit).map Formula.toTree = .ok r.value := by
  obtain ⟨us, f, n, hts, -, hf, hn, hvalue⟩ := h.derives
  rw [hrest, List.append_nil] at hts
  rw [Writes.ofTokens_eq (hts ▸ hf) (by omega), Except.map, hvalue]

/-- Where they go on, the next token is refused. -/
theorem Stands.ofTokens_trailing {limit : Nat} {t : Token} {ts us : List Token}
    {r : Reading Tree ts.length} (h : Stands limit (.level .implies) 0 0 ts r) (hne : ts ≠ [])
    (hrest : r.rest = t :: us) :
    Formula.ofTokens ts limit = .error (.trailingToken t r.position) := by
  obtain ⟨q, g, ho⟩ := h.outcome (s := {}) rfl (fun _ _ => rfl) rfl rfl
  have hends := h.ends
  rw [hrest] at ho hends
  rw [ofTokens_of_ne_nil hne]
  exact ho.trans ((State.Refused.trailing rfl hends.not_binary rfl).outcome_cons us)

/-- The tree of what the parser makes of the tokens, or the same error. -/
theorem ofTokens_eq (ts : List Token) (limit : Nat) :
    ofTokens ts limit = (Formula.ofTokens ts limit).map Formula.toTree := by
  by_cases hne : ts = []
  · subst hne
    rfl
  · have h := (agrees limit).1 (.level .implies) 0 0 ts (Nat.zero_le _) nofun
    rw [ofTokens, if_neg (by simpa using hne)]
    rcases h.cases with ⟨e, hr, he⟩ | ⟨r, hr, hs⟩
    · have ho : State.outcome limit {} 0 ts = .error e := he rfl (fun _ _ => rfl) rfl rfl
      rw [hr, ofTokens_of_ne_nil hne]
      exact (congrArg (Except.map Formula.toTree) ho).symm
    · simp only [hr, bind, Except.bind]
      split
      · rename_i hrest
        exact (hs.ofTokens_eq hrest).symm
      · rename_i hrest
        rw [hs.ofTokens_trailing hne hrest]
        rfl

end Tree

end Propositional
