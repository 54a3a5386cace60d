import Propositional.Formula.Parser

/-!
# Grammar

The grammar of formulas, weakest connective first. A level is a run of operands, each of them a
part of the next tighter level:

    implies := or    ( IMPLIES or )*
    or      := and   ( OR and )*
    and     := unary ( AND unary )*
    unary   := NOT unary | atom
    atom    := name | '(' implies ')'

`Derives p ts f n` says that the tokens `ts` are a part `p` which writes `f`, and that `n` is the
greatest number of their parentheses and negations that are open at once. A level with one operand
writes what the operand does, one with more writes their chain, and parentheses add nothing.
-/

namespace Propositional.Grammar

inductive Part where
  /-- operands joined by `j`, possibly a single one -/
  | level (j : Junction)
  | unary
  | atom
  deriving DecidableEq, Repr

/-- What a connective joins. -/
def operand : Junction → Part
  | .implies => .level .or
  | .or => .level .and
  | .and => .unary

mutual

inductive Derives : Part → List Token → Formula → Nat → Prop where
  | level {j : Junction} {ts us : List Token} {f : Formula} {fs : List Formula} {m n : Nat} :
      Derives (operand j) ts f m → DerivesMore j us fs n →
      Derives (.level j) (ts ++ us) (.join j f fs) (max m n)
  | neg {ts : List Token} {f : Formula} {n : Nat} :
      Derives .unary ts f n → Derives .unary (.op .not :: ts) (.neg f) (n + 1)
  | bare {ts : List Token} {f : Formula} {n : Nat} :
      Derives .atom ts f n → Derives .unary ts f n
  | name (v : Variable) : Derives .atom [.ident v.name] (.atom v) 0
  | group {ts : List Token} {f : Formula} {n : Nat} :
      Derives (.level .implies) ts f n → Derives .atom (.lparen :: (ts ++ [.rparen])) f (n + 1)

/-- The operands of a level after the first, each behind its connective. -/
inductive DerivesMore : Junction → List Token → List Formula → Nat → Prop where
  | nil (j : Junction) : DerivesMore j [] [] 0
  | cons {j : Junction} {ts us : List Token} {f : Formula} {fs : List Formula} {m n : Nat} :
      Derives (operand j) ts f m → DerivesMore j us fs n →
      DerivesMore j (.op (.binary j) :: (ts ++ us)) (f :: fs) (max m n)

end

/-- The tokens write `f` as a whole. -/
abbrev Writes (ts : List Token) (f : Formula) (n : Nat) : Prop := Derives (.level .implies) ts f n

theorem Derives.single {j : Junction} {ts : List Token} {f : Formula} {n : Nat}
    (h : Derives (operand j) ts f n) : Derives (.level j) ts f n := by
  simpa [Formula.join] using h.level (.nil j)

/-- An atom may be an operand of any connective. -/
theorem Derives.operand {ts : List Token} {f : Formula} {n : Nat} (h : Derives .atom ts f n)
    (j : Junction) : Derives (operand j) ts f n := by
  cases j with
  | and => exact h.bare
  | or => exact .single (j := .and) h.bare
  | implies => exact .single (j := .or) (.single (j := .and) h.bare)

/-- Each level alone is a formula. -/
theorem Derives.writes {j : Junction} {ts : List Token} {f : Formula} {n : Nat}
    (h : Derives (.level j) ts f n) : Writes ts f n := by
  cases j with
  | and => exact .single (j := .implies) (.single (j := .or) h)
  | or => exact .single (j := .implies) h
  | implies => exact h

theorem Derives.negate {ts : List Token} {f : Formula} {n : Nat} (h : Derives .unary ts f n)
    (k : Nat) : Derives .unary (List.replicate k (.op .not) ++ ts) (f.negate k) (n + k) := by
  induction k generalizing ts f n with
  | zero => exact h
  | succ k ih =>
    rw [List.replicate_succ', List.append_assoc, show n + (k + 1) = n + 1 + k by omega]
    exact ih h.neg

theorem Derives.ne_nil : ∀ {p : Part} {ts : List Token} {f : Formula} {n : Nat},
    Derives p ts f n → ts ≠ []
  | _, _, _, _, .level h _ => List.append_ne_nil_of_left_ne_nil h.ne_nil _
  | _, _, _, _, .neg _ => List.cons_ne_nil _ _
  | _, _, _, _, .bare h => h.ne_nil
  | _, _, _, _, .name _ => List.cons_ne_nil _ _
  | _, _, _, _, .group _ => List.cons_ne_nil _ _

/-- Whether operands and connectives take turns, starting with an operand if one is due. -/
def alternates : (due : Bool) → List Token → Bool
  | due, [] => !due
  | true, .ident _ :: ts => alternates false ts
  | true, .op .not :: ts => alternates true ts
  | true, .lparen :: ts => alternates true ts
  | true, _ :: _ => false
  | false, .op (.binary _) :: ts => alternates true ts
  | false, .rparen :: ts => alternates false ts
  | false, _ :: _ => false

mutual

theorem Derives.alternates : ∀ {p : Part} {ts : List Token} {f : Formula} {n : Nat},
    Derives p ts f n → ∀ rest, Grammar.alternates true (ts ++ rest) = Grammar.alternates false rest
  | _, _, _, _, .level h hs, rest => by rw [List.append_assoc, h.alternates, hs.alternates]
  | _, _, _, _, .neg h, rest => h.alternates rest
  | _, _, _, _, .bare h, rest => h.alternates rest
  | _, _, _, _, .name _, _ => rfl
  | _, _, _, _, .group h, rest => by
    rw [List.cons_append, List.append_assoc, Grammar.alternates, h.alternates]
    rfl

theorem DerivesMore.alternates : ∀ {j : Junction} {ts : List Token} {fs : List Formula} {n : Nat},
    DerivesMore j ts fs n → ∀ rest,
      Grammar.alternates false (ts ++ rest) = Grammar.alternates false rest
  | _, _, _, _, .nil _, _ => rfl
  | _, _, _, _, .cons h hs, rest => by
    rw [List.cons_append, List.append_assoc, Grammar.alternates, h.alternates, hs.alternates]

end

/-- Whatever is written is written with operands and connectives in turn. -/
theorem Writes.alternates {ts : List Token} {f : Formula} {n : Nat} (h : Writes ts f n) :
    Grammar.alternates true ts = true := by
  have ha := Derives.alternates h []
  rwa [List.append_nil] at ha

mutual

/-- The variables of what is written stand among the tokens. -/
theorem Derives.ident_mem : ∀ {p : Part} {ts : List Token} {f : Formula} {n : Nat},
    Derives p ts f n → ∀ v ∈ f.leaves, Token.ident v.name ∈ ts
  | _, _, _, _, .level h hs, v, hv => by
    rcases Formula.mem_leaves_join.1 hv with hv | ⟨g, hg, hv⟩
    · exact List.mem_append_left _ (h.ident_mem v hv)
    · exact List.mem_append_right _ (hs.ident_mem g hg v hv)
  | _, _, _, _, .neg h, v, hv => List.mem_cons_of_mem _ (h.ident_mem v hv)
  | _, _, _, _, .bare h, v, hv => h.ident_mem v hv
  | _, _, _, _, .name w, v, hv => by
    obtain rfl := List.mem_singleton.1 hv
    exact List.mem_cons_self
  | _, _, _, _, .group h, v, hv =>
    List.mem_cons_of_mem _ (List.mem_append_left _ (h.ident_mem v hv))

theorem DerivesMore.ident_mem : ∀ {j : Junction} {ts : List Token} {fs : List Formula} {n : Nat},
    DerivesMore j ts fs n → ∀ f ∈ fs, ∀ v ∈ f.leaves, Token.ident v.name ∈ ts
  | _, _, _, _, .nil _ => nofun
  | _, _, _, _, .cons h hs => List.forall_mem_cons.2
    ⟨fun v hv => List.mem_cons_of_mem _ (List.mem_append_left _ (h.ident_mem v hv)),
      fun f hf v hv => List.mem_cons_of_mem _ (List.mem_append_right _ (hs.ident_mem f hf v hv))⟩

end

end Propositional.Grammar
