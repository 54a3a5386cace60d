import Propositional.Formula.Printer
import Propositional.Proofs.Formula.Grammar
import Propositional.Proofs.Token.Lexer

/-!
# The printed form

The tokens of a formula are derived as an atom that writes it, with `nesting` levels open at once.
Reading their text gives the same tokens, except that a variable spelled like a connective
(`IsReserved`) comes back as that connective. Then operands and connectives no longer take turns,
and the tokens write nothing.
-/

namespace Propositional

open Text

namespace Variable

/-- The name is the word of a connective, in any letter case. -/
def IsReserved (v : Variable) : Prop :=
  ∃ c ∈ Connective.all, v.name.toList.map Char.toUpper = c.word.toList

instance (v : Variable) : Decidable v.IsReserved :=
  inferInstanceAs (Decidable (∃ c ∈ Connective.all, _))

end Variable

namespace Connective

theorem not_isWord_symbol (c : Connective) :
    c.symbol.toList.all isWord = false ∧ c.altSymbol.toList.all isWord = false := by
  cases c with
  | not => decide
  | binary j => cases j <;> decide

/-- A name is no symbol. -/
theorem spelled_name (c : Connective) (v : Variable) :
    c.spelled v.name.toList = true ↔ v.name.toList.map Char.toUpper = c.word.toList := by
  obtain ⟨hsym, halt⟩ := c.not_isWord_symbol
  have hname := List.all_eq_true.2 v.isName.2
  have hs : v.name.toList ≠ c.symbol.toList := fun h => by simp [← h, hname] at hsym
  have ha : v.name.toList ≠ c.altSymbol.toList := fun h => by simp [← h, hname] at halt
  simp [spelled, hs, ha]

theorem ofLetters?_name_eq_none_iff (v : Variable) :
    ofLetters? v.name.toList = none ↔ ¬ v.IsReserved := by
  simp [ofLetters?, spelled_name, Variable.IsReserved]

end Connective

namespace Token

theorem reread_of_not_isReserved {v : Variable} (h : ¬ v.IsReserved) :
    (ident v.name).reread = ident v.name := by
  simp [reread, ofWord, (Connective.ofLetters?_name_eq_none_iff v).2 h]

theorem reread_of_isReserved {v : Variable} (h : v.IsReserved) :
    ∃ c, (ident v.name).reread = op c := by
  cases hc : Connective.ofLetters? v.name.toList with
  | none => exact absurd h ((Connective.ofLetters?_name_eq_none_iff v).1 hc)
  | some c => exact ⟨c, by simp [reread, ofWord, hc]⟩

end Token

namespace Formula

/-- The greatest number of parentheses and negations of the printed form that are open at once. -/
def nesting : Formula → Nat :=
  fold (fun _ => 0) (fun n => 2 + n) fun _ m n rest => 1 + (m :: n :: rest).foldr max 0

@[simp] theorem nesting_atom (v : Variable) : (atom v).nesting = 0 := rfl

@[simp] theorem nesting_neg (f : Formula) : (neg f).nesting = 2 + f.nesting := rfl

@[simp] theorem nesting_chain (j : Junction) (f g : Formula) (rest : List Formula) :
    (chain j f g rest).nesting = 1 + ((f :: g :: rest).map nesting).foldr max 0 := by
  simp [nesting, fold, foldAll_eq_map]

theorem nesting_negate (count : Nat) (f : Formula) :
    (negate count f).nesting = 2 * count + f.nesting := by
  induction count generalizing f with
  | zero => simp [negate]
  | succ count ih =>
    rw [negate, ih, nesting_neg]
    omega

/-- No variable is spelled like a connective. -/
def Unreserved (f : Formula) : Prop := ∀ v ∈ f.leaves, ¬ v.IsReserved

theorem unreserved_chain {j : Junction} {f g : Formula} {rest : List Formula}
    (h : ∀ e ∈ f :: g :: rest, e.Unreserved) : (chain j f g rest).Unreserved := by
  intro v hv
  rw [leaves_chain] at hv
  obtain ⟨e, he, hv⟩ := List.mem_flatMap.1 hv
  exact h e he v hv

/-- The tokens of the operands of a chain after the first. -/
def tailTokens (j : Junction) (fs : List Formula) : List Token :=
  fs.flatMap fun h => .op (.binary j) :: h.tokens

theorem tokens_chain_eq (j : Junction) (f g : Formula) (rest : List Formula) :
    (chain j f g rest).tokens =
      .lparen :: (f.tokens ++ tailTokens j (g :: rest) ++ [.rparen]) :=
  tokens_chain j f g rest

section

open Grammar

theorem derivesMore_tailTokens {j : Junction} {fs : List Formula}
    (h : ∀ f ∈ fs, Derives .atom f.tokens f f.nesting) :
    DerivesMore j (tailTokens j fs) fs ((fs.map nesting).foldr max 0) := by
  induction fs with
  | nil => exact .nil j
  | cons f fs ih =>
    exact .cons ((h f List.mem_cons_self).operand j) (ih fun g hg => h g (List.mem_cons_of_mem f hg))

/-- The printed form writes the formula. -/
theorem derives_tokens (f : Formula) : Derives .atom f.tokens f f.nesting := by
  induction f with
  | atom v => exact .name v
  | neg f ih =>
    have h : Writes (.op .not :: f.tokens) (neg f) (f.nesting + 1) :=
      (Derives.single (j := .and) ih.bare.neg).writes
    rw [tokens_neg, nesting_neg, Nat.add_comm]
    exact h.group
  | chain j f g rest hf hg hr =>
    have hs : ∀ h ∈ g :: rest, Derives .atom h.tokens h h.nesting :=
      List.forall_mem_cons.2 ⟨hg, hr⟩
    have h := ((hf.operand j).level (derivesMore_tailTokens hs)).writes
    rw [tokens_chain_eq, nesting_chain, Nat.add_comm]
    exact h.group

end

theorem writes_tokens (f : Formula) : Grammar.Writes f.tokens f f.nesting :=
  (f.derives_tokens.operand .implies).single

theorem ident_mem_tailTokens {j : Junction} {fs : List Formula} {name : String}
    (h : .ident name ∈ tailTokens j fs) : ∃ f ∈ fs, .ident name ∈ f.tokens := by
  obtain ⟨f, hf, hm⟩ := List.mem_flatMap.1 h
  rcases List.mem_cons.1 hm with hm | hm
  · cases hm
  · exact ⟨f, hf, hm⟩

/-- The identifiers of the printed form are the variables. -/
theorem ident_mem_tokens {f : Formula} {name : String} (h : .ident name ∈ f.tokens) :
    ∃ v ∈ f.leaves, v.name = name := by
  induction f with
  | atom v =>
    rw [tokens_atom, List.mem_singleton] at h
    cases h
    exact ⟨v, List.mem_singleton_self v, rfl⟩
  | neg f ih =>
    rw [tokens_neg] at h
    exact ih (by simpa using h)
  | chain j f g rest hf hg hr =>
    have hs : ∀ h ∈ f :: g :: rest, .ident name ∈ h.tokens → ∃ v ∈ h.leaves, v.name = name :=
      List.forall_mem_cons.2 ⟨hf, List.forall_mem_cons.2 ⟨hg, hr⟩⟩
    have hm : ∃ h ∈ f :: g :: rest, .ident name ∈ h.tokens := by
      rw [tokens_chain_eq] at h
      rcases (by simpa using h : _ ∨ _) with h | h
      · exact ⟨f, List.mem_cons_self, h⟩
      · obtain ⟨e, he, hm⟩ := ident_mem_tailTokens h
        exact ⟨e, List.mem_cons_of_mem f he, hm⟩
    obtain ⟨h, hh, hm⟩ := hm
    obtain ⟨v, hv, hn⟩ := hs h hh hm
    exact ⟨v, by rw [leaves_chain]; exact List.mem_flatMap.2 ⟨h, hh, hv⟩, hn⟩

theorem named_tokens (f : Formula) : Token.Named f.tokens := by
  intro name h
  obtain ⟨v, -, rfl⟩ := ident_mem_tokens h
  exact v.isName

theorem tokenize_text (f : Formula) : Token.tokenize f.text = f.tokens.map Token.reread :=
  Token.tokenize_line f.named_tokens

/-- Without reserved names the printed form is read as it was written. -/
theorem Unreserved.tokenize_text {f : Formula} (h : f.Unreserved) :
    Token.tokenize f.text = f.tokens := by
  rw [Formula.tokenize_text]
  refine (List.map_congr_left fun t ht => ?_).trans (List.map_id _)
  cases t with
  | ident name =>
    obtain ⟨v, hv, rfl⟩ := ident_mem_tokens ht
    exact Token.reread_of_not_isReserved (h v hv)
  | lparen | rparen | op c => rfl

section

open Grammar Token

/-- If operands and connectives take turns in the printed form and on, and behind it no operand may
begin, then the printed form has no reserved names and it counts as an operand. -/
def TakesTurns (f : Formula) : Prop :=
  ∀ rest, alternates true rest = false → alternates true (f.tokens.map reread ++ rest) = true →
    f.Unreserved ∧ alternates false rest = true

theorem takesTurns_tail {j : Junction} {fs : List Formula} (hs : ∀ f ∈ fs, f.TakesTurns)
    {rest : List Token} (hr : alternates true rest = false)
    (h : alternates false ((tailTokens j fs).map reread ++ rest) = true) :
    (∀ f ∈ fs, f.Unreserved) ∧ alternates false rest = true := by
  induction fs with
  | nil => exact ⟨nofun, h⟩
  | cons f fs ih =>
    obtain ⟨hf, hs⟩ := List.forall_mem_cons.1 hs
    have hr' : alternates true ((tailTokens j fs).map reread ++ rest) = false := by
      cases fs with
      | nil => exact hr
      | cons g fs => rfl
    have h' : alternates true (f.tokens.map reread ++ ((tailTokens j fs).map reread ++ rest)) =
        true := by
      rw [← List.append_assoc, ← List.map_append]
      exact h
    obtain ⟨hu, hn⟩ := hf _ hr' h'
    obtain ⟨hus, hn⟩ := ih hs hn
    exact ⟨List.forall_mem_cons.2 ⟨hu, hus⟩, hn⟩

theorem takesTurns (f : Formula) : f.TakesTurns := by
  induction f with
  | atom v =>
    intro rest hr h
    by_cases hv : v.IsReserved
    · obtain ⟨c, hc⟩ := reread_of_isReserved hv
      have h' : alternates true (op c :: rest) = true := by
        rw [← hc]
        exact h
      cases c with
      | not => exact absurd h' (by simpa [alternates] using hr)
      | binary j => cases h'
    · have h' : alternates true (ident v.name :: rest) = true := by
        rw [← reread_of_not_isReserved hv]
        exact h
      exact ⟨by simpa [Unreserved] using hv, h'⟩
  | neg f ih =>
    intro rest hr h
    rw [tokens_neg] at h
    exact ih (rparen :: rest) rfl (by simpa [alternates, reread] using h)
  | chain j f g rest' hf hg hs =>
    intro rest hr h
    have h' : alternates true (f.tokens.map reread ++
        ((tailTokens j (g :: rest')).map reread ++ rparen :: rest)) = true := by
      rw [tokens_chain_eq] at h
      simpa [alternates, reread] using h
    obtain ⟨hu, hn⟩ := hf _ rfl h'
    obtain ⟨hus, hn⟩ := takesTurns_tail (List.forall_mem_cons.2 ⟨hg, hs⟩) rfl hn
    exact ⟨unreserved_chain (List.forall_mem_cons.2 ⟨hu, hus⟩), hn⟩

end

/-- A printed formula writes something only if it has no reserved names. -/
theorem unreserved_of_writes {f g : Formula} {n : Nat}
    (h : Grammar.Writes (f.tokens.map Token.reread) g n) : f.Unreserved :=
  (f.takesTurns [] rfl (by simpa using h.alternates)).1

end Formula

end Propositional
