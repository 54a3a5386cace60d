import Propositional.Formula.Basic
import Propositional.Token.Basic

/-!
# Printer

A formula is printed with parentheses around every negation and every chain, one space between any
two tokens: `( NOT ( A OR B ) )`. Nothing is left to precedence, so the tokens determine the tree.
-/

namespace Propositional.Formula

/-- Writes the tokens of a formula in front of `after`. -/
def write : Formula → List Token → List Token :=
  fold
    (fun v after => .ident v.name :: after)
    (fun w after => .lparen :: .op .not :: w (.rparen :: after))
    (fun j w₁ w₂ rest after =>
      .lparen :: w₁ (.op (.binary j) :: w₂
        (rest.foldr (fun w after => .op (.binary j) :: w after) (.rparen :: after))))

/-- The tokens of the printed form. -/
def tokens (f : Formula) : List Token := f.write []

/-- The printed form. -/
def text (f : Formula) : String := Token.line f.tokens

instance : ToString Formula := ⟨text⟩

@[simp] theorem write_atom (v : Variable) (after : List Token) :
    (atom v).write after = .ident v.name :: after := rfl

@[simp] theorem write_neg (f : Formula) (after : List Token) :
    (neg f).write after = .lparen :: .op .not :: f.write (.rparen :: after) := rfl

@[simp] theorem write_chain (j : Junction) (f g : Formula) (rest : List Formula)
    (after : List Token) :
    (chain j f g rest).write after =
      .lparen :: f.write (.op (.binary j) :: g.write
        (rest.foldr (fun h after => .op (.binary j) :: h.write after) (.rparen :: after))) := by
  simp only [write, fold, foldAll_eq_map, List.foldr_map]

/-- What is written does not depend on what stands behind it. -/
theorem write_eq_append (f : Formula) (after : List Token) : f.write after = f.tokens ++ after := by
  suffices h : ∀ f : Formula, ∀ a b : List Token, f.write (a ++ b) = f.write a ++ b from
    h f [] after
  intro f
  induction f with
  | atom v => intro a b; rfl
  | neg f ih =>
    intro a b
    exact congrArg (fun ts => Token.lparen :: .op .not :: ts) (ih (.rparen :: a) b)
  | chain j f g rest hf hg hr =>
    intro a b
    have fold : rest.foldr (fun h after => .op (.binary j) :: h.write after) (.rparen :: (a ++ b)) =
        rest.foldr (fun h after => .op (.binary j) :: h.write after) (.rparen :: a) ++ b := by
      clear hf hg
      induction rest with
      | nil => rfl
      | cons h rest ih =>
        rw [List.foldr_cons, ih fun k hk => hr k (List.mem_cons_of_mem _ hk),
          hr h List.mem_cons_self]
        rfl
    simp only [write_chain, fold, List.cons_append, ← hf, ← hg]

theorem tokens_atom (v : Variable) : (atom v).tokens = [.ident v.name] := rfl

theorem tokens_neg (f : Formula) :
    (neg f).tokens = .lparen :: .op .not :: f.tokens ++ [.rparen] := by
  simp [tokens, write_eq_append f [Token.rparen]]

theorem tokens_chain (j : Junction) (f g : Formula) (rest : List Formula) :
    (chain j f g rest).tokens =
      .lparen :: f.tokens ++ (g :: rest).flatMap (fun h => .op (.binary j) :: h.tokens) ++
        [.rparen] := by
  have fold : rest.foldr (fun h after => .op (.binary j) :: h.write after) [Token.rparen] =
      rest.flatMap (fun h => .op (.binary j) :: h.tokens) ++ [.rparen] := by
    induction rest with
    | nil => rfl
    | cons h rest ih => rw [List.foldr_cons, ih, write_eq_append]; simp
  rw [tokens, write_chain, fold, write_eq_append f, write_eq_append g]
  simp

end Propositional.Formula
