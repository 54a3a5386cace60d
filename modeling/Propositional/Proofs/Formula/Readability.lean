import Propositional.Proofs.Formula.Printer
import Propositional.Text.Split

/-!
# Unique readability

The printed form of a formula determines it, also where it cannot be parsed: a variable may be
spelled like a connective, so that the words of `( NOT AND )` and of `( NOT AND A )` begin alike. A
text is its words with blanks between them, and no formula's words begin the words of another one
(`words_append_inj`). What decides between a negation and a chain whose first operand is named `NOT`
is the word behind the next one: there a negation ends, and a chain has its second operand.
-/

namespace Propositional

namespace Token

/-- The words of a line are the texts of its tokens. -/
theorem splitAll_line {ts : List Token} (hne : ts ≠ []) (h : Named ts) :
    Text.splitAll ' ' (line ts).toList = (ts.map text).map String.toList := by
  induction ts with
  | nil => exact absurd rfl hne
  | cons t ts ih =>
    have ht : ' ' ∉ t.text.toList := fun hm => (ofChars_text h.head).2 ' ' hm (by decide)
    cases ts with
    | nil => simpa [line] using Text.splitAll_of_not_mem ht
    | cons u ts =>
      have hline : (line (t :: u :: ts)).toList = t.text.toList ++ ' ' :: (line (u :: ts)).toList := by
        simp [line, String.intercalate_cons_cons]
      rw [hline, Text.splitAll_append ht, ih (List.cons_ne_nil u ts) h.tail]
      rfl

end Token

theorem Connective.word_inj {c c' : Connective} (h : c.word = c'.word) : c = c' := by
  have hc := ofLetters?_word c
  rw [h, ofLetters?_word c'] at hc
  exact (Option.some.inj hc).symm

theorem Connective.word_ne_paren (c : Connective) : c.word ≠ "(" ∧ c.word ≠ ")" := by
  cases c with
  | not => decide
  | binary j => cases j <;> decide

theorem Variable.name_ne_paren (v : Variable) : v.name ≠ "(" ∧ v.name ≠ ")" :=
  ⟨fun h => absurd (h ▸ v.isName) (by decide), fun h => absurd (h ▸ v.isName) (by decide)⟩

namespace Formula

/-- The words of the printed form. -/
def words (f : Formula) : List String := f.tokens.map Token.text

/-- The words of the operands of a chain after the first. -/
def tailWords (j : Junction) (fs : List Formula) : List String := (tailTokens j fs).map Token.text

variable {j : Junction} {f g : Formula} {fs gs : List Formula} {r r' : List String}

theorem words_atom_append (v : Variable) (r : List String) :
    (atom v).words ++ r = v.name :: r := rfl

theorem words_neg_append (f : Formula) (r : List String) :
    (neg f).words ++ r = "(" :: "NOT" :: (f.words ++ ")" :: r) := by
  simp [words, tokens_neg, Token.text, Connective.word]

theorem words_chain_append (j : Junction) (f g : Formula) (fs : List Formula) (r : List String) :
    (chain j f g fs).words ++ r = "(" :: (f.words ++ (tailWords j (g :: fs) ++ ")" :: r)) := by
  simp [words, tailWords, tokens_chain_eq, Token.text]

theorem tailWords_cons_append (j : Junction) (f : Formula) (fs : List Formula) (r : List String) :
    tailWords j (f :: fs) ++ r = (Connective.binary j).word :: (f.words ++ (tailWords j fs ++ r)) := by
  simp [words, tailWords, tailTokens, Token.text]

/-- A formula begins with its name or with an opening parenthesis. -/
theorem words_append_eq_cons {w : String} (hf : f.words ++ r = w :: r') :
    w = "(" ∨ ∃ v, f = atom v ∧ v.name = w ∧ r = r' := by
  cases f with
  | atom v =>
    rw [words_atom_append] at hf
    obtain ⟨hv, hr⟩ := List.cons.inj hf
    exact .inr ⟨v, rfl, hv, hr⟩
  | neg f =>
    rw [words_neg_append] at hf
    exact .inl (List.cons.inj hf).1.symm
  | chain j f g fs =>
    rw [words_chain_append] at hf
    exact .inl (List.cons.inj hf).1.symm

theorem words_append_ne_closing (f : Formula) (r r' : List String) :
    f.words ++ r ≠ ")" :: r' := by
  intro hf
  rcases words_append_eq_cons hf with hp | ⟨v, -, hv, -⟩
  · exact absurd hp (by decide)
  · exact v.name_ne_paren.2 hv

/-- A word that is no parenthesis begins a formula only as its name. -/
theorem eq_atom_of_words_append {w : String} (hf : f.words ++ r = w :: r') (hw : w ≠ "(") :
    (∃ v, f = atom v ∧ v.name = w) ∧ r = r' := by
  rcases words_append_eq_cons hf with hp | ⟨v, rfl, hv, hr⟩
  · exact absurd hp hw
  · exact ⟨⟨v, rfl, hv⟩, hr⟩

theorem words_neg_append_ne_chain (f h k : Formula) (j : Junction) (fs : List Formula)
    (r r' : List String) : (neg f).words ++ r ≠ (chain j h k fs).words ++ r' := by
  intro hw
  rw [words_neg_append, words_chain_append, tailWords_cons_append] at hw
  -- the first operand of the chain is named `NOT`, and the operand of the negation like the junction
  obtain ⟨-, hrest⟩ := eq_atom_of_words_append (List.cons.inj hw).2.symm (by decide)
  obtain ⟨-, hclose⟩ := eq_atom_of_words_append hrest.symm (Connective.word_ne_paren _).1
  exact words_append_ne_closing k _ _ hclose.symm

theorem tailWords_append_inj
    (hfs : ∀ f ∈ fs, ∀ g r r', f.words ++ r = g.words ++ r' → f = g ∧ r = r')
    (h : tailWords j fs ++ ")" :: r = tailWords j gs ++ ")" :: r') : fs = gs ∧ r = r' := by
  have hclose := (Connective.word_ne_paren (.binary j)).2
  induction fs generalizing gs with
  | nil =>
    cases gs with
    | nil => exact ⟨rfl, (List.cons.inj h).2⟩
    | cons g gs => exact absurd (List.cons.inj h).1.symm hclose
  | cons f fs ih =>
    obtain ⟨hf, hfs⟩ := List.forall_mem_cons.1 hfs
    cases gs with
    | nil => exact absurd (List.cons.inj h).1 hclose
    | cons g gs =>
      rw [tailWords_cons_append, tailWords_cons_append] at h
      obtain ⟨rfl, hrest⟩ := hf g _ _ (List.cons.inj h).2
      obtain ⟨rfl, hr⟩ := ih hfs hrest
      exact ⟨rfl, hr⟩

/-- No formula's words begin those of another formula. -/
theorem words_append_inj (f g : Formula) (r r' : List String)
    (h : f.words ++ r = g.words ++ r') : f = g ∧ r = r' := by
  induction f generalizing g r r' with
  | atom v =>
    rw [words_atom_append] at h
    obtain ⟨⟨w, rfl, hw⟩, hr⟩ := eq_atom_of_words_append h.symm v.name_ne_paren.1
    exact ⟨congrArg atom (Variable.ext_name hw.symm), hr.symm⟩
  | neg f ih =>
    cases g with
    | atom w =>
      rw [words_neg_append, words_atom_append] at h
      exact absurd (List.cons.inj h).1.symm w.name_ne_paren.1
    | neg g =>
      rw [words_neg_append, words_neg_append] at h
      obtain ⟨rfl, hrest⟩ := ih g _ _ (List.cons.inj (List.cons.inj h).2).2
      exact ⟨rfl, (List.cons.inj hrest).2⟩
    | chain j g k gs => exact absurd h (words_neg_append_ne_chain f g k j gs r r')
  | chain j f f' fs hf hf' hfs =>
    cases g with
    | atom w =>
      rw [words_chain_append, words_atom_append] at h
      exact absurd (List.cons.inj h).1.symm w.name_ne_paren.1
    | neg g => exact absurd h.symm (words_neg_append_ne_chain g f f' j fs r' r)
    | chain j' g g' gs =>
      rw [words_chain_append, words_chain_append] at h
      obtain ⟨rfl, hrest⟩ := hf g _ _ (List.cons.inj h).2
      obtain rfl : j = j' := by
        rw [tailWords_cons_append, tailWords_cons_append] at hrest
        exact Connective.binary.inj (Connective.word_inj (List.cons.inj hrest).1)
      obtain ⟨htail, hr⟩ := tailWords_append_inj (List.forall_mem_cons.2 ⟨hf', hfs⟩) hrest
      obtain ⟨rfl, rfl⟩ := List.cons.inj htail
      exact ⟨rfl, hr⟩

theorem words_of_text (h : f.text = g.text) : f.words = g.words := by
  have hs : f.words.map String.toList = g.words.map String.toList := by
    rw [words, words, ← Token.splitAll_line f.derives_tokens.ne_nil f.named_tokens,
      ← Token.splitAll_line g.derives_tokens.ne_nil g.named_tokens]
    exact congrArg (fun s : String => Text.splitAll ' ' s.toList) h
  exact (List.map_inj_right fun _ _ => String.toList_inj.1).1 hs

/-- Two formulas are printed alike only if they are the same, whatever their variables are named. -/
theorem text_inj (f g : Formula) : f.text = g.text ↔ f = g := by
  refine ⟨fun h => ?_, congrArg text⟩
  exact (words_append_inj f g [] [] (congrArg (· ++ []) (words_of_text h))).1

end Formula

end Propositional
