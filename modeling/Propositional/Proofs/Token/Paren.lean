import Mathlib.Data.List.Basic
import Propositional.Proofs.Surface
import Propositional.Proofs.Token.Lexer

/-!
# Parentheses among the tokens

The tokens of a text have its parentheses in their order, whatever else stands in it. If moreover
every identifier is a name, no character is foreign to formulas: such a character stands in a run
that is an identifier. So the surface of a text can be read off its tokens.
-/

namespace Propositional.Token

open Text

def paren? : Token → Option Paren
  | lparen => some .opening
  | rparen => some .closing
  | op _ | ident _ => none

/-- The parentheses among tokens. -/
def parens (ts : List Token) : List Paren := ts.filterMap paren?

@[simp] theorem parens_append (ts us : List Token) : parens (ts ++ us) = parens ts ++ parens us :=
  List.filterMap_append

theorem paren?_ofWord (letters : List Char) : (ofWord letters).paren? = none := by
  unfold ofWord
  split <;> rfl

theorem parens_ofSymbols (cs : List Char) : parens (ofSymbols cs) = [] := by
  fun_induction ofSymbols cs with
  | case1 => rfl
  | case2 c cs s hs _ ih => exact ih
  | case3 c cs hs => rfl

theorem parens_ofRun {r : Run} (h : r.Uniform) : parens (ofRun r) = Text.parens r.chars := by
  have hchars : Text.parens r.chars = r.chars.filterMap fun _ => r.charClass.paren? :=
    List.filterMap_congr fun c hc => by rw [h c hc]
  rw [hchars, ofRun]
  cases r.charClass with
  | blank => simp [parens, CharClass.paren?]
  | opening => exact List.filterMap_map
  | closing => exact List.filterMap_map
  | word => simp [parens, CharClass.paren?, paren?_ofWord]
  | symbol => simp [parens_ofSymbols, CharClass.paren?]
  | other => simp [parens, CharClass.paren?, paren?]

theorem parens_ofChars (cs : List Char) : parens (ofChars cs) = Text.parens cs := by
  have hruns : ∀ rs : List Run, (∀ r ∈ rs, r.Uniform) →
      parens (rs.flatMap ofRun) = Text.parens (rs.flatMap Run.chars) := by
    intro rs hrs
    induction rs with
    | nil => rfl
    | cons r rs ih =>
      obtain ⟨hr, hrs⟩ := List.forall_mem_cons.1 hrs
      rw [List.flatMap_cons, List.flatMap_cons, parens, Text.parens, List.filterMap_append,
        List.filterMap_append]
      exact congr (congrArg _ (parens_ofRun hr)) (ih hrs)
  rw [ofChars, hruns _ fun r hr => Run.uniform_of_mem_ofChars hr, Run.flatMap_ofChars]

/-- A foreign character would stand in an identifier that is no name. -/
theorem of_ne_other_of_named {cs : List Char} (h : Named (ofChars cs)) :
    ∀ c ∈ cs, CharClass.of c ≠ .other := by
  intro c hc hother
  rw [← Run.flatMap_ofChars cs] at hc
  obtain ⟨r, hr, hc⟩ := List.mem_flatMap.1 hc
  have hclass : r.charClass = .other :=
    (Run.uniform_of_mem_ofChars hr c hc).symm.trans hother
  have hmem : ident (String.ofList r.chars) ∈ ofChars cs :=
    List.mem_flatMap.2 ⟨r, hr, by simp [ofRun, hclass]⟩
  have hword : CharClass.of c = .word :=
    CharClass.of_eq_word_iff.2 ((h _ hmem).2 c (by simpa using hc))
  rw [hword] at hother
  cases hother

theorem check_eq_ok_of_named {s : String} (h : Named (tokenize s))
    (hp : Paren.openAfter 0 (parens (tokenize s)) = some 0) : Surface.check s = .ok () := by
  rw [tokenize, parens_ofChars] at hp
  exact Surface.check_eq_ok_iff.2 ⟨of_ne_other_of_named h, hp⟩

theorem Named.reread {ts : List Token} (h : Named ts) : Named (ts.map reread) := by
  intro name hn
  obtain ⟨t, ht, he⟩ := List.mem_map.1 hn
  cases t with
  | ident name' =>
    obtain rfl : name = name' := String.toList_inj.1 (ofWord_eq_ident he).2
    exact h name ht
  | lparen | rparen | op c => cases he

theorem parens_reread (ts : List Token) : parens (ts.map reread) = parens ts := by
  rw [parens, List.filterMap_map]
  refine List.filterMap_congr fun t _ => ?_
  cases t with
  | ident name => exact paren?_ofWord _
  | lparen | rparen | op c => rfl

/-- A line of tokens has the surface of a formula if its parentheses are balanced. -/
theorem check_line {ts : List Token} (h : Named ts)
    (hp : Paren.openAfter 0 (parens ts) = some 0) : Surface.check (line ts) = .ok () := by
  refine check_eq_ok_of_named ?_ ?_
  · rw [tokenize_line h]
    exact h.reread
  · rw [tokenize_line h, parens_reread, hp]

end Propositional.Token
