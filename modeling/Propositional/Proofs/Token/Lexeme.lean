import Mathlib.Data.List.Basic
import Propositional.Proofs.Token.Symbol
import Propositional.Proofs.Token.Seam

/-!
# Lexemes

A text is its lexemes with blanks around them, and each lexeme is one token, told by its characters
alone. `Lexeme before after chars` says which stretches of text are lexemes where they stand: they
cannot be made longer, to neither side. This leaves one way to cut a text, so the lexemes say what
the tokens are without saying how they are found.
-/

namespace Propositional

open Text

namespace Token

/-- The characters are one token between those before and those after. -/
inductive Lexeme (before after : List Char) : List Char → Prop where
  | opening : Lexeme before after ['(']
  | closing : Lexeme before after [')']
  /-- All word characters, or all foreign ones, that stand side by side. -/
  | run {chars : List Char} {k : CharClass} (kind : k = .word ∨ k = .other) (ne_nil : chars ≠ [])
      (all : ∀ c ∈ chars, CharClass.of c = k) (left : ∀ b ∈ before.getLast?, CharClass.of b ≠ k)
      (right : ∀ a ∈ after.head?, CharClass.of a ≠ k) : Lexeme before after chars
  /-- A connective in symbols: a single one makes no longer symbol with the next character. -/
  | connective {chars : List Char} {c : Connective}
      (all : ∀ d ∈ chars, CharClass.of d = .symbol)
      (spelled : Connective.ofLetters? chars = some c)
      (single : ∀ a, chars = [a] → ∀ b ∈ after.head?, Connective.ofLetters? [a, b] = none) :
      Lexeme before after chars
  /-- Symbols to the end of their run, the first of which begins no connective. -/
  | unspelled {first : Char} {rest : List Char}
      (all : ∀ d ∈ first :: rest, CharClass.of d = .symbol)
      (one : Connective.ofLetters? [first] = none)
      (two : ∀ b ∈ rest.head?, Connective.ofLetters? [first, b] = none)
      (right : ∀ a ∈ after.head?, CharClass.of a ≠ .symbol) : Lexeme before after (first :: rest)

/-- The token of a lexeme. -/
def ofLexeme (chars : List Char) : Token :=
  if chars = ['('] then lparen else if chars = [')'] then rparen else ofWord chars

/-- A stretch of text without blanks, and the blanks in front of it. -/
structure Slice where
  gap : List Char
  chars : List Char
  blank : ∀ c ∈ gap, isBlank c = true
  ne_nil : chars ≠ []
  solid : ∀ c ∈ chars, isBlank c = false

def Slice.token (p : Slice) : Token := ofLexeme p.chars

/-- The text behind `before` is the slices and blanks at its end, and each slice is a lexeme where
it stands. -/
inductive Sliced : List Char → List Slice → List Char → Prop where
  | last {before gap : List Char} : (∀ c ∈ gap, isBlank c = true) → Sliced before [] gap
  | cons {before rest : List Char} {p : Slice} {slices : List Slice} :
      Lexeme (before ++ p.gap) rest p.chars → Sliced (before ++ p.gap ++ p.chars) slices rest →
      Sliced before (p :: slices) (p.gap ++ (p.chars ++ rest))

/-! ## What a lexeme is read as -/

/-- The characters of the class that a text begins with, and the others. -/
theorem exists_run (k : CharClass) (cs : List Char) :
    ∃ run rest, run ++ rest = cs ∧ (∀ d ∈ run, CharClass.of d = k) ∧
      ∀ d ∈ rest.head?, CharClass.of d ≠ k := by
  refine ⟨cs.takeWhile (CharClass.of · = k), cs.dropWhile (CharClass.of · = k),
    List.takeWhile_append_dropWhile, fun d hd => ?_, fun d hd => ?_⟩
  · simpa using List.all_eq_true.1 List.all_takeWhile d hd
  · have := List.head?_dropWhile_not (CharClass.of · = k) cs
    rw [hd] at this
    simpa using this

/-- A connective in symbols is read first, and then what follows, be it symbols too. -/
theorem ofChars_append_of_spelled {chars cs : List Char} {c : Connective}
    (hall : ∀ d ∈ chars, CharClass.of d = .symbol) (h : Connective.ofLetters? chars = some c)
    (hsingle : ∀ a, chars = [a] → ∀ b ∈ cs.head?, Connective.ofLetters? [a, b] = none) :
    ofChars (chars ++ cs) = op c :: ofChars cs := by
  obtain ⟨syms, rest, rfl, hsyms, hrest⟩ := exists_run .symbol cs
  have hboth : ∀ d ∈ chars ++ syms, CharClass.of d = .symbol := fun d hd =>
    (List.mem_append.1 hd).elim (hall d) (hsyms d)
  have hsingle' : ∀ a, chars = [a] → ∀ b ∈ syms.head?, Connective.ofLetters? [a, b] = none :=
    fun a ha b hb => hsingle a ha b (by rw [List.head?_append, hb]; rfl)
  rw [← List.append_assoc, ofChars_run_append hboth hrest, ofChars_symbols hboth,
    ofSymbols_append_of_spelled hall h hsingle', ofChars_run_append hsyms hrest,
    ofChars_symbols hsyms]
  rfl

theorem ofLetters?_unspelled {first : Char} {rest : List Char} (hf : CharClass.of first = .symbol)
    (hone : Connective.ofLetters? [first] = none)
    (htwo : ∀ b ∈ rest.head?, Connective.ofLetters? [first, b] = none) :
    Connective.ofLetters? (first :: rest) = none := by
  cases h : Connective.ofLetters? (first :: rest) with
  | none => rfl
  | some c =>
    have hlen := (Connective.symbols_of_ofLetters?_cons hf h).2
    match rest with
    | [] =>
      rw [hone] at h
      cases h
    | [b] =>
      rw [htwo b rfl] at h
      cases h
    | b :: d :: rest => simp at hlen

theorem ofLetters?_foreign {c : Char} {cs : List Char}
    (h : ∀ d ∈ c :: cs, CharClass.of d = .other) :
    Connective.ofLetters? (c :: cs) = none := by
  cases hl : Connective.ofLetters? (c :: cs) with
  | none => rfl
  | some d =>
    have hother := h c List.mem_cons_self
    rcases Connective.classes_of_ofLetters? hl with hword | ⟨hsym, -⟩
    · rw [hword c List.mem_cons_self] at hother
      cases hother
    · rw [hsym c List.mem_cons_self] at hother
      cases hother

/-- What is of a class without parentheses is no parenthesis. -/
theorem ofLexeme_of_forall {k : CharClass} {chars : List Char}
    (h : ∀ c ∈ chars, CharClass.of c = k) (hk : k ≠ .opening ∧ k ≠ .closing) :
    ofLexeme chars = ofWord chars := by
  have hno : chars ≠ ['('] := by
    rintro rfl
    exact hk.1 (h '(' List.mem_cons_self).symm
  have hnc : chars ≠ [')'] := by
    rintro rfl
    exact hk.2 (h ')' List.mem_cons_self).symm
  rw [ofLexeme, if_neg hno, if_neg hnc]

namespace Lexeme

variable {before after chars : List Char}

theorem ne_nil (h : Lexeme before after chars) : chars ≠ [] := by
  cases h with
  | opening | closing | unspelled => exact List.cons_ne_nil _ _
  | run _ hne => exact hne
  | connective _ hs =>
    rintro rfl
    rw [Connective.ofLetters?_nil] at hs
    cases hs

/-- The characters of a lexeme are of one class, and that is not the blanks. -/
theorem exists_class (h : Lexeme before after chars) :
    ∃ k, k ≠ .blank ∧ ∀ c ∈ chars, CharClass.of c = k := by
  cases h with
  | opening => exact ⟨.opening, nofun, List.forall_mem_singleton.2 CharClass.of_opening⟩
  | closing => exact ⟨.closing, nofun, List.forall_mem_singleton.2 CharClass.of_closing⟩
  | run hk _ hall => exact ⟨_, by rcases hk with rfl | rfl <;> exact nofun, hall⟩
  | connective hall | unspelled hall => exact ⟨.symbol, nofun, hall⟩

theorem solid (h : Lexeme before after chars) : ∀ c ∈ chars, isBlank c = false := by
  intro c hc
  obtain ⟨k, hk, hall⟩ := h.exists_class
  refine Bool.eq_false_iff.2 fun hb => hk ?_
  rw [← hall c hc, CharClass.of_eq_blank_iff.2 hb]

/-- A lexeme is read as its token, and what stands behind it on its own. -/
theorem ofChars_append (h : Lexeme before after chars) :
    ofChars (chars ++ after) = ofLexeme chars :: ofChars after := by
  cases h with
  | opening | closing => exact ofChars_cons_of_isBreak rfl after
  | run hk hne hall _ hright =>
    obtain ⟨c, cs, rfl⟩ := List.exists_cons_of_ne_nil hne
    rw [ofChars_run_append hall hright, ofChars_run hall]
    rcases hk with rfl | rfl
    · rw [ofLexeme_of_forall hall (by decide)]
      simp [ofRun, Run.charClass, hall c List.mem_cons_self, Run.chars]
    · rw [ofLexeme_of_forall hall (by decide), ofWord, ofLetters?_foreign hall]
      simp [ofRun, Run.charClass, hall c List.mem_cons_self, Run.chars]
  | connective hall hspelled hsingle =>
    rw [ofChars_append_of_spelled hall hspelled hsingle, ofLexeme_of_forall hall (by decide),
      ofWord, hspelled]
  | @unspelled first rest hall hone htwo hright =>
    rw [ofChars_run_append hall hright, ofChars_symbols hall, ofSymbols_unspelled hall hone htwo,
      ofLexeme_of_forall hall (by decide), ofWord,
      ofLetters?_unspelled (hall first List.mem_cons_self) hone htwo]
    rfl

end Lexeme

/-! ## Every text has lexemes -/

/-- No run goes on from the one text to the other. -/
def Parted (before after : List Char) : Prop :=
  ∀ b ∈ before.getLast?, ∀ a ∈ after.head?, CharClass.of b = CharClass.of a →
    CharClass.of a ≠ .word ∧ CharClass.of a ≠ .other

theorem Lexeme.parted {before after chars : List Char} (h : Lexeme before after chars) :
    Parted (before ++ chars) after := by
  intro b hb a ha he
  rw [List.getLast?_append_of_ne_nil before h.ne_nil] at hb
  have hmem : b ∈ chars := List.mem_of_getLast? hb
  cases h with
  | opening | closing =>
    cases List.mem_singleton.1 hmem
    rw [← he]
    decide
  | run _ _ hall _ hright => exact absurd (he.symm.trans (hall b hmem)) (hright a ha)
  | connective hall | unspelled hall =>
    rw [← he, hall b hmem]
    exact ⟨nofun, nofun⟩

variable {before cs : List Char} {c : Char}

theorem exists_lexeme_of_symbol (hc : CharClass.of c = .symbol) :
    ∃ chars rest, chars ++ rest = c :: cs ∧ Lexeme before rest chars := by
  by_cases hpair : ∀ d ∈ cs.head?, Connective.ofLetters? [c, d] = none
  · cases hone : Connective.ofLetters? [c] with
    | some conn =>
      refine ⟨[c], cs, rfl, .connective (List.forall_mem_singleton.2 hc) hone fun a ha => ?_⟩
      cases ha
      exact hpair
    | none =>
      obtain ⟨run, rest, rfl, hall, hrest⟩ := exists_run .symbol cs
      refine ⟨c :: run, rest, rfl, .unspelled (List.forall_mem_cons.2 ⟨hc, hall⟩) hone
        (fun b hb => hpair b ?_) hrest⟩
      rw [List.head?_append, hb]
      rfl
  · obtain ⟨d, hd, hne⟩ : ∃ d, d ∈ cs.head? ∧ Connective.ofLetters? [c, d] ≠ none := by
      simpa using hpair
    obtain ⟨conn, hspelled⟩ := Option.ne_none_iff_exists'.1 hne
    obtain ⟨rest, rfl⟩ := List.head?_eq_some_iff.1 hd
    exact ⟨[c, d], rest, rfl, .connective (Connective.symbols_of_ofLetters?_cons hc hspelled).1
      hspelled nofun⟩

/-- A text that does not begin with a blank begins with a lexeme. -/
theorem exists_lexeme (hb : CharClass.of c ≠ .blank) (hp : Parted before (c :: cs)) :
    ∃ chars rest, chars ++ rest = c :: cs ∧ Lexeme before rest chars := by
  have hrun (k : CharClass) (hk : k = .word ∨ k = .other) (hc : CharClass.of c = k) :
      ∃ chars rest, chars ++ rest = c :: cs ∧ Lexeme before rest chars := by
    obtain ⟨run, rest, rfl, hall, hrest⟩ := exists_run k cs
    refine ⟨c :: run, rest, rfl, .run hk (List.cons_ne_nil c run)
      (List.forall_mem_cons.2 ⟨hc, hall⟩) (fun b hb he => ?_) hrest⟩
    obtain ⟨hword, hother⟩ := hp b hb c rfl (he.trans hc.symm)
    rcases hk with rfl | rfl
    · exact hword hc
    · exact hother hc
  cases hc : CharClass.of c with
  | blank => exact absurd hc hb
  | opening => exact ⟨['('], cs, by rw [CharClass.eq_of_of_eq_opening hc]; rfl, .opening⟩
  | closing => exact ⟨[')'], cs, by rw [CharClass.eq_of_of_eq_closing hc]; rfl, .closing⟩
  | word => exact hrun .word (.inl rfl) hc
  | symbol => exact exists_lexeme_of_symbol hc
  | other => exact hrun .other (.inr rfl) hc

/-- A blank in front belongs to the first gap. -/
theorem Sliced.exists_cons_blank {slices : List Slice} (hb : isBlank c = true)
    (h : Sliced (before ++ [c]) slices cs) : ∃ slices', Sliced before slices' (c :: cs) := by
  cases h with
  | last hgap => exact ⟨[], .last (List.forall_mem_cons.2 ⟨hb, hgap⟩)⟩
  | @cons _ rest p slices hl hs =>
    refine ⟨⟨c :: p.gap, p.chars, List.forall_mem_cons.2 ⟨hb, p.blank⟩, p.ne_nil, p.solid⟩ ::
      slices, .cons ?_ ?_⟩
    · simpa using hl
    · simpa using hs

/-- The text is cut from the left, each time at a place where no run goes on. -/
theorem exists_sliced (hp : Parted before cs) : ∃ slices, Sliced before slices cs := by
  induction hn : cs.length using Nat.strongRecOn generalizing before cs with
  | ind n ih =>
    subst hn
    cases cs with
    | nil => exact ⟨[], .last nofun⟩
    | cons c cs =>
      by_cases hb : CharClass.of c = .blank
      · have hparted : Parted (before ++ [c]) cs := by
          intro b hlast a _ he
          rw [List.getLast?_concat] at hlast
          cases hlast
          rw [← he, hb]
          exact ⟨nofun, nofun⟩
        obtain ⟨slices, hs⟩ := ih cs.length (Nat.lt_succ_self _) hparted rfl
        exact hs.exists_cons_blank (CharClass.of_eq_blank_iff.1 hb)
      · obtain ⟨chars, rest, hcs, hl⟩ := exists_lexeme hb hp
        have hlt : rest.length < (c :: cs).length := by
          have := List.length_pos_iff.2 hl.ne_nil
          rw [← hcs, List.length_append]
          omega
        obtain ⟨slices, hs⟩ := ih rest.length hlt hl.parted rfl
        refine ⟨⟨[], chars, nofun, hl.ne_nil, hl.solid⟩ :: slices, ?_⟩
        rw [← hcs]
        exact Sliced.cons (by simpa using hl) (by simpa using hs)

/-! ## The tokens of a text -/

theorem ofChars_blanks_append {gap : List Char} (h : ∀ c ∈ gap, isBlank c = true)
    (cs : List Char) : ofChars (gap ++ cs) = ofChars cs := by
  induction gap with
  | nil => rfl
  | cons c gap ih =>
    obtain ⟨hc, hgap⟩ := List.forall_mem_cons.1 h
    exact (ofChars_blank (CharClass.of_eq_blank_iff.2 hc) _).trans (ih hgap)

theorem Sliced.ofChars_eq {slices : List Slice} (h : Sliced before slices cs) :
    ofChars cs = slices.map Slice.token := by
  induction h with
  | last hgap => exact ofChars_eq_nil_iff.2 fun c hc => CharClass.of_eq_blank_iff.2 (hgap c hc)
  | @cons before rest p slices hl _ ih =>
    rw [ofChars_blanks_append p.blank, hl.ofChars_append, ih]
    rfl

theorem exists_sliced_tokenize (s : String) :
    ∃ slices, Sliced [] slices s.toList ∧ tokenize s = slices.map Slice.token := by
  have hstart : Parted [] s.toList := nofun
  obtain ⟨slices, h⟩ := exists_sliced hstart
  exact ⟨slices, h, h.ofChars_eq⟩

/-- The tokens of a text are those of its lexemes: there is one way to cut a text into lexemes and
blanks, as far as the tokens tell, and nothing of it is lost or added. -/
theorem tokenize_eq_iff_sliced (s : String) (ts : List Token) :
    tokenize s = ts ↔ ∃ slices, Sliced [] slices s.toList ∧ ts = slices.map Slice.token := by
  constructor
  · rintro rfl
    exact exists_sliced_tokenize s
  · rintro ⟨slices, h, rfl⟩
    exact h.ofChars_eq

end Token

end Propositional
