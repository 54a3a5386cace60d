import Mathlib.Data.List.Basic
import Propositional.Proofs.Connective

/-!
# The table of symbols

The lexer does not ask what symbols spell but looks for the first item of its table that they begin
with. The two agree: the table has exactly the spellings by symbols (`mem_symbols_iff`), and as the
longer ones stand first, the symbol that is found is the longest spelling that the characters begin
with (`symbolAt?_of_spelled`, `symbolAt?_eq_none_iff`).
-/

namespace Propositional.Token

open Text

variable {cs letters rest : List Char} {first : Char} {s : String × Connective} {c : Connective}

theorem ofLetters?_of_mem_symbols (h : s ∈ symbols) :
    Connective.ofLetters? s.1.toList = some s.2 := by
  have hall : symbols.all (fun s => Connective.ofLetters? s.1.toList == some s.2) = true := by
    decide
  exact eq_of_beq (List.all_eq_true.1 hall s h)

theorem of_symbol_of_mem_symbols (h : s ∈ symbols) :
    ∀ d ∈ s.1.toList, CharClass.of d = .symbol := by
  have hall : symbols.all (fun s => s.1.toList.all (CharClass.of · == .symbol)) = true := by decide
  exact fun d hd => eq_of_beq (List.all_eq_true.1 (List.all_eq_true.1 hall s h) d hd)

/-- No longer symbol stands behind a shorter one. -/
theorem pairwise_symbols : symbols.Pairwise fun s t => t.1.toList.length ≤ s.1.toList.length := by
  decide

theorem symbol_mem_symbols (c : Connective) :
    (c.symbol, c) ∈ symbols ∧ (c.altSymbol, c) ∈ symbols := by
  cases c with
  | not => decide
  | binary j => cases j <;> decide

/-- In the table stand the texts of symbols that spell a connective, each with the one it spells. -/
theorem mem_symbols_iff {text : String} :
    (text, c) ∈ symbols ↔ (∀ d ∈ text.toList, CharClass.of d = .symbol) ∧
      Connective.ofLetters? text.toList = some c := by
  refine ⟨fun h => ?_, fun ⟨hall, hs⟩ => ?_⟩
  · exact ⟨of_symbol_of_mem_symbols (s := (text, c)) h, ofLetters?_of_mem_symbols (s := (text, c)) h⟩
  rcases Connective.symbol_or_word_of_ofLetters? hs with hone | htwo | hword
  · rw [String.toList_inj.1 hone]
    exact (symbol_mem_symbols c).1
  · rw [String.toList_inj.1 htwo]
    exact (symbol_mem_symbols c).2
  · cases htext : text.toList with
    | nil =>
      rw [htext, Connective.ofLetters?_nil] at hs
      cases hs
    | cons d ds =>
      have hd : d ∈ text.toList := htext ▸ List.mem_cons_self
      have hclass := (hword d hd).symm.trans (hall d hd)
      cases hclass

theorem length_of_mem_symbols (h : s ∈ symbols) :
    s.1.toList.length = 1 ∨ s.1.toList.length = 2 := by
  have hall : symbols.all (fun s => s.1.toList.length == 1 || s.1.toList.length == 2) = true := by
    decide
  exact (Bool.or_eq_true _ _ ▸ List.all_eq_true.1 hall s h).imp eq_of_beq eq_of_beq

theorem begins_of_symbolAt? (h : symbolAt? cs = some s) : s.1.toList <+: cs :=
  List.isPrefixOf_iff_prefix.1
    (List.find?_some (p := fun s : String × Connective => s.1.toList.isPrefixOf cs) h)

/-- What is found spells its connective, with the first symbol alone or with the next. -/
theorem spelled_of_symbolAt? (h : symbolAt? (first :: rest) = some s) :
    Connective.ofLetters? s.1.toList = some s.2 ∧
      (s.1.toList = [first] ∨ ∃ b ∈ rest.head?, s.1.toList = [first, b]) := by
  have hmem : s ∈ symbols := List.mem_of_find?_eq_some h
  have hbegin := begins_of_symbolAt? h
  refine ⟨ofLetters?_of_mem_symbols hmem, ?_⟩
  rcases length_of_mem_symbols hmem with hone | htwo
  · obtain ⟨a, ha⟩ := List.length_eq_one_iff.1 hone
    rw [ha, List.cons_prefix_cons] at hbegin
    exact .inl (by rw [ha, hbegin.1])
  · obtain ⟨a, b, hab⟩ := List.length_eq_two.1 htwo
    rw [hab, List.cons_prefix_cons] at hbegin
    obtain ⟨rfl, more, rfl⟩ := hbegin
    exact .inr ⟨b, rfl, hab⟩

/-- No spelling by symbols that the characters begin with is longer than the one found. -/
theorem exists_symbolAt?_of_spelled (hall : ∀ d ∈ letters, CharClass.of d = .symbol)
    (h : Connective.ofLetters? letters = some c) (hbegin : letters <+: cs) :
    ∃ s, symbolAt? cs = some s ∧ letters.length ≤ s.1.toList.length := by
  obtain ⟨text, rfl⟩ : ∃ text : String, text.toList = letters :=
    ⟨String.ofList letters, String.toList_ofList⟩
  have hmem : (text, c) ∈ symbols := mem_symbols_iff.2 ⟨hall, h⟩
  have hfits : text.toList.isPrefixOf cs = true := List.isPrefixOf_iff_prefix.2 hbegin
  cases hfound : symbolAt? cs with
  | none => exact absurd hfits (List.find?_eq_none.1 hfound _ hmem)
  | some s =>
    refine ⟨s, rfl, ?_⟩
    obtain ⟨-, before, after, hsplit, hbefore⟩ := List.find?_eq_some_iff_append.1 hfound
    have hpair := pairwise_symbols
    rw [hsplit] at hmem hpair
    rcases List.mem_append.1 hmem with hearlier | hlater
    · have hmisfit := hbefore _ hearlier
      rw [hfits] at hmisfit
      cases hmisfit
    · rcases List.mem_cons.1 hlater with rfl | hlater
      · exact Nat.le_refl _
      · exact (List.pairwise_cons.1 (List.pairwise_append.1 hpair).2.1).1 _ hlater

/-- What the characters begin with is found if it is the longest spelling there: behind a single
symbol the next character makes no connective with it. -/
theorem symbolAt?_of_spelled (hall : ∀ d ∈ letters, CharClass.of d = .symbol)
    (h : Connective.ofLetters? letters = some c)
    (hsingle : ∀ a, letters = [a] → ∀ b ∈ cs.head?, Connective.ofLetters? [a, b] = none) :
    symbolAt? (letters ++ cs) = some (String.ofList letters, c) := by
  obtain ⟨s, hfound, hle⟩ := exists_symbolAt?_of_spelled hall h (List.prefix_append letters cs)
  have hsame : s.1.toList = letters := by
    match letters with
    | [] =>
      rw [Connective.ofLetters?_nil] at h
      cases h
    | [a] =>
      obtain ⟨hs, hone | ⟨b, hb, htwo⟩⟩ := spelled_of_symbolAt? hfound
      · exact hone
      · rw [htwo, hsingle a rfl b hb] at hs
        cases hs
    | a :: b :: more =>
      obtain ⟨-, hone | ⟨d, hd, htwo⟩⟩ := spelled_of_symbolAt? hfound
      · simp [hone] at hle
      · cases hd
        have hlen := (Connective.symbols_of_ofLetters?_cons (hall a List.mem_cons_self) h).2
        match more with
        | [] => exact htwo
        | e :: more => simp at hlen
  have hs := ofLetters?_of_mem_symbols (List.mem_of_find?_eq_some hfound)
  rw [hsame, h] at hs
  rw [hfound, ← hsame, String.ofList_toList, Option.some.inj hs]

/-- Nothing is found where neither the first symbol nor the first two spell a connective. -/
theorem symbolAt?_eq_none_iff (hcs : ∀ d ∈ first :: rest, CharClass.of d = .symbol) :
    symbolAt? (first :: rest) = none ↔
      Connective.ofLetters? [first] = none ∧
        ∀ b ∈ rest.head?, Connective.ofLetters? [first, b] = none := by
  constructor
  · intro hnone
    have hno : ∀ letters, letters <+: first :: rest → Connective.ofLetters? letters = none := by
      intro letters hbegin
      cases h : Connective.ofLetters? letters with
      | none => rfl
      | some c =>
        have hall : ∀ d ∈ letters, CharClass.of d = .symbol := fun d hd =>
          hcs d (hbegin.subset hd)
        obtain ⟨s, hfound, -⟩ := exists_symbolAt?_of_spelled hall h hbegin
        rw [hnone] at hfound
        cases hfound
    refine ⟨hno [first] ⟨rest, rfl⟩, fun b hb => hno [first, b] ?_⟩
    obtain ⟨more, rfl⟩ := List.head?_eq_some_iff.1 hb
    exact ⟨more, rfl⟩
  · rintro ⟨hone, htwo⟩
    cases hfound : symbolAt? (first :: rest) with
    | none => rfl
    | some s =>
      obtain ⟨hs, hfirst | ⟨b, hb, hpair⟩⟩ := spelled_of_symbolAt? hfound
      · rw [hfirst, hone] at hs
        cases hs
      · rw [hpair, htwo b hb] at hs
        cases hs

/-! ## Symbols in front of others -/

theorem ofSymbols_append_of_spelled (hall : ∀ d ∈ letters, CharClass.of d = .symbol)
    (h : Connective.ofLetters? letters = some c)
    (hsingle : ∀ a, letters = [a] → ∀ b ∈ cs.head?, Connective.ofLetters? [a, b] = none) :
    ofSymbols (letters ++ cs) = op c :: ofSymbols cs := by
  rw [ofSymbols_of_symbolAt? (symbolAt?_of_spelled hall h hsingle), String.toList_ofList,
    List.drop_left]

theorem ofSymbols_unspelled (hcs : ∀ d ∈ first :: rest, CharClass.of d = .symbol)
    (hone : Connective.ofLetters? [first] = none)
    (htwo : ∀ b ∈ rest.head?, Connective.ofLetters? [first, b] = none) :
    ofSymbols (first :: rest) = [ident (String.ofList (first :: rest))] :=
  ofSymbols_of_symbolAt?_eq_none (List.cons_ne_nil first rest)
    ((symbolAt?_eq_none_iff hcs).2 ⟨hone, htwo⟩)

/-- An identifier among symbols begins with one that spells nothing, not even with the next. -/
theorem spells_nothing_of_ident_mem_ofSymbols {name : String}
    (hcs : ∀ d ∈ cs, CharClass.of d = .symbol) (h : ident name ∈ ofSymbols cs) :
    ∃ a rest, name.toList = a :: rest ∧ Connective.ofLetters? [a] = none ∧
      ∀ b ∈ rest.head?, Connective.ofLetters? [a, b] = none := by
  fun_induction ofSymbols cs with
  | case1 => cases h
  | case2 a cs s hs _ ih =>
    rcases List.mem_cons.1 h with h | h
    · cases h
    · exact ih (fun d hd => hcs d (List.mem_of_mem_drop hd)) h
  | case3 a cs hs =>
    cases List.mem_singleton.1 h
    exact ⟨a, cs, String.toList_ofList, (symbolAt?_eq_none_iff hcs).1 hs⟩

end Propositional.Token
