import Propositional.Proofs.Formula.Text

/-!
# Reading what was printed

The text of a formula reads as that formula or not at all. It reads exactly if the printed form
nests within the limit and no variable is spelled like a connective. The limit counts what the
printer writes: two levels for a negation and one for a chain, where the text that a formula was
read from may have used one and none. So a formula that was read need not be read again.
-/

namespace Propositional.Formula

open Text Token

variable {f : Formula} {s : String}

theorem ofTokens_tokenize_text_of_le {limit : Nat} (hn : f.nesting ≤ limit) (h : f.Unreserved) :
    ofTokens (tokenize f.text) limit = .ok f := by
  rw [h.tokenize_text]
  exact f.writes_tokens.ofTokens_eq hn

theorem ofTokens_tokenize_text_of_lt {limit : Nat} (hn : limit < f.nesting) (h : f.Unreserved) :
    ∃ stop, ofTokens (tokenize f.text) limit = .error (.tooDeep stop) := by
  rw [h.tokenize_text]
  exact f.writes_tokens.ofTokens_tooDeep hn

/-- What is read from a printed form is what was printed. -/
theorem of_ofTokens_tokenize_text {limit : Nat} {g : Formula}
    (h : ofTokens (tokenize f.text) limit = .ok g) :
    g = f ∧ f.nesting ≤ limit ∧ f.Unreserved := by
  obtain ⟨n, hn, hw⟩ := Grammar.writes_of_ofTokens h
  have hu : f.Unreserved := unreserved_of_writes (tokenize_text f ▸ hw)
  rw [hu.tokenize_text] at hw
  obtain ⟨hg, rfl⟩ := hw.unique f.writes_tokens
  exact ⟨hg, hn, hu⟩

theorem ofText_text (f : Formula) :
    ofText f.text = (ofTokens (tokenize f.text)).mapError .parse :=
  ofText_of_check f.check_text

theorem ofText_text_of_lt (hn : 256 < f.nesting) (h : f.Unreserved) :
    ∃ stop, ofText f.text = .error (.parse (.tooDeep stop)) := by
  obtain ⟨stop, hs⟩ := ofTokens_tokenize_text_of_lt hn h
  refine ⟨stop, ?_⟩
  rw [ofText_text]
  exact congrArg (Except.mapError Error.parse) hs

/-- A formula that was read has no reserved names. -/
theorem unreserved_of_ofTokens_tokenize {limit : Nat}
    (h : ofTokens (tokenize s) limit = .ok f) : f.Unreserved := by
  intro v hv
  obtain ⟨n, -, hw⟩ := Grammar.writes_of_ofTokens h
  exact (Connective.ofLetters?_name_eq_none_iff v).1
    (ofLetters?_of_ident_mem v.isName (Grammar.Derives.ident_mem hw v hv))

theorem unreserved_of_ofText (h : ofText s = .ok f) : f.Unreserved :=
  unreserved_of_ofTokens_tokenize (ofTokens_of_ofText h)

/-- The limit that `ofText` has. -/
theorem ofText_text_eq_ok_iff (f : Formula) :
    ofText f.text = .ok f ↔ ofTokens (tokenize f.text) 256 = .ok f := by
  rw [ofText_text]
  exact mapError_parse_eq_ok_iff

theorem ofTokens_tokenize_text_eq_ok_iff (f : Formula) (limit : Nat) :
    ofTokens (tokenize f.text) limit = .ok f ↔ f.nesting ≤ limit ∧ f.Unreserved :=
  ⟨fun h => (of_ofTokens_tokenize_text h).2, fun h => ofTokens_tokenize_text_of_le h.1 h.2⟩

/-- Where the printed form of a formula can be read. The result is the formula or an error, and for
a text as a whole the error is one of the parser. -/
theorem read_text_iff (f : Formula) (limit : Nat) :
    (ofTokens (tokenize f.text) limit = .ok f ↔
        f.nesting ≤ limit ∧ ∀ v ∈ f.leaves, ¬ v.IsReserved) ∧
      (ofTokens (tokenize f.text) limit = .ok f ∨
        ∃ e, ofTokens (tokenize f.text) limit = .error e) ∧
      Surface.check f.text = .ok () ∧
      (ofText f.text = .ok f ↔ f.nesting ≤ 256 ∧ ∀ v ∈ f.leaves, ¬ v.IsReserved) ∧
      (ofText f.text = .ok f ∨ ∃ e, ofText f.text = .error (.parse e)) := by
  have hiff := ofTokens_tokenize_text_eq_ok_iff f
  have hor : ∀ limit, ofTokens (tokenize f.text) limit = .ok f ∨
      ∃ e, ofTokens (tokenize f.text) limit = .error e := fun limit => by
    cases h : ofTokens (tokenize f.text) limit with
    | error e => exact .inr ⟨e, rfl⟩
    | ok g => exact .inl (congrArg Except.ok (of_ofTokens_tokenize_text h).1)
  refine ⟨hiff limit, hor limit, check_text f, (ofText_text_eq_ok_iff f).trans (hiff 256), ?_⟩
  rcases hor 256 with h | ⟨e, he⟩
  · exact .inl ((ofText_text_eq_ok_iff f).2 h)
  · refine .inr ⟨e, ?_⟩
    rw [ofText_text]
    exact congrArg (Except.mapError Error.parse) he

/-- A formula that was read is read again from its printed form exactly if that nests at most 256
deep; else the parser finds it too deep. -/
theorem ofText_text_iff_nesting_le (h : ofText s = .ok f) :
    (ofText f.text = .ok f ↔ f.nesting ≤ 256) ∧
      (f.nesting ≤ 256 ∨ ∃ stop, ofText f.text = .error (.parse (.tooDeep stop))) := by
  have hu := unreserved_of_ofText h
  refine ⟨?_, ?_⟩
  · rw [ofText_text_eq_ok_iff, ofTokens_tokenize_text_eq_ok_iff, and_iff_left hu]
  · by_cases hn : f.nesting ≤ 256
    · exact .inl hn
    · exact .inr (ofText_text_of_lt (Nat.not_le.1 hn) hu)

/-- A variable behind as many negations. -/
def negated (count : Nat) : Formula := negate count (atom ⟨"A", by decide⟩)

/-- The shortest text of it. -/
def negatedText (count : Nat) : String := String.ofList (List.replicate count '!' ++ ['A'])

theorem ofSymbols_replicate (count : Nat) :
    ofSymbols (List.replicate count '!') = List.replicate count (.op .not) := by
  induction count with
  | zero => exact ofSymbols_nil
  | succ count ih =>
    have hfound : symbolAt? ('!' :: List.replicate count '!') = some ("!", .not) := rfl
    rw [List.replicate_succ, List.replicate_succ, ofSymbols_of_symbolAt? hfound, ← ih]
    rfl

theorem tokenize_negatedText (count : Nat) :
    tokenize (negatedText count) = List.replicate count (.op .not) ++ [.ident "A"] := by
  have hclass : ∀ c ∈ List.replicate count '!', CharClass.of c = .symbol := fun c hc => by
    rw [List.eq_of_mem_replicate hc]
    decide
  have hword : ∀ d ∈ ['A'].head?, CharClass.of d ≠ .symbol := fun d hd => by
    cases hd
    decide
  rw [tokenize, negatedText, String.toList_ofList, ofChars_run_append hclass hword,
    ofChars_symbols hclass, ofSymbols_replicate]
  rfl

theorem writes_negatedText (count : Nat) :
    Grammar.Writes (tokenize (negatedText count)) (negated count) (0 + count) := by
  have hd : Grammar.Derives .unary _ (negated count) (0 + count) :=
    (Grammar.Derives.name ⟨"A", by decide⟩).bare.negate count
  rw [tokenize_negatedText]
  exact (hd.single (j := .and)).writes

/-- The text takes one level for each negation. -/
theorem ofText_negatedText {count : Nat} (h : count ≤ 256) :
    ofText (negatedText count) = .ok (negated count) :=
  ofText_of_ofTokens ((writes_negatedText count).ofTokens_eq (by rwa [Nat.zero_add]))

/-- A formula that was read and nests deep enough is read again. -/
theorem negated_two_read_again :
    ofText (negatedText 2) = .ok (negated 2) ∧ ofText (negated 2).text = .ok (negated 2) :=
  have h : ofText (negatedText 2) = .ok (negated 2) := ofText_negatedText (by decide)
  ⟨h, (ofText_text_iff_nesting_le h).1.2 (by decide)⟩

/-- With 129 negations the text is read, but what is printed is not. -/
theorem negated_129_not_read_again :
    ofText (negatedText 129) = .ok (negated 129) ∧
      ∃ stop, ofText (negated 129).text = .error (.parse (.tooDeep stop)) := by
  refine ⟨ofText_negatedText (by decide), ofText_text_of_lt ?_ ?_⟩
  · rw [negated, nesting_negate]
    decide
  · intro v hv
    rw [negated, leaves_negate] at hv
    obtain rfl := List.mem_singleton.1 hv
    decide

end Propositional.Formula
