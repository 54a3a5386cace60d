import Propositional.Proofs.Token.Lexeme

/-!
# Spellings of a list of tokens

Tokens may be written with any spelling of a connective and any blanks, some at least between two of
them, and they are read back as they were. An identifier can be written if its text is read as that
identifier alone. All identifiers that the lexer finds are such, so the line of the tokens of a text
has the tokens of the text.
-/

namespace Propositional.Token

open Text

/-- A text of the token alone. -/
inductive Spells : Token → List Char → Prop where
  | lparen : Spells lparen ['(']
  | rparen : Spells rparen [')']
  | op {c : Connective} {letters : List Char} :
      Connective.ofLetters? letters = some c → Spells (op c) letters
  | ident {name : String} : tokenize name = [ident name] → Spells (ident name) name.toList

/-- A text of the tokens that begins with the first one. -/
inductive Spelled : List Token → List Char → Prop where
  | nil : Spelled [] []
  | cons {t : Token} {ts : List Token} {letters gap text : List Char} : Spells t letters →
      (∀ c ∈ gap, isBlank c = true) → (ts ≠ [] → gap ≠ []) → Spelled ts text →
      Spelled (t :: ts) (letters ++ (gap ++ text))

theorem ofChars_of_ofLetters? {letters : List Char} {c : Connective}
    (h : Connective.ofLetters? letters = some c) : ofChars letters = [op c] := by
  rcases Connective.classes_of_ofLetters? h with hword | ⟨hsym, -⟩
  · have hne : letters ≠ [] := by
      rintro rfl
      rw [Connective.ofLetters?_nil] at h
      cases h
    rw [ofChars_word hne hword, ofWord, h]
  · have hend : ∀ a, letters = [a] → ∀ b ∈ ([] : List Char).head?,
        Connective.ofLetters? [a, b] = none := by
      intro a _ b hb
      cases hb
    have hop : ofChars (letters ++ []) = [op c] := ofChars_append_of_spelled hsym h hend
    rwa [List.append_nil] at hop

/-- The characters of an identifier stand in a run, and blanks are no identifiers. -/
theorem of_ne_blank_of_ident_mem {cs : List Char} {name : String} (h : ident name ∈ ofChars cs) :
    ∀ c ∈ name.toList, CharClass.of c ≠ .blank := by
  intro c hc hb
  obtain ⟨r, hr, hmem⟩ := List.mem_flatMap.1 h
  have hclass := Run.uniform_of_mem_ofChars hr c (mem_of_ident_mem_ofRun hmem c hc)
  rw [ofRun_of_blank (hclass.symm.trans hb)] at hmem
  cases hmem

/-- A token is read from each of its spellings, none of which has blanks. -/
theorem Spells.ofChars_eq {t : Token} {letters : List Char} (h : Spells t letters) :
    ofChars letters = [t] ∧ ∀ c ∈ letters, CharClass.of c ≠ .blank := by
  cases h with
  | lparen | rparen => exact ⟨by decide, List.forall_mem_singleton.2 (by decide)⟩
  | op h =>
    refine ⟨ofChars_of_ofLetters? h, fun c hc => ?_⟩
    rcases Connective.classes_of_ofLetters? h with hword | ⟨hsym, -⟩
    · rw [hword c hc]
      exact nofun
    · rw [hsym c hc]
      exact nofun
  | ident h => exact ⟨h, of_ne_blank_of_ident_mem (h ▸ List.mem_singleton_self _)⟩

theorem Spelled.ofChars_eq {ts : List Token} {text : List Char} (h : Spelled ts text) :
    ofChars text = ts := by
  induction h with
  | nil => rfl
  | @cons t ts letters gap text hspells hgap hsep htext ih =>
    obtain ⟨hletters, -⟩ := hspells.ofChars_eq
    have hseam : ∀ c ∈ letters.getLast?, ∀ d ∈ (gap ++ text).head?, Seam c d := by
      intro c _ d hd
      cases gap with
      | cons b gap =>
        cases hd
        have hblank : CharClass.of d = .blank :=
          CharClass.of_eq_blank_iff.2 (hgap d List.mem_cons_self)
        exact .inr (.inl (by rw [hblank]; rfl))
      | nil =>
        obtain rfl : ts = [] := by
          by_contra hne
          exact hsep hne rfl
        cases htext
        cases hd
    rw [ofChars_append_of_seam hseam, hletters, ofChars_blanks_append hgap, ih]
    rfl

/-! ## The line of the tokens of a text -/

theorem Lexeme.ofChars_eq {before after chars : List Char} (h : Lexeme before after chars) :
    ofChars chars = [ofLexeme chars] := by
  have halone : Lexeme [] [] chars := by
    cases h with
    | opening => exact .opening
    | closing => exact .closing
    | run hk hne hall => exact .run hk hne hall nofun nofun
    | connective hall hspelled => exact .connective hall hspelled fun _ _ => nofun
    | unspelled hall hone htwo => exact .unspelled hall hone htwo nofun
  have := halone.ofChars_append
  rwa [List.append_nil] at this

theorem toList_of_ofLexeme {chars : List Char} {name : String} (h : ofLexeme chars = ident name) :
    name.toList = chars := by
  unfold ofLexeme at h
  split at h
  · cases h
  · split at h
    · cases h
    · exact (ofWord_eq_ident h).2

theorem Sliced.exists_lexeme {before cs : List Char} {slices : List Slice}
    (h : Sliced before slices cs) : ∀ p ∈ slices, ∃ left right, Lexeme left right p.chars := by
  induction h with
  | last _ => exact nofun
  | cons hl _ ih => exact List.forall_mem_cons.2 ⟨⟨_, _, hl⟩, ih⟩

/-- An identifier that the lexer finds is read as itself. -/
theorem tokenize_of_ident_mem {s name : String} (h : ident name ∈ tokenize s) :
    tokenize name = [ident name] := by
  obtain ⟨slices, hs, hts⟩ := exists_sliced_tokenize s
  rw [hts] at h
  obtain ⟨p, hp, htoken⟩ := List.mem_map.1 h
  obtain ⟨left, right, hl⟩ := hs.exists_lexeme p hp
  rw [tokenize, toList_of_ofLexeme htoken, hl.ofChars_eq]
  exact congrArg (fun t => [t]) htoken

theorem spells_text_of_mem {s : String} {t : Token} (h : t ∈ tokenize s) :
    Spells t t.text.toList := by
  cases t with
  | lparen => exact .lparen
  | rparen => exact .rparen
  | op c => exact .op (Connective.ofLetters?_word c)
  | ident name => exact .ident (tokenize_of_ident_mem h)

/-- Whatever way tokens are spelled, they are read back, and the line of the tokens of a text has the
tokens of the text. -/
theorem tokenize_of_spelled :
    (∀ (ts : List Token) (gap text : List Char), (∀ c ∈ gap, isBlank c = true) →
      Spelled ts text → tokenize (String.ofList (gap ++ text)) = ts) ∧
      ∀ s, tokenize (line (tokenize s)) = tokenize s := by
  refine ⟨fun ts gap text hgap h => ?_, fun s => ?_⟩
  · rw [tokenize, String.toList_ofList, ofChars_blanks_append hgap, h.ofChars_eq]
  · have hread : ∀ t ∈ tokenize s, ofChars t.text.toList = [id t] ∧
        ∀ c ∈ t.text.toList, CharClass.of c ≠ .blank := fun t ht =>
      (spells_text_of_mem ht).ofChars_eq
    rw [tokenize_line_eq_map hread, List.map_id]

/-- A word in mixed case, the longer symbol of implication, and an identifier of symbols, with blanks
of three kinds. -/
def mixedSpelling : List Char :=
  ['n', 'O', 't'] ++ (['\t', ' '] ++ ("Ω".toList ++ ([' '] ++ (['=', '>'] ++ (['\n'] ++
    ("=<".toList ++ ([' '] ++ [])))))))

theorem tokenize_of_spelled_mixed :
    Spelled [op .not, ident "Ω", op (.binary .implies), ident "=<"] mixedSpelling ∧
      tokenize " nOt\t Ω =>\n=< " = [op .not, ident "Ω", op (.binary .implies), ident "=<"] ∧
      tokenize (line (tokenize "nOt Ω=>(=<")) = tokenize "nOt Ω=>(=<" := by
  have hspace : ∀ c ∈ [' '], isBlank c = true := List.all_eq_true.1 (by decide)
  have hspelled :
      Spelled [op .not, ident "Ω", op (.binary .implies), ident "=<"] mixedSpelling :=
    .cons (.op (by decide)) (List.all_eq_true.1 (by decide)) (fun _ => List.cons_ne_nil _ _)
      (.cons (.ident (by decide +kernel)) hspace (fun _ => List.cons_ne_nil _ _)
        (.cons (.op (by decide)) (List.all_eq_true.1 (by decide)) (fun _ => List.cons_ne_nil _ _)
          (.cons (.ident (by decide +kernel)) hspace (fun _ => List.cons_ne_nil _ _) .nil)))
  exact ⟨hspelled, tokenize_of_spelled.1 _ [' '] _ hspace hspelled,
    tokenize_of_spelled.2 "nOt Ω=>(=<"⟩

end Propositional.Token
