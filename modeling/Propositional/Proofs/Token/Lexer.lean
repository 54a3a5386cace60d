import Propositional.Token.Lexer
import Propositional.Variable

/-!
# Tokens of a text in pieces

Where the character class changes, a text may be cut in two: its runs, and hence its tokens, are
those of the two pieces. So a line of tokens with blanks between them is read token by token. Each
comes back as it was but for identifiers, which the text does not tell from connectives:
`Token.reread` is the token that is read.
-/

namespace Propositional

open Text

/-- No token has more than one character of the class. -/
def Text.CharClass.isBreak : CharClass → Bool
  | blank | opening | closing => true
  | word | symbol | other => false

namespace Run

/-- Each character of a text stands in a run. -/
theorem mem_iff {c : Char} {cs : List Char} : c ∈ cs ↔ ∃ r ∈ ofChars cs, c ∈ r.chars := by
  rw [← List.mem_flatMap, flatMap_ofChars]

theorem attach_append (c : Char) {rs : List Run} (h : rs ≠ []) (ss : List Run) :
    attach c (rs ++ ss) = attach c rs ++ ss := by
  cases rs with
  | nil => exact absurd rfl h
  | cons r rs =>
    simp only [List.cons_append, attach]
    split <;> rfl

theorem ofChars_cons (c : Char) (cs : List Char) :
    ∃ tail rs, ofChars (c :: cs) = ⟨c, tail⟩ :: rs := by
  show ∃ tail rs, attach c (ofChars cs) = ⟨c, tail⟩ :: rs
  unfold attach
  split
  · exact ⟨[], [], rfl⟩
  · split
    · exact ⟨_, _, rfl⟩
    · exact ⟨[], _, rfl⟩

theorem ofChars_cons_ne_nil (c : Char) (cs : List Char) : ofChars (c :: cs) ≠ [] := by
  obtain ⟨tail, rs, h⟩ := ofChars_cons c cs
  rw [h]
  exact List.cons_ne_nil _ _

/-- No run goes across a change of class. -/
theorem ofChars_append {cs ds : List Char}
    (h : ∀ c ∈ cs.getLast?, ∀ d ∈ ds.head?, CharClass.of c ≠ CharClass.of d) :
    ofChars (cs ++ ds) = ofChars cs ++ ofChars ds := by
  induction cs with
  | nil => rfl
  | cons c cs ih =>
    show attach c (ofChars (cs ++ ds)) = attach c (ofChars cs) ++ ofChars ds
    cases cs with
    | nil =>
      cases ds with
      | nil => rfl
      | cons d ds =>
        obtain ⟨tail, rs, hd⟩ := ofChars_cons d ds
        have hne : CharClass.of c ≠ CharClass.of d := h c rfl d rfl
        rw [List.nil_append, hd, attach, if_neg (by exact hne)]
        rfl
    | cons c' cs =>
      rw [ih (by simpa [List.getLast?_cons_cons] using h),
        attach_append c (ofChars_cons_ne_nil c' cs)]

/-- A text of one class is one run. -/
theorem ofChars_of_forall {c : Char} {cs : List Char}
    (h : ∀ d ∈ cs, CharClass.of d = CharClass.of c) : ofChars (c :: cs) = [⟨c, cs⟩] := by
  induction cs generalizing c with
  | nil => rfl
  | cons d cs ih =>
    have hd : CharClass.of d = CharClass.of c := h d List.mem_cons_self
    have hcs : ofChars (d :: cs) = [⟨d, cs⟩] :=
      ih fun e he => (h e (List.mem_cons_of_mem d he)).trans hd.symm
    show attach c (ofChars (d :: cs)) = _
    rw [hcs]
    exact if_pos hd.symm

end Run

namespace Token

theorem ofChars_append {cs ds : List Char}
    (h : ∀ c ∈ cs.getLast?, ∀ d ∈ ds.head?, CharClass.of c ≠ CharClass.of d) :
    ofChars (cs ++ ds) = ofChars cs ++ ofChars ds := by
  rw [ofChars, Run.ofChars_append h, List.flatMap_append, ofChars, ofChars]

theorem ofRun_of_blank {r : Run} (h : r.charClass = .blank) : ofRun r = [] := by
  simp [ofRun, h]

/-- A run of breaks is read break by break. -/
theorem ofRun_cons_of_isBreak {c : Char} {r : Run} (hc : CharClass.of c = r.charClass)
    (h : r.charClass.isBreak = true) : ofRun ⟨c, r.chars⟩ = ofRun ⟨c, []⟩ ++ ofRun r := by
  have hclass (tail : List Char) : (Run.mk c tail).charClass = r.charClass := hc
  simp only [ofRun, hclass]
  cases hr : r.charClass with
  | blank | opening | closing => rfl
  | word | symbol | other =>
    rw [hr] at h
    cases h

/-- A break is read alone. -/
theorem ofChars_cons_of_isBreak {c : Char} (h : (CharClass.of c).isBreak = true)
    (cs : List Char) : ofChars (c :: cs) = ofRun ⟨c, []⟩ ++ ofChars cs := by
  show (Run.attach c (Run.ofChars cs)).flatMap ofRun = _ ++ (Run.ofChars cs).flatMap ofRun
  cases Run.ofChars cs with
  | nil => rfl
  | cons r rs =>
    rw [Run.attach]
    split
    · rename_i hc
      rw [List.flatMap_cons, List.flatMap_cons, ofRun_cons_of_isBreak hc (hc ▸ h),
        List.append_assoc]
    · rfl

theorem ofChars_blank {c : Char} (h : CharClass.of c = .blank) (cs : List Char) :
    ofChars (c :: cs) = ofChars cs := by
  have hnil : ofRun ⟨c, []⟩ = [] := ofRun_of_blank h
  rw [ofChars_cons_of_isBreak (by rw [h]; rfl), hnil, List.nil_append]

theorem ofChars_run_append {k : CharClass} {cs ds : List Char} (hc : ∀ c ∈ cs, CharClass.of c = k)
    (hd : ∀ d ∈ ds.head?, CharClass.of d ≠ k) : ofChars (cs ++ ds) = ofChars cs ++ ofChars ds :=
  ofChars_append fun c h d h' he => hd d h' (he.symm.trans (hc c (List.mem_of_getLast? h)))

theorem ofChars_run {k : CharClass} {c : Char} {cs : List Char}
    (h : ∀ d ∈ c :: cs, CharClass.of d = k) : ofChars (c :: cs) = ofRun ⟨c, cs⟩ := by
  have hc := h c List.mem_cons_self
  rw [ofChars, Run.ofChars_of_forall fun d hd => (h d (List.mem_cons_of_mem c hd)).trans hc.symm]
  exact List.append_nil _

theorem ofChars_word {cs : List Char} (hne : cs ≠ []) (h : ∀ c ∈ cs, CharClass.of c = .word) :
    ofChars cs = [ofWord cs] := by
  cases cs with
  | nil => exact absurd rfl hne
  | cons c cs =>
    rw [ofChars_run h]
    simp [ofRun, Run.charClass, h c List.mem_cons_self, Run.chars]

theorem ofChars_symbols {cs : List Char} (h : ∀ c ∈ cs, CharClass.of c = .symbol) :
    ofChars cs = ofSymbols cs := by
  cases cs with
  | nil => exact ofSymbols_nil.symm
  | cons c cs =>
    rw [ofChars_run h]
    simp [ofRun, Run.charClass, h c List.mem_cons_self, Run.chars]

theorem ofWord_eq_ident {cs : List Char} {name : String} (h : ofWord cs = ident name) :
    Connective.ofLetters? cs = none ∧ name.toList = cs := by
  unfold ofWord at h
  split at h
  · cases h
  · rename_i hc
    cases h
    exact ⟨hc, String.toList_ofList⟩

theorem mem_of_ident_mem_ofSymbols {cs : List Char} {name : String}
    (h : ident name ∈ ofSymbols cs) : ∀ c ∈ name.toList, c ∈ cs := by
  fun_induction ofSymbols cs with
  | case1 => cases h
  | case2 c cs s hs _ ih =>
    rcases List.mem_cons.1 h with h | h
    · cases h
    · exact fun d hd => List.mem_of_mem_drop (ih h d hd)
  | case3 c cs hs =>
    cases List.mem_singleton.1 h
    rw [String.toList_ofList]
    exact fun d hd => hd

/-- The characters of an identifier stand in its run. -/
theorem mem_of_ident_mem_ofRun {r : Run} {name : String} (h : ident name ∈ ofRun r) :
    ∀ c ∈ name.toList, c ∈ r.chars := by
  unfold ofRun at h
  split at h
  · cases h
  · simp at h
  · simp at h
  · rw [(ofWord_eq_ident (List.mem_singleton.1 h).symm).2]
    exact fun c hc => hc
  · exact mem_of_ident_mem_ofSymbols h
  · cases List.mem_singleton.1 h
    rw [String.toList_ofList]
    exact fun c hc => hc

theorem ofRun_eq_nil_iff {r : Run} : ofRun r = [] ↔ r.charClass = .blank := by
  refine ⟨fun h => ?_, ofRun_of_blank⟩
  have hsymbols : ofSymbols r.chars ≠ [] := by
    rw [Run.chars, ofSymbols]
    split
    · exact List.cons_ne_nil _ _
    · exact List.cons_ne_nil _ _
  rw [ofRun] at h
  cases hc : r.charClass with
  | blank => rfl
  | symbol =>
    rw [hc] at h
    exact absurd h hsymbols
  | opening | closing | word | other =>
    rw [hc] at h
    cases h

/-- A text without tokens is blank. -/
theorem ofChars_eq_nil_iff {cs : List Char} :
    ofChars cs = [] ↔ ∀ c ∈ cs, CharClass.of c = .blank := by
  rw [ofChars, List.flatMap_eq_nil_iff]
  constructor
  · intro h c hc
    obtain ⟨r, hr, hc⟩ := Run.mem_iff.1 hc
    exact (Run.uniform_of_mem_ofChars hr c hc).trans (ofRun_eq_nil_iff.1 (h r hr))
  · intro h r hr
    exact ofRun_eq_nil_iff.2 (h r.head (Run.mem_iff.2 ⟨r, hr, List.mem_cons_self⟩))

theorem length_ofSymbols_le (cs : List Char) : (ofSymbols cs).length ≤ cs.length := by
  fun_induction ofSymbols cs with
  | case1 => exact Nat.le_refl 0
  | case2 c cs s hs hlt ih => exact Nat.succ_le_of_lt (Nat.lt_of_le_of_lt ih hlt)
  | case3 c cs hs => exact Nat.succ_le_succ (Nat.zero_le _)

theorem length_ofRun_le (r : Run) : (ofRun r).length ≤ r.chars.length := by
  have hpos : 1 ≤ r.chars.length := Nat.succ_le_succ (Nat.zero_le _)
  rw [ofRun]
  cases r.charClass with
  | blank => exact Nat.zero_le _
  | opening | closing => exact Nat.le_of_eq (List.length_map _)
  | word | other => exact hpos
  | symbol => exact length_ofSymbols_le _

/-- Each token of a text takes a character at least. -/
theorem length_ofChars_le (cs : List Char) : (ofChars cs).length ≤ cs.length := by
  have hruns : ∀ rs : List Run, (rs.flatMap ofRun).length ≤ (rs.flatMap Run.chars).length := by
    intro rs
    induction rs with
    | nil => exact Nat.le_refl 0
    | cons r rs ih =>
      rw [List.flatMap_cons, List.flatMap_cons, List.length_append, List.length_append]
      exact Nat.add_le_add (length_ofRun_le r) ih
  calc (ofChars cs).length ≤ ((Run.ofChars cs).flatMap Run.chars).length := hruns _
    _ = cs.length := by rw [Run.flatMap_ofChars]

theorem length_toList_le_utf8ByteSize (s : String) : s.toList.length ≤ s.utf8ByteSize := by
  rw [← String.ofList_toList (s := s)]
  generalize s.toList = cs
  rw [String.toList_ofList]
  induction cs with
  | nil => exact Nat.zero_le _
  | cons c cs ih =>
    have hc := c.utf8Size_pos
    rw [String.ofList_cons, String.utf8ByteSize_append, String.utf8ByteSize_singleton,
      List.length_cons]
    omega

/-- A text has no more tokens than bytes. -/
theorem length_tokenize_le (s : String) : (tokenize s).length ≤ s.utf8ByteSize :=
  Nat.le_trans (length_ofChars_le s.toList) (length_toList_le_utf8ByteSize s)

/-- A name among the tokens of a text spells no connective. -/
theorem ofLetters?_of_ident_mem {s name : String} (hn : IsName name)
    (h : ident name ∈ tokenize s) : Connective.ofLetters? name.toList = none := by
  obtain ⟨r, hr, h⟩ := List.mem_flatMap.1 h
  obtain ⟨c, hc⟩ := List.exists_mem_of_ne_nil _ hn.1
  have hw : r.charClass = .word := by
    rw [← Run.uniform_of_mem_ofChars hr c (mem_of_ident_mem_ofRun h c hc)]
    exact CharClass.of_eq_word_iff.2 (hn.2 c hc)
  rw [ofRun, hw] at h
  obtain ⟨hl, hname⟩ := ofWord_eq_ident (List.mem_singleton.1 h).symm
  rw [hname, hl]

/-- The token that the text of a token is read as. -/
def reread : Token → Token
  | ident name => ofWord name.toList
  | t => t

theorem ofWord_word (c : Connective) : ofWord c.word.toList = op c := by
  simp only [ofWord, Connective.ofLetters?_word]

theorem isWord_word (c : Connective) : c.word.toList.all isWord = true := by
  cases c with
  | not => decide
  | binary j => cases j <;> decide

theorem of_word (c : Connective) : ∀ d ∈ c.word.toList, CharClass.of d = .word := fun d hd =>
  CharClass.of_eq_word_iff.2 (List.all_eq_true.1 (isWord_word c) d hd)

theorem word_ne_nil (c : Connective) : c.word.toList ≠ [] := by
  cases c with
  | not => decide
  | binary j => cases j <;> decide

/-- An identifier in the tokens is a name. -/
def Named (ts : List Token) : Prop := ∀ name, ident name ∈ ts → IsName name

theorem Named.singleton {t : Token} {ts : List Token} (h : Named ts) (ht : t ∈ ts) : Named [t] :=
  fun name hn => h name (List.mem_singleton.1 hn ▸ ht)

theorem Named.head {t : Token} {ts : List Token} (h : Named (t :: ts)) : Named [t] :=
  h.singleton List.mem_cons_self

theorem Named.tail {t : Token} {ts : List Token} (h : Named (t :: ts)) : Named ts :=
  fun name hn => h name (List.mem_cons_of_mem t hn)

theorem Named.append {ts us : List Token} (h : Named ts) (k : Named us) : Named (ts ++ us) :=
  fun name hn => (List.mem_append.1 hn).elim (h name) (k name)

theorem Named.cons_op {c : Connective} {ts : List Token} (h : Named ts) : Named (op c :: ts) :=
  fun name hn => h name (by simpa using hn)

/-- A token is read alone: its characters are of one class, no blanks, and they are one token. -/
theorem ofChars_text {t : Token} (h : Named [t]) :
    ofChars t.text.toList = [t.reread] ∧ ∀ c ∈ t.text.toList, CharClass.of c ≠ .blank := by
  cases t with
  | lparen =>
    refine ⟨by decide, fun d hd => ?_⟩
    obtain rfl : d = '(' := List.mem_singleton.1 hd
    decide
  | rparen =>
    refine ⟨by decide, fun d hd => ?_⟩
    obtain rfl : d = ')' := List.mem_singleton.1 hd
    decide
  | op c =>
    refine ⟨?_, fun d hd => by simp [of_word c d hd]⟩
    rw [text, ofChars_word (word_ne_nil c) (of_word c), ofWord_word]
    rfl
  | ident name =>
    obtain ⟨hne, hn⟩ := h name List.mem_cons_self
    have hw : ∀ c ∈ name.toList, CharClass.of c = .word :=
      fun c hc => CharClass.of_eq_word_iff.2 (hn c hc)
    exact ⟨ofChars_word hne hw, fun d hd => by simp [hw d hd]⟩

/-- The tokens, each with a blank in front. -/
def spaced (ts : List Token) : List Char := ts.flatMap fun t => ' ' :: t.text.toList

theorem spaced_cons (t : Token) (ts : List Token) :
    spaced (t :: ts) = ' ' :: (t.text.toList ++ spaced ts) := rfl

theorem cons_toList_line {ts : List Token} (h : ts ≠ []) :
    ' ' :: (line ts).toList = spaced ts := by
  induction ts with
  | nil => exact absurd rfl h
  | cons t ts ih =>
    rw [spaced_cons, line, List.map_cons]
    cases ts with
    | nil => simp [spaced]
    | cons u ts =>
      rw [← ih (List.cons_ne_nil u ts), List.map_cons, String.intercalate_cons_cons, line,
        List.map_cons]
      simp

theorem of_head?_spaced (ts : List Token) : ∀ d ∈ (spaced ts).head?, CharClass.of d = .blank := by
  cases ts with
  | nil => exact nofun
  | cons t ts =>
    intro d hd
    obtain rfl : ' ' = d := by simpa [spaced] using hd
    decide

section

variable {read : Token → Token} {ts : List Token}
  (h : ∀ t ∈ ts, ofChars t.text.toList = [read t] ∧ ∀ c ∈ t.text.toList, CharClass.of c ≠ .blank)

include h

theorem ofChars_spaced : ofChars (spaced ts) = ts.map read := by
  induction ts with
  | nil => rfl
  | cons t ts ih =>
    obtain ⟨⟨ht, hb⟩, hts⟩ := List.forall_mem_cons.1 h
    have hcut : ∀ c ∈ t.text.toList.getLast?, ∀ d ∈ (spaced ts).head?,
        CharClass.of c ≠ CharClass.of d := fun c hc d hd => by
      rw [of_head?_spaced ts d hd]
      exact hb c (List.mem_of_getLast? hc)
    rw [spaced_cons, ofChars_blank (by decide), ofChars_append hcut, ht, ih hts]
    rfl

/-- A line of tokens is read token by token. -/
theorem tokenize_line_eq_map : tokenize (line ts) = ts.map read := by
  cases ts with
  | nil => rfl
  | cons t ts =>
    rw [tokenize, ← ofChars_spaced h, ← cons_toList_line (List.cons_ne_nil t ts),
      ofChars_blank (by decide)]

end

theorem tokenize_line {ts : List Token} (h : Named ts) : tokenize (line ts) = ts.map reread :=
  tokenize_line_eq_map fun _ ht => ofChars_text (h.singleton ht)

end Token

end Propositional
