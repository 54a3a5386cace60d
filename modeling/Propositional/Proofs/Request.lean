import Mathlib.Algebra.Group.Nat.Defs
import Propositional.Request

/-!
# What can be asked for

A limit that has been read is a 64-bit number, and that is all the words of a command line impose on
what the program is asked to work on: whatever the texts are, some words ask for them. For this the
options are given with equals signs, and the formula behind `--`.
-/

namespace Propositional

namespace Text

theorem ofDigits_toDigits (n : Nat) : ofDigits (Nat.toDigits 10 n) = n :=
  Nat.ofDigitChars_eq_foldl.symm.trans Nat.ofDigitChars_ten_toDigits

theorem lt_of_word64? {s : String} {n : Nat} (h : word64? s = some n) : n < 2 ^ 64 := by
  simp only [word64?] at h
  split at h
  · rename_i hdigits
    cases h
    exact hdigits.2.2
  · cases h

/-- A number below 2⁶⁴ is read from its digits. -/
theorem word64?_toString {n : Nat} (h : n < 2 ^ 64) : word64? (toString n) = some n := by
  have hdigit : ∀ c ∈ Nat.toDigits 10 n, c.isDigit = true := fun c =>
    Nat.isDigit_of_mem_toDigits (by decide) (by decide)
  have hsign : unsigned (Nat.toDigits 10 n) = Nat.toDigits 10 n := by
    unfold unsigned
    split
    · rename_i cs hcs
      exact absurd (hdigit '+' (hcs ▸ List.mem_cons_self)) (by decide)
    · rfl
  rw [word64?, Nat.toString_eq_ofList_toDigits, String.toList_ofList, hsign, ofDigits_toDigits]
  exact if_pos ⟨Nat.toDigits_ne_nil, List.all_eq_true.2 hdigit, h⟩

end Text

namespace Request

open Text

variable {args : Arguments} {words : List String} {d d' : Draft} {key : Key} {value : String}

namespace Draft

/-- The limit that has been read, if any, is a 64-bit number. -/
def Fits (d : Draft) : Prop := ∀ n ∈ d.maxVars, n < 2 ^ 64

theorem Fits.set (h : d.Fits) (hset : d.set key value = some d') : d'.Fits := by
  cases key with
  | assign =>
    simp only [Draft.set] at hset
    split at hset
    · cases hset
      exact h
    · cases hset
  | maxVars =>
    simp only [Draft.set] at hset
    split at hset
    · obtain ⟨n, hn, rfl⟩ := Option.map_eq_some_iff.1 hset
      intro m hm
      cases hm
      exact lt_of_word64? hn
    · cases hset

theorem Fits.setFormula (h : d.Fits) (hset : d.setFormula value = some d') : d'.Fits := by
  simp only [Draft.setFormula] at hset
  split at hset
  · cases hset
    exact h
  · cases hset

theorem Fits.request (h : d.Fits) (hrun : d.request = .run args) : args.maxVars < 2 ^ 64 := by
  unfold Draft.request at hrun
  split at hrun
  · cases hrun
    cases hmax : d.maxVars with
    | none => simp
    | some n => exact h n hmax
  · cases hrun

theorem Fits.readPlain (h : d.Fits) (hrun : d.readPlain words = .run args) :
    args.maxVars < 2 ^ 64 := by
  induction words generalizing d with
  | nil => exact h.request hrun
  | cons word words ih =>
    rw [Draft.readPlain] at hrun
    split at hrun
    · rename_i d' hset
      exact ih (h.setFormula hset) hrun
    · cases hrun

/-- Reading on keeps the limit a 64-bit number. -/
theorem Fits.read (h : d.Fits) (hrun : d.read words = .run args) : args.maxVars < 2 ^ 64 := by
  -- A branch that reads on has set one field, and the others end with another request.
  fun_induction Draft.read d words with
  | case1 => exact h.request hrun
  | case2 d word words _ d' hset ih => exact ih (h.setFormula hset) hrun
  | case4 d word words key value _ d' hset ih => exact ih (h.set hset) hrun
  | case6 d word key value words _ d' hset _ ih => exact ih (h.set hset) hrun
  | case10 d word words => exact h.readPlain hrun
  | case3 | case5 | case7 | case8 | case9 | case11 => cases hrun

end Draft

/-! ## Words that ask for given arguments -/

/-- An option with its value behind an equals sign. -/
def Key.word (key : Key) (value : String) : String := "--" ++ key.name ++ "=" ++ value

theorem ofChars_word (key : Key) (value : String) :
    Word.ofChars (key.word value).toList = .option key (some value) := by
  have hword : (key.word value).toList =
      '-' :: '-' :: (key.name.toList ++ '=' :: value.toList) := by simp [Key.word]
  have hne : key.name.toList ++ '=' :: value.toList ≠ [] := by simp
  have hsplit : splitOnce? '=' (key.name.toList ++ '=' :: value.toList) =
      some (key.name.toList, value.toList) := splitOnce?_append (by cases key <;> decide) _
  rw [hword, Word.ofChars.eq_2 _ hne, hsplit]
  simp only [String.ofList_toList]
  cases key <;> rfl

theorem read_word (hset : d.set key value = some d') :
    d.read (key.word value :: words) = d'.read words := by
  rw [Draft.read.eq_def]
  simp only [ofChars_word, hset]

theorem read_last : d.read ("--" :: words) = d.readPlain words := by
  have hword : Word.ofChars "--".toList = .last := by decide
  rw [Draft.read.eq_def]
  simp only [hword]

/-- The words that give every option its value. -/
def wordsOf (args : Arguments) : List String :=
  (args.assign.map Key.assign.word).toList ++
    [Key.maxVars.word (toString args.maxVars), "--", args.formula]

theorem read_limit_formula {n : Nat} {formula : String} (hformula : d.formula = none)
    (hlimit : d.maxVars = none) (h : n < 2 ^ 64) :
    d.read [Key.maxVars.word (toString n), "--", formula] =
      .run { formula, assign := d.assign, maxVars := n } := by
  have hset : d.set .maxVars (toString n) = some { d with maxVars := some n } := by
    rw [Draft.set, if_pos hlimit, word64?_toString h]
    rfl
  rw [read_word hset, read_last, Draft.readPlain, Draft.setFormula, if_pos hformula]
  rfl

theorem ofWords_wordsOf (h : args.maxVars < 2 ^ 64) : ofWords (wordsOf args) = .run args := by
  obtain ⟨formula, assign, maxVars⟩ := args
  cases assign with
  | none => exact read_limit_formula rfl rfl h
  | some assign => exact (read_word rfl).trans (read_limit_formula rfl rfl h)

/-- What the program can be asked to work on is everything with a 64-bit limit. -/
theorem exists_ofWords_eq_run_iff :
    (∃ words, ofWords words = .run args) ↔ args.maxVars < 2 ^ 64 := by
  refine ⟨fun ⟨_, h⟩ => Draft.Fits.read (d := {}) ?_ h, fun h => ⟨_, ofWords_wordsOf h⟩⟩
  intro n hn
  cases hn

/-- Options may stand behind the formula and have their values in the next word. -/
example : ofWords ["A & !B", "--assign", "A:1;B:0"] =
    .run { formula := "A & !B", assign := some "A:1;B:0" } := by decide +kernel

end Request

end Propositional
