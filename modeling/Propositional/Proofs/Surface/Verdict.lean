import Mathlib.Data.List.Induction
import Propositional.Proofs.Surface

/-!
# The verdict on a text

Which texts have the surface of a formula, and what is wrong with the others, can be said without the
scan: by the characters of a text and by how many parentheses of either kind its beginnings have.
`Proper` beginnings violate nothing; the first character that does is the error. A scan over a
proper beginning only moves on, which is all that the verdict needs to know of it.
-/

namespace Propositional

namespace Text

/-- The characters that a formula may have. -/
def IsAllowed (c : Char) : Prop :=
  isBlank c = true ∨ c = '(' ∨ c = ')' ∨ isWord c = true ∨ isSymbol c = true

theorem CharClass.of_ne_other_iff {c : Char} : of c ≠ .other ↔ IsAllowed c := by
  unfold CharClass.of IsAllowed
  repeat' split
  all_goals simp_all

/-- The bytes of a text in UTF-8. -/
def byteLength (cs : List Char) : Nat := (String.ofList cs).utf8ByteSize

theorem byteLength_cons (c : Char) (cs : List Char) :
    byteLength (c :: cs) = c.utf8Size + byteLength cs := by
  rw [byteLength, String.ofList_cons, String.utf8ByteSize_append, String.utf8ByteSize_singleton,
    byteLength]

end Text

namespace Surface

open Text

/-- No beginning of the text ends in a foreign character or closes more parentheses than it
opens. -/
structure Proper (cs : List Char) : Prop where
  allowed : ∀ c ∈ cs, IsAllowed c
  closed : ∀ p, p <+: cs → p.count ')' ≤ p.count '('

/-- What is to be said about a text. An error is at the end of the shortest beginning that is not
proper, and its offset is the length of what stands before. -/
inductive Verdict (cs : List Char) : Except SurfaceError Unit → Prop where
  | ok : Proper cs → cs.count '(' = cs.count ')' → Verdict cs (.ok ())
  | invalidCharacter {before after : List Char} {c : Char} : cs = before ++ c :: after →
      Proper before → ¬ IsAllowed c →
      Verdict cs (.error (.invalidCharacter c (byteLength before)))
  | unbalancedClose {before after : List Char} : cs = before ++ ')' :: after → Proper before →
      (before ++ [')']).count '(' < (before ++ [')']).count ')' →
      Verdict cs (.error (.unbalancedClose (byteLength before)))
  | unclosed : Proper cs → cs.count ')' < cs.count '(' →
      Verdict cs (.error (.unclosed (cs.count '(' - cs.count ')')))

/-- An allowed character moves the scan, unless it closes what is not open: `after` are open behind
it. -/
theorem scan_cons {c : Char} (hc : IsAllowed c) {before after : Nat}
    (h : before + [c].count '(' = after + [c].count ')') (offset : Nat) (cs : List Char) :
    scan before offset (c :: cs) = scan after (offset + c.utf8Size) cs := by
  cases hclass : CharClass.of c with
  | opening =>
    obtain rfl := CharClass.eq_of_of_eq_opening hclass
    obtain rfl : before + 1 = after := h
    simp only [scan, hclass]
  | closing =>
    obtain rfl := CharClass.eq_of_of_eq_closing hclass
    obtain rfl : before = after + 1 := h
    simp only [scan, hclass]
  | other => exact absurd hclass (CharClass.of_ne_other_iff.2 hc)
  | blank | word | symbol =>
    have ho : c ≠ '(' := by
      rintro rfl
      cases hclass
    have hc : c ≠ ')' := by
      rintro rfl
      cases hclass
    obtain rfl : before = after := by simpa [ho, hc] using h
    simp only [scan, hclass]

/-- Characters that violate nothing only move the scan: `k` are open behind them. -/
theorem scan_append {cs : List Char} {opened k : Nat} (hall : ∀ c ∈ cs, IsAllowed c)
    (hclosed : ∀ p, p <+: cs → p.count ')' ≤ opened + p.count '(')
    (hk : opened + cs.count '(' = k + cs.count ')') (offset : Nat) (rest : List Char) :
    scan opened offset (cs ++ rest) = scan k (offset + byteLength cs) rest := by
  induction cs generalizing opened offset with
  | nil =>
    obtain rfl : opened = k := by simpa using hk
    rfl
  | cons c cs ih =>
    obtain ⟨hc, hcs⟩ := List.forall_mem_cons.1 hall
    have hcount (p : List Char) (d : Char) : (c :: p).count d = [c].count d + p.count d := by
      rw [← List.count_append, List.singleton_append]
    have hclosed' (p : List Char) (hp : p <+: cs) :
        [c].count ')' + p.count ')' ≤ opened + ([c].count '(' + p.count '(') := by
      rw [← hcount, ← hcount]
      exact hclosed (c :: p) (List.cons_prefix_cons.2 ⟨rfl, hp⟩)
    obtain ⟨next, hnext⟩ : ∃ next, opened + [c].count '(' = next + [c].count ')' :=
      ⟨_, (Nat.sub_add_cancel (hclosed' [] List.nil_prefix)).symm⟩
    rw [hcount cs '(', hcount cs ')'] at hk
    rw [List.cons_append, scan_cons hc hnext, byteLength_cons, ← Nat.add_assoc]
    refine ih hcs (fun p hp => ?_) (by omega) _
    have := hclosed' p hp
    omega

theorem Proper.scan_append {cs : List Char} (h : Proper cs) {k : Nat}
    (hk : cs.count '(' = k + cs.count ')') (rest : List Char) :
    scan 0 0 (cs ++ rest) = scan k (byteLength cs) rest := by
  have hscan : scan 0 0 (cs ++ rest) = scan k (0 + byteLength cs) rest :=
    Surface.scan_append h.allowed (fun p hp => by simpa using h.closed p hp)
      (by simpa using hk) 0 rest
  rwa [Nat.zero_add] at hscan

theorem Proper.concat {cs : List Char} {c : Char} (h : Proper cs) (hc : IsAllowed c)
    (hclosed : (cs ++ [c]).count ')' ≤ (cs ++ [c]).count '(') : Proper (cs ++ [c]) where
  allowed := fun d hd => (List.mem_append.1 hd).elim (h.allowed d) fun hd =>
    List.mem_singleton.1 hd ▸ hc
  closed := fun p hp => by
    rcases List.prefix_concat_iff.1 hp with rfl | hp
    · exact hclosed
    · exact h.closed p hp

/-- A text is proper, or it has a first character that violates something. -/
theorem proper_or_exists (cs : List Char) :
    Proper cs ∨ ∃ before c after, cs = before ++ c :: after ∧ Proper before ∧
      (¬ IsAllowed c ∨ (before ++ [c]).count '(' < (before ++ [c]).count ')') := by
  induction cs using List.reverseRecOn with
  | nil =>
    refine .inl ⟨nofun, fun p hp => ?_⟩
    obtain rfl := List.prefix_nil.1 hp
    exact Nat.le_refl 0
  | append_singleton init c ih =>
    rcases ih with hinit | ⟨before, d, after, rfl, hbefore, hd⟩
    · by_cases hc : IsAllowed c
      · by_cases hclosed : (init ++ [c]).count ')' ≤ (init ++ [c]).count '('
        · exact .inl (hinit.concat hc hclosed)
        · exact .inr ⟨init, c, [], rfl, hinit, .inr (Nat.lt_of_not_le hclosed)⟩
      · exact .inr ⟨init, c, [], rfl, hinit, .inl hc⟩
    · exact .inr ⟨before, d, after ++ [c], by simp, hbefore, hd⟩

/-- Only a parenthesis can close more than is open. -/
theorem Proper.eq_closing {before : List Char} {c : Char} (h : Proper before)
    (hc : (before ++ [c]).count '(' < (before ++ [c]).count ')') :
    c = ')' ∧ before.count '(' = before.count ')' := by
  have hbefore := h.closed before List.prefix_rfl
  rw [List.count_append, List.count_append] at hc
  by_cases hclosing : c = ')'
  · subst hclosing
    simp at hc
    exact ⟨rfl, by omega⟩
  · have hnone : [c].count ')' = 0 := List.count_eq_zero.2 (by simpa using Ne.symm hclosing)
    omega

theorem exists_verdict (cs : List Char) : ∃ r, Verdict cs r := by
  rcases proper_or_exists cs with h | ⟨before, c, after, hcs, hbefore, hforeign | hc⟩
  · rcases Nat.lt_or_eq_of_le (h.closed cs List.prefix_rfl) with hlt | heq
    · exact ⟨_, .unclosed h hlt⟩
    · exact ⟨_, .ok h heq.symm⟩
  · exact ⟨_, .invalidCharacter hcs hbefore hforeign⟩
  · obtain ⟨rfl, -⟩ := hbefore.eq_closing hc
    exact ⟨_, .unbalancedClose hcs hbefore hc⟩

theorem Verdict.scan_eq {cs : List Char} {r : Except SurfaceError Unit} (h : Verdict cs r) :
    scan 0 0 cs = r := by
  cases h with
  | ok hproper heq =>
    have hscan := hproper.scan_append (k := 0) (by simpa using heq) []
    rw [List.append_nil] at hscan
    exact hscan
  | @invalidCharacter before after c hcs hbefore hc =>
    have hle := hbefore.closed before List.prefix_rfl
    have hother : CharClass.of c = .other :=
      Decidable.byContradiction fun hne => hc (CharClass.of_ne_other_iff.1 hne)
    rw [hcs, hbefore.scan_append (Nat.sub_add_cancel hle).symm]
    simp only [scan, hother]
  | @unbalancedClose before after hcs hbefore hc =>
    obtain ⟨-, heq⟩ := hbefore.eq_closing hc
    rw [hcs, hbefore.scan_append (k := 0) (by simpa using heq)]
    rfl
  | unclosed hproper hlt =>
    have hscan := hproper.scan_append (Nat.sub_add_cancel (Nat.le_of_lt hlt)).symm []
    rw [List.append_nil] at hscan
    rw [hscan, scan, if_neg (by omega)]

theorem check_eq_iff (s : String) (r : Except SurfaceError Unit) :
    check s = r ↔ Verdict s.toList r := by
  refine ⟨fun h => ?_, Verdict.scan_eq⟩
  obtain ⟨r', hr⟩ := exists_verdict s.toList
  exact h ▸ (hr.scan_eq ▸ hr : Verdict s.toList (scan 0 0 s.toList))

theorem scan_replicate_closing (n offset : Nat) :
    scan n offset (List.replicate n ')') = .ok () := by
  induction n generalizing offset with
  | zero => rfl
  | succ n ih => exact ih _

/-- The verdict on a text is that of its first violation, and where parentheses are left open, as
many that close make the text valid. -/
theorem check_eq_iff_verdict (s : String) :
    (∀ r, check s = r ↔ Verdict s.toList r) ∧
      ∀ n, check s = .error (.unclosed n) →
        0 < n ∧ check (s ++ String.ofList (List.replicate n ')')) = .ok () := by
  refine ⟨check_eq_iff s, fun n h => ?_⟩
  cases (check_eq_iff s _).1 h with
  | unclosed hproper hlt =>
    refine ⟨Nat.sub_pos_of_lt hlt, ?_⟩
    rw [check, String.toList_append, String.toList_ofList,
      hproper.scan_append (Nat.sub_add_cancel (Nat.le_of_lt hlt)).symm, scan_replicate_closing]

/-- Two groups left open behind a blank of three bytes. -/
theorem check_eq_iff_verdict_two_open :
    check "(\u2003(A)&(B" = .error (.unclosed 2) ∧
      check ("(\u2003(A)&(B" ++ String.ofList (List.replicate 2 ')')) = .ok () := by
  have hopen : check "(\u2003(A)&(B" = .error (.unclosed 2) := by decide +kernel
  exact ⟨hopen, ((check_eq_iff_verdict _).2 2 hopen).2⟩

/-- Offsets are of bytes: the blank takes three. -/
example : check "(\u2003)A)" = .error (.unbalancedClose 6) := by decide +kernel

end Surface

end Propositional
