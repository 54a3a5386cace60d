import Propositional.Proofs.Formula.Grammar
import Propositional.Proofs.Formula.Step

/-!
# What is derived is read

The parser reads the tokens of a derived part in one go, wherever a part may begin: behind them it
is where the part has ended and nothing around the part has changed. It needs as many free levels
as the derivation has open at once; with fewer it stops at the token that needs one more.

`Pending.value f p` is the part `p` that ends with the operand `f`, `Fresh p` says that no operand
of such a part is waiting, and `Around p` that two pendings differ at most inside the part.
-/

namespace Propositional.Parsing

open Grammar

namespace Pending

/-- The operands of `j` that wait for a later one, the latest first. -/
def operands (q : Pending) : Junction → List Formula
  | .implies => q.premises
  | .or => q.disjuncts
  | .and => q.conjuncts

def value (q : Pending) (f : Formula) : Part → Formula
  | .level .implies => q.close f
  | .level .or => q.disjunction f
  | .level .and => q.conjunction f
  | .unary | .atom => f

def Fresh (q : Pending) : Part → Prop
  | .level .implies => q = {}
  | .level .or => q.disjuncts = [] ∧ q.conjuncts = []
  | .level .and => q.conjuncts = []
  | .unary | .atom => True

def Around (q r : Pending) : Part → Prop
  | .level .implies => True
  | .level .or => r.premises = q.premises
  | .level .and => r.premises = q.premises ∧ r.disjuncts = q.disjuncts
  | .unary | .atom => r = q

variable {q r s : Pending} {f : Formula} {j : Junction}

theorem value_level (q : Pending) (f : Formula) (j : Junction) :
    q.value f (.level j) = gather j (q.operands j) (q.value f (operand j)) [] := by
  cases j <;> rfl

theorem operands_add (q : Pending) (f : Formula) (j : Junction) :
    (q.add f j).operands j = q.value f (operand j) :: q.operands j := by
  cases j <;> rfl

theorem fresh_add (q : Pending) (f : Formula) (j : Junction) : (q.add f j).Fresh (operand j) := by
  cases j <;> simp [add, Fresh, operand]

theorem around_add (q : Pending) (f : Formula) (j : Junction) :
    q.Around (q.add f j) (.level j) := by
  cases j <;> simp [add, Around]

theorem Fresh.operands_eq_nil (h : q.Fresh (.level j)) : q.operands j = [] := by
  cases j <;> simp_all [Fresh, operands]

theorem Fresh.operand (h : q.Fresh (.level j)) : q.Fresh (operand j) := by
  cases j <;> simp_all [Fresh, Grammar.operand]

theorem Around.refl (q : Pending) (p : Part) : q.Around q p := by
  cases p with
  | level j => cases j <;> simp [Around]
  | unary => rfl
  | atom => rfl

theorem Around.operands_eq (h : q.Around r (operand j)) : r.operands j = q.operands j := by
  cases j <;> simp_all [Around, operands, operand]

theorem Around.level (h : q.Around r (operand j)) : q.Around r (.level j) := by
  cases j <;> simp_all [Around, operand]

theorem Around.trans {p : Part} (h : q.Around r p) (k : r.Around s p) : q.Around s p := by
  cases p with
  | level j => cases j <;> simp_all [Around]
  | unary => exact Eq.trans (show s = r from k) h
  | atom => exact Eq.trans (show s = r from k) h

end Pending

namespace State

variable {limit m n : Nat} {j : Junction} {ts us : List Token} {f : Formula} {fs : List Formula}

theorem complete_zero (s : State) (f : Formula) :
    s.complete 0 f = { s with focus := .operator f } := rfl

/-- With `n` free levels the parser reads `ts` as a part `p` that writes `f`. Negations may stand
before a part only if it is no level. -/
def Reads (limit : Nat) (p : Part) (ts : List Token) (f : Formula) (n : Nat) : Prop :=
  ∀ (position k : Nat) (s : State) (rest : List Token), s.focus = .operand k →
    (∀ j, p = .level j → k = 0) → s.pending.Fresh p → s.depth + n ≤ limit →
    ∃ r g, s.pending.Around r p ∧ r.value g p = f ∧
      s.run limit position (ts ++ rest) =
        (complete { s with pending := r } k g).run limit (position + ts.length) rest

/-- With `n` free levels the parser reads `ts` as the operands `fs` of `j` after the first. -/
def ReadsMore (limit : Nat) (j : Junction) (ts : List Token) (fs : List Formula) (n : Nat) :
    Prop :=
  ∀ (position : Nat) (s : State) (rest : List Token) ⦃f : Formula⦄, s.focus = .operator f →
    s.depth + n ≤ limit →
    ∃ r g, s.pending.Around r (.level j) ∧
      r.value g (.level j) = gather j (s.pending.operands j) (s.pending.value f (operand j)) fs ∧
      s.run limit position (ts ++ rest) =
        run limit { s with pending := r, focus := .operator g } (position + ts.length) rest

theorem Reads.level (h : Reads limit (operand j) ts f m) (hs : ReadsMore limit j us fs n) :
    Reads limit (.level j) (ts ++ us) (.join j f fs) (max m n) := by
  intro position k s rest hf hk hp hd
  obtain rfl : k = 0 := hk j rfl
  obtain ⟨r, g, ha, hv, hr⟩ := h position 0 s (us ++ rest) hf (fun _ _ => rfl) hp.operand
    (by omega)
  obtain ⟨r', g', ha', hv', hr'⟩ := hs (position + ts.length)
    { s with pending := r, focus := .operator g } rest rfl (by simp only; omega)
  refine ⟨r', g', ha.level.trans ha', ?_, ?_⟩
  · rw [hv', hv, ha.operands_eq, hp.operands_eq_nil]
    rfl
  · rw [List.append_assoc, hr, complete_zero, hr', List.length_append, Nat.add_assoc]
    rfl

theorem Reads.neg (h : Reads limit .unary ts f n) :
    Reads limit .unary (.op .not :: ts) (.neg f) (n + 1) := by
  intro position k s rest hf hk hp hd
  have hn : Next limit (.op .not) s _ := .neg hf (by omega)
  obtain ⟨r, g, ha, hv, hr⟩ := h (position + 1) (k + 1)
    { s with depth := s.depth + 1, focus := .operand (k + 1) } rest rfl nofun trivial
    (by simp only; omega)
  refine ⟨r, .neg g, ha, congrArg Formula.neg hv, ?_⟩
  rw [List.cons_append, hn.run_cons, hr, List.length_cons]
  simp only [complete, Nat.add_sub_add_right, Formula.negate, Nat.add_assoc, Nat.add_comm 1]

theorem Reads.bare (h : Reads limit .atom ts f n) : Reads limit .unary ts f n :=
  fun position k s rest hf _ _ hd => h position k s rest hf nofun trivial hd

theorem Reads.name (limit : Nat) (v : Variable) : Reads limit .atom [.ident v.name] (.atom v) 0 :=
  fun _ _ s rest hf _ _ _ => ⟨s.pending, .atom v, rfl, rfl, (Next.name hf v).run_cons rest⟩

theorem Reads.group (h : Reads limit (.level .implies) ts f n) :
    Reads limit .atom (.lparen :: (ts ++ [.rparen])) f (n + 1) := by
  intro position k s rest hf hk hp hd
  have ho : Next limit .lparen s _ := .opening hf (by omega)
  obtain ⟨r, g, ha, hv, hr⟩ := h (position + 1) 0
    { depth := s.depth + 1, outer := ⟨s.pending, k⟩ :: s.outer, focus := .operand 0 }
    (.rparen :: rest) rfl (fun _ _ => rfl) rfl (by simp only; omega)
  have hc : Next limit .rparen
      { depth := s.depth + 1, pending := r, outer := ⟨s.pending, k⟩ :: s.outer,
        focus := .operator g } _ := .closing rfl rfl
  refine ⟨s.pending, f, rfl, rfl, ?_⟩
  rw [List.cons_append, ho.run_cons, List.append_assoc, List.singleton_append, hr, complete_zero,
    hc.run_cons, ← hv, Pending.value, List.length_cons, List.length_append, List.length_singleton,
    Nat.add_right_comm position, Nat.add_assoc position]
  rfl

theorem ReadsMore.nil (limit : Nat) (j : Junction) : ReadsMore limit j [] [] 0 := by
  intro position s rest f hf hd
  refine ⟨s.pending, f, .refl .., s.pending.value_level f j, ?_⟩
  rw [← hf]
  rfl

theorem ReadsMore.cons (h : Reads limit (operand j) ts f m) (hs : ReadsMore limit j us fs n) :
    ReadsMore limit j (.op (.binary j) :: (ts ++ us)) (f :: fs) (max m n) := by
  intro position s rest e hf hd
  have hj : Next limit (.op (.binary j)) s _ := .joining hf j
  obtain ⟨r, g, ha, hv, hr⟩ := h (position + 1) 0
    { s with pending := s.pending.add e j, focus := .operand 0 } (us ++ rest) rfl
    (fun _ _ => rfl) (s.pending.fresh_add e j) (by simp only; omega)
  obtain ⟨r', g', ha', hv', hr'⟩ := hs (position + 1 + ts.length)
    { s with pending := r, focus := .operator g } rest rfl (by simp only; omega)
  refine ⟨r', g', ((s.pending.around_add e j).trans ha.level).trans ha', ?_, ?_⟩
  · rw [hv', hv, ha.operands_eq, Pending.operands_add]
    rfl
  · rw [List.cons_append, hj.run_cons, List.append_assoc, hr, complete_zero, hr']
    congr 1
    simp only [List.length_cons, List.length_append]
    omega

mutual

/-- A derived part is read wherever it may begin. -/
theorem reads_of_derives (limit : Nat) : ∀ {p : Part} {ts : List Token} {f : Formula} {n : Nat},
    Derives p ts f n → Reads limit p ts f n
  | _, _, _, _, .level h hs => (reads_of_derives limit h).level (readsMore_of_derivesMore limit hs)
  | _, _, _, _, .neg h => (reads_of_derives limit h).neg
  | _, _, _, _, .bare h => (reads_of_derives limit h).bare
  | _, _, _, _, .name v => .name limit v
  | _, _, _, _, .group h => (reads_of_derives limit h).group

theorem readsMore_of_derivesMore (limit : Nat) :
    ∀ {j : Junction} {ts : List Token} {fs : List Formula} {n : Nat},
      DerivesMore j ts fs n → ReadsMore limit j ts fs n
  | _, _, _, _, .nil j => .nil limit j
  | _, _, _, _, .cons h hs => .cons (reads_of_derives limit h) (readsMore_of_derivesMore limit hs)

end

/-- With fewer than `n` free levels the parser refuses `ts` as a part `p`. -/
def Exceeds (limit : Nat) (p : Part) (ts : List Token) (n : Nat) : Prop :=
  ∀ (position k : Nat) (s : State) (rest : List Token), s.focus = .operand k →
    (∀ j, p = .level j → k = 0) → s.pending.Fresh p → s.depth ≤ limit → limit < s.depth + n →
    ∃ stop, s.run limit position (ts ++ rest) = .error (.tooDeep stop)

def ExceedsMore (limit : Nat) (ts : List Token) (n : Nat) : Prop :=
  ∀ (position : Nat) (s : State) (rest : List Token) ⦃f : Formula⦄, s.focus = .operator f →
    s.depth ≤ limit → limit < s.depth + n →
    ∃ stop, s.run limit position (ts ++ rest) = .error (.tooDeep stop)

theorem Exceeds.level (hr : Reads limit (operand j) ts f m) (h : Exceeds limit (operand j) ts m)
    (hs : ExceedsMore limit us n) : Exceeds limit (.level j) (ts ++ us) (max m n) := by
  intro position k s rest hf hk hp hl hd
  obtain rfl : k = 0 := hk j rfl
  rw [List.append_assoc]
  by_cases hm : s.depth + m ≤ limit
  · obtain ⟨r, g, -, -, hr⟩ := hr position 0 s (us ++ rest) hf (fun _ _ => rfl)
      hp.operand hm
    rw [hr, complete_zero]
    exact hs _ _ rest rfl hl (by simp only; omega)
  · exact h position 0 s (us ++ rest) hf (fun _ _ => rfl) hp.operand hl (by omega)

theorem Exceeds.neg (h : Exceeds limit .unary ts n) :
    Exceeds limit .unary (.op .not :: ts) (n + 1) := by
  intro position k s rest hf hk hp hl hd
  by_cases hlt : s.depth < limit
  · rw [List.cons_append, (Next.neg hf hlt).run_cons]
    exact h _ _ _ rest rfl nofun trivial hlt (by simp only; omega)
  · exact ⟨position, run_tooDeep hf (.inr rfl) (Nat.not_lt.1 hlt) (ts ++ rest)⟩

theorem Exceeds.bare (h : Exceeds limit .atom ts n) : Exceeds limit .unary ts n :=
  fun position k s rest hf _ _ hl hd => h position k s rest hf nofun trivial hl hd

theorem Exceeds.name (limit : Nat) (ts : List Token) : Exceeds limit .atom ts 0 :=
  fun _ _ _ _ _ _ _ hl hd => absurd hl (Nat.not_le.2 hd)

theorem Exceeds.group (h : Exceeds limit (.level .implies) ts n) :
    Exceeds limit .atom (.lparen :: (ts ++ [.rparen])) (n + 1) := by
  intro position k s rest hf hk hp hl hd
  by_cases hlt : s.depth < limit
  · rw [List.cons_append, (Next.opening hf hlt).run_cons, List.append_assoc]
    exact h _ _ _ _ rfl (fun _ _ => rfl) rfl hlt (by simp only; omega)
  · exact ⟨position, run_tooDeep hf (.inl rfl) (Nat.not_lt.1 hlt) _⟩

theorem ExceedsMore.nil (limit : Nat) : ExceedsMore limit [] 0 :=
  fun _ _ _ _ _ hl hd => absurd hl (Nat.not_le.2 hd)

theorem ExceedsMore.cons (hr : Reads limit (operand j) ts f m) (h : Exceeds limit (operand j) ts m)
    (hs : ExceedsMore limit us n) :
    ExceedsMore limit (.op (.binary j) :: (ts ++ us)) (max m n) := by
  intro position s rest e hf hl hd
  have hj : Next limit (.op (.binary j)) s _ := .joining hf j
  rw [List.cons_append, hj.run_cons, List.append_assoc]
  by_cases hm : s.depth + m ≤ limit
  · obtain ⟨r, g, -, -, hr⟩ := hr (position + 1) 0
      { s with pending := s.pending.add e j, focus := .operand 0 } (us ++ rest) rfl
      (fun _ _ => rfl) (s.pending.fresh_add e j) hm
    rw [hr, complete_zero]
    exact hs _ _ rest rfl hl (by simp only; omega)
  · exact h _ _ _ _ rfl (fun _ _ => rfl) (s.pending.fresh_add e j) hl (by simp only; omega)

mutual

theorem exceeds_of_derives (limit : Nat) : ∀ {p : Part} {ts : List Token} {f : Formula} {n : Nat},
    Derives p ts f n → Exceeds limit p ts n
  | _, _, _, _, .level h hs =>
    .level (reads_of_derives limit h) (exceeds_of_derives limit h)
      (exceedsMore_of_derivesMore limit hs)
  | _, _, _, _, .neg h => (exceeds_of_derives limit h).neg
  | _, _, _, _, .bare h => (exceeds_of_derives limit h).bare
  | _, _, _, _, .name v => .name limit _
  | _, _, _, _, .group h => (exceeds_of_derives limit h).group

theorem exceedsMore_of_derivesMore (limit : Nat) :
    ∀ {j : Junction} {ts : List Token} {fs : List Formula} {n : Nat},
      DerivesMore j ts fs n → ExceedsMore limit ts n
  | _, _, _, _, .nil _ => .nil limit
  | _, _, _, _, .cons h hs =>
    .cons (reads_of_derives limit h) (exceeds_of_derives limit h)
      (exceedsMore_of_derivesMore limit hs)

end

end State

end Parsing

namespace Grammar

open Parsing

variable {limit m n : Nat} {ts : List Token} {f g : Formula}

theorem ofTokens_of_ne_nil (h : ts ≠ []) :
    Formula.ofTokens ts limit = State.run limit {} 0 ts >>= State.finish := by
  rw [Formula.ofTokens, if_neg (by simpa using h)]

theorem Writes.ofTokens_eq (h : Writes ts f n) (hn : n ≤ limit) :
    Formula.ofTokens ts limit = .ok f := by
  obtain ⟨r, e, -, hv, hr⟩ := State.reads_of_derives limit h 0 0 {} [] rfl (fun _ _ => rfl)
    rfl (by simpa using hn)
  rw [ofTokens_of_ne_nil h.ne_nil, ← List.append_nil ts, hr, ← hv]
  rfl

theorem Writes.ofTokens_tooDeep (h : Writes ts f n) (hn : limit < n) :
    ∃ stop, Formula.ofTokens ts limit = .error (.tooDeep stop) := by
  obtain ⟨stop, hr⟩ := State.exceeds_of_derives limit h 0 0 {} [] rfl (fun _ _ => rfl)
    rfl (Nat.zero_le _) (by simpa using hn)
  refine ⟨stop, ?_⟩
  rw [ofTokens_of_ne_nil h.ne_nil, ← List.append_nil ts, hr]
  rfl

/-- What tokens write is determined, and so is how many levels they need. -/
theorem Writes.unique (h : Writes ts f m) (h' : Writes ts g n) : f = g ∧ m = n := by
  have hfg : f = g := by
    have hf := h.ofTokens_eq (Nat.le_max_left m n)
    rw [h'.ofTokens_eq (Nat.le_max_right m n)] at hf
    cases hf
    rfl
  refine ⟨hfg, ?_⟩
  rcases Nat.lt_trichotomy m n with hlt | heq | hlt
  · obtain ⟨stop, he⟩ := h'.ofTokens_tooDeep hlt
    rw [h.ofTokens_eq (Nat.le_refl m)] at he
    cases he
  · exact heq
  · obtain ⟨stop, he⟩ := h.ofTokens_tooDeep hlt
    rw [h'.ofTokens_eq (Nat.le_refl n)] at he
    cases he

end Grammar

end Propositional
