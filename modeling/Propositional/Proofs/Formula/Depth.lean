import Mathlib.Algebra.Order.BigOperators.Group.List
import Mathlib.Algebra.Order.Ring.Nat
import Mathlib.Data.List.MinMax
import Mathlib.Order.Nat
import Propositional.Proofs.Formula.RoundTrip

/-!
# How deep a formula that is read can be

The nesting limit counts parentheses and negations, not levels of the tree. Up to three chains may
lie between two of those, one of each connective, and above the outermost: with `n` levels open at
once a formula is at most `3 * (n + 1)` deep, and `tower n` is as deep as that. Its printed form,
which has a pair of parentheses for every chain and two levels for every negation, nests no deeper
(`Derives.nesting_le`), so it is read again within that limit.
-/

namespace Propositional

open Token

namespace Formula

variable {j : Junction} {f g : Formula} {fs rest : List Formula} {bound : Nat}

theorem nesting_chain_le (h : ∀ e ∈ f :: g :: rest, e.nesting ≤ bound) :
    (chain j f g rest).nesting ≤ bound + 1 := by
  rw [nesting_chain, Nat.add_comm]
  exact Nat.succ_le_succ (List.max_le_of_forall_le _ bound (List.forall_mem_map.2 h))

theorem nesting_join_le (hf : f.nesting ≤ bound) (hfs : ∀ g ∈ fs, g.nesting ≤ bound) :
    (join j f fs).nesting ≤ bound + 1 := by
  cases fs with
  | nil => exact Nat.le_succ_of_le hf
  | cons g fs => exact nesting_chain_le (List.forall_mem_cons.2 ⟨hf, hfs⟩)

/-- The printed form opens a level for each edge at least. -/
theorem depth_le_nesting (f : Formula) : f.depth ≤ f.nesting := by
  induction f with
  | atom v => exact Nat.le_refl 0
  | neg f ih =>
    rw [depth_neg, nesting_neg]
    omega
  | chain j f g rest hf hg hr =>
    have hs : ∀ h ∈ f :: g :: rest, h.depth ≤ h.nesting :=
      List.forall_mem_cons.2 ⟨hf, List.forall_mem_cons.2 ⟨hg, hr⟩⟩
    rw [depth_chain, nesting_chain]
    refine Nat.add_le_add_left (List.max_le_of_forall_le _ _ ?_) 1
    exact List.forall_mem_map.2 fun h hh =>
      List.le_max_of_le (List.mem_map_of_mem hh) (hs h hh)

theorem size_chain_eq (j : Junction) (f g : Formula) (rest : List Formula) :
    (chain j f g rest).size = 1 + (f.size + ((g :: rest).map size).sum) :=
  size_chain j f g rest

/-- The printed form opens two levels for each node at most. -/
theorem nesting_lt_size (f : Formula) : f.nesting + 2 ≤ 2 * f.size := by
  induction f with
  | atom v => exact Nat.le_refl 2
  | neg f ih =>
    rw [nesting_neg, size_neg]
    omega
  | chain j f g rest hf hg hr =>
    have hs : ∀ h ∈ f :: g :: rest, h.nesting + 2 ≤ 2 * h.size :=
      List.forall_mem_cons.2 ⟨hf, List.forall_mem_cons.2 ⟨hg, hr⟩⟩
    have hle : ∀ h ∈ f :: g :: rest, h.nesting ≤ 2 * ((f :: g :: rest).map size).sum - 2 := by
      intro h hh
      have hsum := List.le_sum_of_mem (List.mem_map_of_mem hh (f := size))
      have := hs h hh
      omega
    have hn := nesting_chain_le (j := j) hle
    rw [List.map_cons, List.sum_cons] at hn
    rw [size_chain_eq]
    omega

end Formula

namespace Grammar

open Formula

/-- How many chains lead down in a part to the next parenthesis or negation, at most. -/
def Part.chains : Part → Nat
  | level .implies => 3
  | level .or => 2
  | level .and => 1
  | unary | atom => 0

theorem chains_level (j : Junction) : (Part.level j).chains = (operand j).chains + 1 := by
  cases j <;> rfl

mutual

/-- What is derived with `n` open levels nests three levels deeper for each when it is printed. -/
theorem Derives.nesting_le : ∀ {p : Part} {ts : List Token} {f : Formula} {n : Nat},
    Derives p ts f n → f.nesting ≤ 3 * n + p.chains
  | _, _, _, _, .level h hs => by
    have hf := h.nesting_le
    have hfs := hs.nesting_le
    rw [chains_level, ← Nat.add_assoc]
    exact nesting_join_le (by omega) fun g hg => Nat.le_trans (hfs g hg) (by omega)
  | _, _, _, _, .neg h => by
    have hf := h.nesting_le
    rw [nesting_neg]
    simp only [Part.chains] at hf ⊢
    omega
  | _, _, _, _, .bare h => h.nesting_le
  | _, _, _, _, .name _ => Nat.zero_le _
  | _, _, _, _, .group h => h.nesting_le

theorem DerivesMore.nesting_le : ∀ {j : Junction} {ts : List Token} {fs : List Formula} {n : Nat},
    DerivesMore j ts fs n → ∀ f ∈ fs, f.nesting ≤ 3 * n + (operand j).chains
  | _, _, _, _, .nil _ => nofun
  | _, _, _, _, .cons h hs => List.forall_mem_cons.2
    ⟨Nat.le_trans h.nesting_le (by omega),
      fun f hf => Nat.le_trans (hs.nesting_le f hf) (by omega)⟩

end

mutual

/-- Each node has a token of its own. -/
theorem Derives.size_le : ∀ {p : Part} {ts : List Token} {f : Formula} {n : Nat},
    Derives p ts f n → f.size ≤ ts.length
  | _, _, _, _, @Derives.level j _ _ f fs _ _ h hs => by
    have hf := h.size_le
    have hfs := hs.sum_size_le
    rw [List.length_append]
    cases fs with
    | nil => exact Nat.le_add_right_of_le hf
    | cons g fs =>
      rw [List.length_cons] at hfs
      rw [join, size_chain_eq]
      omega
  | _, _, _, _, .neg h => by
    rw [size_neg, List.length_cons, Nat.add_comm]
    exact Nat.succ_le_succ h.size_le
  | _, _, _, _, .bare h => h.size_le
  | _, _, _, _, .name _ => Nat.le_refl 1
  | _, _, _, _, .group h => by
    have hf := h.size_le
    rw [List.length_cons, List.length_append]
    omega

theorem DerivesMore.sum_size_le :
    ∀ {j : Junction} {ts : List Token} {fs : List Formula} {n : Nat},
      DerivesMore j ts fs n → (fs.map size).sum + fs.length ≤ ts.length
  | _, _, _, _, .nil _ => Nat.le_refl 0
  | _, _, _, _, .cons h hs => by
    have hf := h.size_le
    have hfs := hs.sum_size_le
    rw [List.map_cons, List.sum_cons, List.length_cons, List.length_cons, List.length_append]
    omega

end

end Grammar

namespace Formula

open Grammar

variable {limit n : Nat} {ts : List Token} {f : Formula} {s : String}

theorem nesting_le_of_ofTokens (h : ofTokens ts limit = .ok f) :
    f.nesting ≤ 3 * (limit + 1) := by
  obtain ⟨n, hn, hw⟩ := writes_of_ofTokens h
  have hle : f.nesting ≤ 3 * n + 3 := Derives.nesting_le hw
  omega

theorem size_le_of_ofTokens (h : ofTokens ts limit = .ok f) : f.size ≤ ts.length := by
  obtain ⟨n, -, hw⟩ := writes_of_ofTokens h
  exact Derives.size_le hw

/-- A chain of each connective around a formula. -/
def layer (f : Formula) : Formula :=
  let x := atom ⟨"X", by decide⟩
  chain .implies (chain .or (chain .and f x []) x []) x []

def layerTokens (ts : List Token) : List Token :=
  ts ++ [.op (.binary .and), .ident "X", .op (.binary .or), .ident "X", .op (.binary .implies),
    .ident "X"]

/-- The deepest formula with `n` parentheses open at once. -/
def tower : Nat → Formula
  | 0 => layer (atom ⟨"X", by decide⟩)
  | n + 1 => layer (tower n)

def towerTokens : Nat → List Token
  | 0 => layerTokens [.ident "X"]
  | n + 1 => layerTokens (.lparen :: (towerTokens n ++ [.rparen]))

theorem depth_layer (f : Formula) : (layer f).depth = f.depth + 3 := by
  simp [layer]
  omega

theorem depth_tower (n : Nat) : (tower n).depth = 3 * (n + 1) := by
  induction n with
  | zero => rfl
  | succ n ih =>
    rw [tower, depth_layer, ih]
    omega

theorem writes_layerTokens (h : Derives .atom ts f n) : Writes (layerTokens ts) (layer f) n := by
  have ha : Derives .atom [.ident "X"] (atom ⟨"X", by decide⟩) 0 := .name ⟨"X", by decide⟩
  have hmore (j : Junction) :
      DerivesMore j [.op (.binary j), .ident "X"] [atom ⟨"X", by decide⟩] 0 :=
    .cons (ha.operand j) (.nil j)
  have hand := (h.operand .and).level (hmore .and)
  have hor := Derives.level (j := .or) hand (hmore .or)
  have himplies := Derives.level (j := .implies) hor (hmore .implies)
  simpa [layerTokens, layer, join] using himplies

theorem writes_towerTokens (n : Nat) : Writes (towerTokens n) (tower n) n := by
  induction n with
  | zero => exact writes_layerTokens (.name ⟨"X", by decide⟩)
  | succ n ih => exact writes_layerTokens ih.group

/-- A text that fits into memory has fewer than `2 ^ 63` bytes, so the printed form of what it
writes does not nest deeper than a word can count. -/
theorem nesting_lt_of_ofTokens_tokenize (h : ofTokens (tokenize s) limit = .ok f)
    (hs : s.utf8ByteSize < 2 ^ 63) : f.nesting ≤ 2 ^ 64 - 1 := by
  have hn := f.nesting_lt_size
  have hsize := size_le_of_ofTokens h
  have hlen := length_tokenize_le s
  omega

/-- What is read within a limit is no deeper than three levels for each that the limit allows and
three more, and there is no better bound. It has no more nodes than tokens. What is read from a text
is read again from its printed form within so many levels, or, as the text fits into memory, within
as many of them as a word can count. -/
theorem depth_le_of_limit (limit : Nat) :
    (∀ ts f, ofTokens ts limit = .ok f → f.depth ≤ 3 * (limit + 1) ∧ f.size ≤ ts.length) ∧
      (∃ ts f, ofTokens ts limit = .ok f ∧ f.depth = 3 * (limit + 1)) ∧
      (∀ s f, ofTokens (tokenize s) limit = .ok f →
        ofTokens (tokenize f.text) (3 * (limit + 1)) = .ok f ∧
        (s.utf8ByteSize < 2 ^ 63 →
          ofTokens (tokenize f.text) (min (3 * (limit + 1)) (2 ^ 64 - 1)) = .ok f)) ∧
      ∀ s f, ofText s = .ok f → f.depth ≤ 771 := by
  have hdepth : ∀ {ts : List Token} {f : Formula} {limit : Nat}, ofTokens ts limit = .ok f →
      f.depth ≤ 3 * (limit + 1) :=
    fun h => Nat.le_trans (depth_le_nesting _) (nesting_le_of_ofTokens h)
  refine ⟨fun ts f h => ⟨hdepth h, size_le_of_ofTokens h⟩, ?_, fun s f h => ⟨?_, fun hs => ?_⟩, ?_⟩
  · exact ⟨towerTokens limit, tower limit, (writes_towerTokens limit).ofTokens_eq (Nat.le_refl _),
      depth_tower limit⟩
  · exact ofTokens_tokenize_text_of_le (nesting_le_of_ofTokens h)
      (unreserved_of_ofTokens_tokenize h)
  · exact ofTokens_tokenize_text_of_le
      (Nat.le_min.2 ⟨nesting_le_of_ofTokens h, nesting_lt_of_ofTokens_tokenize h hs⟩)
      (unreserved_of_ofTokens_tokenize h)
  · exact fun s f h => hdepth (ofTokens_of_ofText h)

/-- `( NOT ( NOT X ) ) OR Y` -/
def twiceNegatedOrY : Formula :=
  chain .or (neg (neg (atom ⟨"X", by decide⟩))) (atom ⟨"Y", by decide⟩) []

/-- Two levels are enough for this text but not for its printed form, which nests five deep. -/
theorem depth_le_of_limit_two :
    ofTokens (tokenize "!!X|Y") 2 = .ok twiceNegatedOrY ∧ twiceNegatedOrY.depth ≤ 9 ∧
      "!!X|Y".utf8ByteSize < 2 ^ 63 ∧
      ofTokens (tokenize twiceNegatedOrY.text) (min (3 * (2 + 1)) (2 ^ 64 - 1)) =
        .ok twiceNegatedOrY := by
  have h : ofTokens (tokenize "!!X|Y") 2 = .ok twiceNegatedOrY := by decide +kernel
  have hs : "!!X|Y".utf8ByteSize < 2 ^ 63 := by decide +kernel
  obtain ⟨hdepth, -, hagain, -⟩ := depth_le_of_limit 2
  exact ⟨h, (hdepth _ _ h).1, hs, (hagain _ _ h).2 hs⟩

end Formula

end Propositional
