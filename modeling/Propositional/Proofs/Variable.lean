import Propositional.Variable

/-!
# The order of names

Names are compared character by character. All characters of a name take one byte, so this is also
the order of the bytes.
-/

namespace Propositional

open Text

namespace Variable

/-- The bytes of the name. -/
def bytes (v : Variable) : List UInt8 := v.name.toUTF8.data.toList

theorem utf8EncodeChar_of_isWord {c : Char} (h : isWord c = true) :
    String.utf8EncodeChar c = [c.val.toUInt8] := by
  refine String.utf8EncodeChar_eq_singleton (Char.utf8Size_eq_one_iff.2 ?_)
  have := toNat_of_isWord h
  rw [UInt32.le_iff_toNat_le]
  show c.toNat ≤ 127
  omega

theorem flatMap_utf8EncodeChar {cs : List Char} (h : ∀ c ∈ cs, isWord c = true) :
    cs.flatMap String.utf8EncodeChar = cs.map (·.val.toUInt8) := by
  induction cs with
  | nil => rfl
  | cons c cs ih =>
    have ⟨hc, hcs⟩ := List.forall_mem_cons.1 h
    rw [List.flatMap_cons, utf8EncodeChar_of_isWord hc, ih hcs]
    rfl

theorem bytes_eq_map (v : Variable) : v.bytes = v.name.toList.map (·.val.toUInt8) := by
  rw [bytes, String.toUTF8, ← String.utf8Encode_toList, List.utf8Encode,
    flatMap_utf8EncodeChar v.isName.2, List.data_toByteArray]

theorem toUInt8_lt_iff {c d : Char} (hc : isWord c = true) (hd : isWord d = true) :
    c.val.toUInt8 < d.val.toUInt8 ↔ c < d := by
  have hc := toNat_of_isWord hc
  have hd := toNat_of_isWord hd
  rw [UInt8.lt_iff_toNat_lt, Char.lt_def, UInt32.lt_iff_toNat_lt, UInt32.toNat_toUInt8,
    UInt32.toNat_toUInt8]
  show c.toNat % 256 < d.toNat % 256 ↔ c.toNat < d.toNat
  omega

theorem toUInt8_inj {c d : Char} (hc : isWord c = true) (hd : isWord d = true) :
    c.val.toUInt8 = d.val.toUInt8 ↔ c = d := by
  have hc := toNat_of_isWord hc
  have hd := toNat_of_isWord hd
  rw [← UInt8.toNat_inj, ← Char.toNat_inj, UInt32.toNat_toUInt8, UInt32.toNat_toUInt8]
  show c.toNat % 256 = d.toNat % 256 ↔ c.toNat = d.toNat
  omega

theorem map_toUInt8_lt_iff {cs ds : List Char} (hcs : ∀ c ∈ cs, isWord c = true)
    (hds : ∀ d ∈ ds, isWord d = true) :
    cs.map (·.val.toUInt8) < ds.map (·.val.toUInt8) ↔ cs < ds := by
  induction cs generalizing ds with
  | nil => cases ds <;> simp
  | cons c cs ih =>
    cases ds with
    | nil => simp
    | cons d ds =>
      have ⟨hc, hcs⟩ := List.forall_mem_cons.1 hcs
      have ⟨hd, hds⟩ := List.forall_mem_cons.1 hds
      simp only [List.map_cons, List.cons_lt_cons_iff]
      rw [toUInt8_lt_iff hc hd, toUInt8_inj hc hd, ih hcs hds]

/-- Ascending variables are told by which they are. -/
theorem eq_of_pairwise {vs ws : List Variable} (hvs : vs.Pairwise (· < ·))
    (hws : ws.Pairwise (· < ·)) (h : ∀ v, v ∈ vs ↔ v ∈ ws) : vs = ws := by
  have hperm : vs.Perm ws :=
    (List.perm_ext_iff_of_nodup (nodup_of_pairwise hvs) (nodup_of_pairwise hws)).2 h
  refine hperm.eq_of_pairwise (fun v w _ _ hvw hwv => ?_) hvs hws
  exact absurd (lt_trans hvw hwv) v.lt_irrefl

theorem bytes_lt_iff {v w : Variable} : v.bytes < w.bytes ↔ v < w := by
  rw [bytes_eq_map, bytes_eq_map, map_toUInt8_lt_iff v.isName.2 w.isName.2]
  exact String.lt_iff.symm

end Variable

end Propositional
