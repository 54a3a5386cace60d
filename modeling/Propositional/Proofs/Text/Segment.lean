import Propositional.Text.Blank
import Propositional.Text.Split

/-!
# Segments of a text

What cutting and trimming give, without the way they go through the text. The segments of a text are
the one list of stretches without the separator that, joined by it, are the text. What trimming
leaves has blanks on both sides and none at its own ends.
-/

namespace Propositional.Text

/-- The text lies between separators in these segments. -/
structure Segmented (sep : Char) (cs : List Char) (segments : List (List Char)) : Prop where
  ne_nil : segments ≠ []
  not_mem : ∀ segment ∈ segments, sep ∉ segment
  intercalate_eq : [sep].intercalate segments = cs

def AllBlank (cs : List Char) : Prop := ∀ c ∈ cs, isBlank c = true

/-- The text is `inner` with blanks on both sides, as many as there are. -/
structure Trimmed (cs inner : List Char) : Prop where
  exists_blanks : ∃ before after, AllBlank before ∧ AllBlank after ∧ cs = before ++ inner ++ after
  head : ∀ c ∈ inner.head?, isBlank c = false
  last : ∀ c ∈ inner.getLast?, isBlank c = false

variable {sep : Char} {cs inner : List Char} {segments : List (List Char)}

theorem splitAll_intercalate (hne : segments ≠ []) (h : ∀ segment ∈ segments, sep ∉ segment) :
    splitAll sep ([sep].intercalate segments) = segments := by
  induction segments with
  | nil => exact absurd rfl hne
  | cons first rest ih =>
    obtain ⟨hfirst, hrest⟩ := List.forall_mem_cons.1 h
    cases rest with
    | nil => rw [List.intercalate_singleton, splitAll_of_not_mem hfirst]
    | cons second rest =>
      rw [List.intercalate_cons_cons, List.append_assoc, List.singleton_append,
        splitAll_append hfirst, ih (List.cons_ne_nil _ _) hrest]

theorem segmented_splitAll (sep : Char) (cs : List Char) :
    Segmented sep cs (splitAll sep cs) := by
  induction cs with
  | nil => exact ⟨List.cons_ne_nil _ _, by simp [splitAll], rfl⟩
  | cons c cs ih =>
    obtain ⟨hne, hmem, hjoin⟩ := ih
    rw [splitAll]
    split
    · rename_i hc
      refine ⟨List.cons_ne_nil _ _, List.forall_mem_cons.2 ⟨List.not_mem_nil, hmem⟩, ?_⟩
      obtain ⟨first, rest, hsplit⟩ := List.exists_cons_of_ne_nil hne
      rw [hsplit, List.intercalate_cons_cons, ← hsplit, hjoin, hc]
      rfl
    · rename_i hc
      obtain ⟨first, rest, hsplit⟩ := List.exists_cons_of_ne_nil hne
      rw [hsplit] at hmem hjoin ⊢
      obtain ⟨hfirst, hrest⟩ := List.forall_mem_cons.1 hmem
      refine ⟨List.cons_ne_nil _ _, List.forall_mem_cons.2 ⟨?_, hrest⟩, ?_⟩
      · exact List.not_mem_cons_of_ne_of_not_mem (Ne.symm hc) hfirst
      · cases rest with
        | nil => rw [List.intercalate_singleton] at hjoin ⊢; rw [hjoin]
        | cons second rest => rw [List.intercalate_cons_cons] at hjoin ⊢; rw [← hjoin]; rfl

theorem splitAll_eq_iff : splitAll sep cs = segments ↔ Segmented sep cs segments := by
  constructor
  · rintro rfl
    exact segmented_splitAll sep cs
  · rintro ⟨hne, hmem, rfl⟩
    exact splitAll_intercalate hne hmem

theorem not_mem_of_splitOnce? {before after : List Char}
    (h : splitOnce? sep cs = some (before, after)) : sep ∉ before := by
  induction cs generalizing before with
  | nil => cases h
  | cons c cs ih =>
    rw [splitOnce?] at h
    split at h
    · cases h
      exact List.not_mem_nil
    · rename_i hc
      obtain ⟨⟨b, a⟩, hs, he⟩ := Option.map_eq_some_iff.1 h
      cases he
      exact List.not_mem_cons_of_ne_of_not_mem (Ne.symm hc) (ih hs)

theorem dropWhile_of_head? (h : ∀ c ∈ cs.head?, isBlank c = false) :
    cs.dropWhile isBlank = cs := by
  cases cs with
  | nil => rfl
  | cons c cs => rw [List.dropWhile_cons_of_neg (by simp [h c rfl])]

theorem dropWhile_of_allBlank (h : AllBlank cs) : cs.dropWhile isBlank = [] := by
  have hdrop : (cs ++ []).dropWhile isBlank = [].dropWhile isBlank :=
    List.dropWhile_append_of_pos h
  rwa [List.append_nil] at hdrop

theorem isBlank_of_head?_dropWhile {c : Char} (hc : c ∈ (cs.dropWhile isBlank).head?) :
    isBlank c = false := by
  have h := List.head?_dropWhile_not isBlank cs
  rwa [Option.mem_def.1 hc] at h

theorem allBlank_takeWhile (cs : List Char) : AllBlank (cs.takeWhile isBlank) :=
  List.all_eq_true.1 List.all_takeWhile

theorem AllBlank.reverse (h : AllBlank cs) : AllBlank cs.reverse :=
  fun c hc => h c (List.mem_reverse.1 hc)

theorem Trimmed.trim_eq (h : Trimmed cs inner) : trim cs = inner := by
  obtain ⟨⟨before, after, hbefore, hafter, rfl⟩, hhead, hlast⟩ := h
  rw [trim, List.append_assoc, List.dropWhile_append_of_pos hbefore]
  cases inner with
  | nil => rw [List.nil_append, dropWhile_of_allBlank hafter]; rfl
  | cons c inner =>
    have hfront : ((c :: inner) ++ after).dropWhile isBlank = (c :: inner) ++ after :=
      dropWhile_of_head? hhead
    have hback : (c :: inner).reverse.dropWhile isBlank = (c :: inner).reverse :=
      dropWhile_of_head? fun d hd => hlast d (by rwa [List.head?_reverse] at hd)
    rw [hfront, List.reverse_append, List.dropWhile_append_of_pos hafter.reverse, hback,
      List.reverse_reverse]

theorem trimmed_trim (cs : List Char) : Trimmed cs (trim cs) := by
  -- the text without the blanks in front, and what of it is left behind, read from the end
  let body := cs.dropWhile isBlank
  have hbody : body = trim cs ++ (body.reverse.takeWhile isBlank).reverse := by
    rw [trim, ← List.reverse_append, List.takeWhile_append_dropWhile, List.reverse_reverse]
  refine ⟨⟨cs.takeWhile isBlank, (body.reverse.takeWhile isBlank).reverse, allBlank_takeWhile cs,
    (allBlank_takeWhile _).reverse, ?_⟩, fun c hc => ?_, fun c hc => ?_⟩
  · rw [List.append_assoc, ← hbody, List.takeWhile_append_dropWhile]
  · have hbodyHead : c ∈ body.head? := by
      rw [hbody, List.head?_append, Option.mem_def.1 hc]
      rfl
    exact isBlank_of_head?_dropWhile hbodyHead
  · rw [trim, List.getLast?_reverse] at hc
    exact isBlank_of_head?_dropWhile hc

theorem trim_eq_iff : trim cs = inner ↔ Trimmed cs inner := by
  constructor
  · rintro rfl
    exact trimmed_trim cs
  · exact Trimmed.trim_eq

end Propositional.Text
