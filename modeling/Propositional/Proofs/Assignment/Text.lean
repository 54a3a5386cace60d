import Propositional.Assignment.Text
import Propositional.Proofs.Formula.Eval
import Propositional.Proofs.Text.Segment
import Propositional.Text.CharClass

/-!
# What an assignment in text says

Which assignment a text writes, or what is wrong with it, is said here segment by segment: one that
is not blank writes an entry (`Writes`) or is refused for one reason (`Refused`). Entries add up,
the last one for a variable counts, and the leftmost refused segment is the error (`Reading`).
Blanks are no part of an entry, so the entries of an assignment can be spaced and ordered at will.
-/

namespace Propositional

namespace Assignment

open Text

variable {a a' : Assignment} {v : Variable} {b : Bool} {es : List (Variable × Bool)}

/-! ### Entries -/

/-- The last entry for `v` gives it `b`. -/
def LastEntry (es : List (Variable × Bool)) (v : Variable) (b : Bool) : Prop :=
  ∃ before after, es = before ++ (v, b) :: after ∧ ∀ e ∈ after, e.1 ≠ v

theorem get?_ofList_eq_some_iff : (ofList es).get? v = some b ↔ LastEntry es v b := by
  rw [get?_ofList, List.lookup_eq_some_iff]
  constructor
  · rintro ⟨after, before, hes, hafter⟩
    refine ⟨before.reverse, after.reverse, ?_, fun e he => ?_⟩
    · rw [← es.reverse_reverse, hes]
      simp
    · exact Ne.symm (bne_iff_ne.1 (hafter e (List.mem_reverse.1 he)))
  · rintro ⟨before, after, rfl, hafter⟩
    refine ⟨after.reverse, before.reverse, by simp, fun e he => ?_⟩
    exact bne_iff_ne.2 (Ne.symm (hafter e (List.mem_reverse.1 he)))

theorem nodup_entries (a : Assignment) : (a.entries.map (·.1)).Nodup := by
  refine List.pairwise_map.2 (a.ascending.imp fun {e e'} h => ?_)
  intro he
  exact e'.1.lt_irrefl (he ▸ h)

/-- Among entries for different variables every one is the last. -/
theorem lastEntry_iff_mem (h : (es.map (·.1)).Nodup) : LastEntry es v b ↔ (v, b) ∈ es := by
  refine ⟨?_, fun hv => get?_ofList_eq_some_iff.1 (get?_ofList_of_mem h hv)⟩
  rintro ⟨before, after, rfl, -⟩
  simp

theorem mem_entries_iff : (v, b) ∈ a.entries ↔ a.get? v = some b := by
  rw [get?, List.lookup_eq_some_iff]
  constructor
  · intro hv
    obtain ⟨before, after, hes⟩ := List.append_of_mem hv
    refine ⟨before, after, hes, fun e he => ?_⟩
    have hsorted := a.ascending
    rw [hes] at hsorted
    have hlt : e.1 < v := (List.pairwise_append.1 hsorted).2.2 e he _ List.mem_cons_self
    rw [bne_iff_ne]
    rintro rfl
    exact e.1.lt_irrefl hlt
  · rintro ⟨before, after, hes, -⟩
    rw [hes]
    simp

/-- An assignment is the values it gives. -/
theorem ext_get? (h : ∀ v b, a.get? v = some b ↔ a'.get? v = some b) : a = a' := by
  have hmem (e : Variable × Bool) : e ∈ a.entries ↔ e ∈ a'.entries := by
    rw [mem_entries_iff, mem_entries_iff, h]
  have hnodup (a : Assignment) : a.entries.Nodup :=
    (List.pairwise_map.1 a.nodup_entries).imp fun hne he => hne (congrArg Prod.fst he)
  have hperm : a.entries.Perm a'.entries :=
    (List.perm_ext_iff_of_nodup (hnodup a) (hnodup a')).2 hmem
  have hentries : a.entries = a'.entries := by
    refine hperm.eq_of_pairwise (fun e e' _ _ hlt hgt => ?_) a.ascending a'.ascending
    exact absurd (Variable.lt_trans hlt hgt) e.1.lt_irrefl
  cases a
  cases a'
  cases hentries
  rfl

/-! ### Segments -/

/-- The segment has a name and a bit on the two sides of a colon, and else only blanks. -/
inductive Writes : List Char → Variable × Bool → Prop where
  | entry {name bit : List Char} {v : Variable} {b : Bool} : Trimmed name v.name.toList →
      Trimmed bit [if b then '1' else '0'] → Writes (name ++ ':' :: bit) (v, b)

theorem writes_of_allBlank {front back front' back' : List Char} (hfront : AllBlank front)
    (hback : AllBlank back) (hfront' : AllBlank front') (hback' : AllBlank back') (v : Variable)
    (b : Bool) :
    Writes (front ++ v.name.toList ++ back ++ ':' :: (front' ++ [if b then '1' else '0'] ++ back'))
      (v, b) := by
  have hdigit : isBlank (if b then '1' else '0') = false := by cases b <;> decide
  refine .entry ⟨⟨front, back, hfront, hback, rfl⟩, fun c hc => ?_, fun c hc => ?_⟩
    ⟨⟨front', back', hfront', hback', rfl⟩, fun c hc => ?_, fun c hc => ?_⟩
  · exact isBlank_eq_false_of_isWord (v.isName.2 c (List.mem_of_mem_head? hc))
  · exact isBlank_eq_false_of_isWord (v.isName.2 c (List.mem_of_mem_getLast? hc))
  · exact List.mem_singleton.1 (List.mem_of_mem_head? hc) ▸ hdigit
  · exact List.mem_singleton.1 (List.mem_of_mem_getLast? hc) ▸ hdigit

/-- What is wrong with a segment that is not blank. What stands before the first colon is asked for
a name before what stands behind it is asked for a bit. -/
inductive Refused : List Char → AssignmentError → Prop where
  | missingColon {segment : List Char} : ':' ∉ segment →
      Refused segment (.missingColon (String.ofList segment))
  | invalidName {name inner bit : List Char} : ':' ∉ name → Trimmed name inner →
      ¬ IsName (String.ofList inner) →
      Refused (name ++ ':' :: bit) (.invalidName (String.ofList name))
  | invalidBit {name bit inner : List Char} {v : Variable} : Trimmed name v.name.toList →
      Trimmed bit inner → inner ≠ ['0'] → inner ≠ ['1'] →
      Refused (name ++ ':' :: bit) (.invalidBit (String.ofList inner) v)

/-- The segments write these entries in turn, but for blank ones, which write none. -/
inductive WritesAll : List (List Char) → List (Variable × Bool) → Prop where
  | nil : WritesAll [] []
  | blank {segment : List Char} {rest : List (List Char)} {es : List (Variable × Bool)} :
      AllBlank segment → WritesAll rest es → WritesAll (segment :: rest) es
  | entry {segment : List Char} {rest : List (List Char)} {e : Variable × Bool}
      {es : List (Variable × Bool)} :
      Writes segment e → WritesAll rest es → WritesAll (segment :: rest) (e :: es)

/-- What a text between semicolons says: the assignment that gives each variable of its entries the
bit of the last one for it, or the first thing that is wrong. -/
inductive Reading (cs : List Char) : Except AssignmentError Assignment → Prop where
  | ok {segments : List (List Char)} {es : List (Variable × Bool)} {a : Assignment} :
      Segmented ';' cs segments → WritesAll segments es →
      (∀ v b, a.get? v = some b ↔ LastEntry es v b) → Reading cs (.ok a)
  | error {before after : List (List Char)} {segment : List Char} {es : List (Variable × Bool)}
      {e : AssignmentError} : Segmented ';' cs (before ++ segment :: after) →
      WritesAll before es → ¬ AllBlank segment → Refused segment e → Reading cs (.error e)

variable {segment name cs : List Char} {before after segments : List (List Char)}
  {e : Variable × Bool} {err : AssignmentError}

theorem mem_or_isBlank_of_trimmed {inner : List Char} (h : Trimmed cs inner) {c : Char}
    (hc : c ∈ cs) : c ∈ inner ∨ isBlank c = true := by
  obtain ⟨⟨front, back, hfront, hback, rfl⟩, -, -⟩ := h
  rcases List.mem_append.1 hc with hc | hc
  · exact (List.mem_append.1 hc).elim (fun hc => .inr (hfront c hc)) .inl
  · exact .inr (hback c hc)

/-- Names and blanks have no separators. -/
theorem not_mem_of_trimmed_name (h : Trimmed name v.name.toList) {c : Char}
    (hword : isWord c = false) (hblank : isBlank c = false) : c ∉ name := by
  intro hc
  rcases mem_or_isBlank_of_trimmed h hc with hc | hc
  · exact absurd (v.isName.2 c hc) (by simp [hword])
  · exact absurd hc (by simp [hblank])

theorem Writes.not_allBlank (h : Writes segment e) : ¬ AllBlank segment := by
  cases h with
  | entry _ _ => exact fun hblank => absurd (hblank ':' (by simp)) (by decide)

theorem Writes.semicolon_not_mem (h : Writes segment e) : ';' ∉ segment := by
  cases h with
  | @entry name bit v b hname hbit =>
    intro hc
    rcases List.mem_append.1 hc with hc | hc
    · exact not_mem_of_trimmed_name hname (by decide) (by decide) hc
    · rcases List.mem_cons.1 hc with hc | hc
      · exact absurd hc (by decide)
      · rcases mem_or_isBlank_of_trimmed hbit hc with hc | hc
        · cases b <;> exact absurd hc (by decide)
        · exact absurd hc (by decide)

theorem readBit?_digit (b : Bool) : readBit? [if b then '1' else '0'] = some b := by
  cases b <;> rfl

theorem Writes.readEntry_eq (h : Writes segment e) : readEntry segment = .ok e := by
  cases h with
  | @entry name bit v b hname hbit =>
    have hcolon : ':' ∉ name := not_mem_of_trimmed_name hname (by decide) (by decide)
    simp only [readEntry, splitOnce?_append hcolon, hname.trim_eq, hbit.trim_eq,
      String.ofList_toList, Variable.ofName?_name, readBit?_digit]

theorem Refused.readEntry_eq (h : Refused segment err) : readEntry segment = .error err := by
  cases h with
  | missingColon hcolon => simp only [readEntry, splitOnce?_eq_none_iff.2 hcolon]
  | invalidName hcolon hname hinvalid =>
    simp only [readEntry, splitOnce?_append hcolon, hname.trim_eq,
      Variable.ofName?_eq_none_iff.2 hinvalid]
  | @invalidBit name bit inner v hname hbit hzero hone =>
    have hcolon : ':' ∉ name := not_mem_of_trimmed_name hname (by decide) (by decide)
    have hinvalid : readBit? inner = none := by rw [readBit?, if_neg hone, if_neg hzero]
    simp only [readEntry, splitOnce?_append hcolon, hname.trim_eq, hbit.trim_eq,
      String.ofList_toList, Variable.ofName?_name, hinvalid]

theorem exists_writes_or_refused (segment : List Char) :
    (∃ e, Writes segment e) ∨ ∃ err, Refused segment err := by
  cases hsplit : splitOnce? ':' segment with
  | none => exact .inr ⟨_, .missingColon (splitOnce?_eq_none_iff.1 hsplit)⟩
  | some parts =>
    obtain ⟨name, bit⟩ := parts
    obtain rfl := eq_of_splitOnce? hsplit
    have hcolon := not_mem_of_splitOnce? hsplit
    by_cases hname : IsName (String.ofList (trim name))
    · have hv : Trimmed name (Variable.mk _ hname).name.toList := by
        rw [String.toList_ofList]
        exact trimmed_trim name
      by_cases hzero : trim bit = ['0']
      · exact .inl ⟨(_, false), .entry hv (hzero ▸ trimmed_trim bit)⟩
      · by_cases hone : trim bit = ['1']
        · exact .inl ⟨(_, true), .entry hv (hone ▸ trimmed_trim bit)⟩
        · exact .inr ⟨_, .invalidBit hv (trimmed_trim bit) hzero hone⟩
    · exact .inr ⟨_, .invalidName hcolon (trimmed_trim name) hname⟩

/-! ### Texts -/

/-- Reading the segments that are not blank. -/
def readAll (segments : List (List Char)) : Except AssignmentError (List (Variable × Bool)) :=
  (segments.filter fun segment => !segment.all isBlank).mapM readEntry

theorem readAll_cons_of_allBlank (h : AllBlank segment) (rest : List (List Char)) :
    readAll (segment :: rest) = readAll rest := by
  rw [readAll, List.filter_cons_of_neg (by simpa [AllBlank] using h), readAll]

theorem readAll_cons (h : ¬ AllBlank segment) (rest : List (List Char)) :
    readAll (segment :: rest) = (readEntry segment).bind fun e => (readAll rest).map (e :: ·) := by
  rw [readAll, List.filter_cons_of_pos (by simpa [AllBlank] using h), List.mapM_cons]
  rfl

theorem WritesAll.readAll_eq (h : WritesAll segments es) : readAll segments = .ok es := by
  induction h with
  | nil => rfl
  | blank hblank _ ih => rw [readAll_cons_of_allBlank hblank, ih]
  | entry hentry _ ih => rw [readAll_cons hentry.not_allBlank, hentry.readEntry_eq, ih]; rfl

theorem WritesAll.readAll_eq_error (h : WritesAll before es) (hblank : ¬ AllBlank segment)
    (hrefused : Refused segment err) (after : List (List Char)) :
    readAll (before ++ segment :: after) = .error err := by
  induction h with
  | nil => rw [List.nil_append, readAll_cons hblank, hrefused.readEntry_eq]; rfl
  | blank hfirst _ ih => rw [List.cons_append, readAll_cons_of_allBlank hfirst, ih]
  | entry hentry _ ih =>
    rw [List.cons_append, readAll_cons hentry.not_allBlank, hentry.readEntry_eq, ih]
    rfl

theorem ofText_ofList_of_segmented (h : Segmented ';' cs segments) :
    ofText (String.ofList cs) = (readAll segments).map ofList := by
  rw [ofText, String.toList_ofList, Assignment.segments, splitAll_eq_iff.2 h, readAll]

theorem Reading.ofText_eq {r : Except AssignmentError Assignment} (h : Reading cs r) :
    ofText (String.ofList cs) = r := by
  cases h with
  | ok hcs hwrites hget =>
    rw [ofText_ofList_of_segmented hcs, hwrites.readAll_eq]
    exact congrArg Except.ok (ext_get? fun v b => get?_ofList_eq_some_iff.trans (hget v b).symm)
  | error hcs hwrites hblank hrefused =>
    rw [ofText_ofList_of_segmented hcs, hwrites.readAll_eq_error hblank hrefused]
    rfl

/-- All segments write their entries, or there is a leftmost one that is refused. -/
theorem exists_writesAll_or_refused (segments : List (List Char)) :
    (∃ es, WritesAll segments es) ∨
      ∃ before segment after es err, segments = before ++ segment :: after ∧
        WritesAll before es ∧ ¬ AllBlank segment ∧ Refused segment err := by
  induction segments with
  | nil => exact .inl ⟨[], .nil⟩
  | cons first rest ih =>
    by_cases hblank : AllBlank first
    · rcases ih with ⟨es, hes⟩ | ⟨before, segment, after, es, err, rfl, hbefore, hsegment, herr⟩
      · exact .inl ⟨es, .blank hblank hes⟩
      · exact .inr ⟨first :: before, segment, after, es, err, rfl, .blank hblank hbefore,
          hsegment, herr⟩
    · rcases exists_writes_or_refused first with ⟨e, he⟩ | ⟨err, herr⟩
      · rcases ih with ⟨es, hes⟩ | ⟨before, segment, after, es, err, rfl, hbefore, hsegment, herr⟩
        · exact .inl ⟨e :: es, .entry he hes⟩
        · exact .inr ⟨first :: before, segment, after, e :: es, err, rfl, .entry he hbefore,
            hsegment, herr⟩
      · exact .inr ⟨[], first, rest, [], err, rfl, .nil, hblank, herr⟩

theorem exists_reading (cs : List Char) : ∃ r, Reading cs r := by
  have hcs := segmented_splitAll ';' cs
  rcases exists_writesAll_or_refused (splitAll ';' cs) with
    ⟨es, hes⟩ | ⟨before, segment, after, es, err, hsplit, hbefore, hsegment, herr⟩
  · exact ⟨.ok (ofList es), .ok hcs hes fun _ _ => get?_ofList_eq_some_iff⟩
  · exact ⟨.error err, .error (hsplit ▸ hcs) hbefore hsegment herr⟩

theorem ofText_eq_iff (s : String) (r : Except AssignmentError Assignment) :
    ofText s = r ↔ Reading s.toList r := by
  have hread {r : Except AssignmentError Assignment} (h : Reading s.toList r) : ofText s = r := by
    rw [← h.ofText_eq, String.ofList_toList]
  refine ⟨fun h => ?_, hread⟩
  obtain ⟨r', hr⟩ := exists_reading s.toList
  obtain rfl : r' = r := (hread hr).symm.trans h
  exact hr

theorem WritesAll.semicolon_not_mem (h : WritesAll segments es) :
    ∀ segment ∈ segments, ';' ∉ segment := by
  induction h with
  | nil => exact List.forall_mem_nil _
  | blank hblank _ ih =>
    exact List.forall_mem_cons.2 ⟨fun hc => absurd (hblank _ hc) (by decide), ih⟩
  | entry hentry _ ih => exact List.forall_mem_cons.2 ⟨hentry.semicolon_not_mem, ih⟩

/-- Entries that are those of an assignment write it, in any order. -/
theorem WritesAll.ofText_eq (h : WritesAll segments es) (hperm : es.Perm a.toList) :
    ofText (String.ofList ([';'].intercalate segments)) = .ok a := by
  have hget (v : Variable) (b : Bool) : a.get? v = some b ↔ LastEntry es v b := by
    have hnodup : (es.map (·.1)).Nodup := (hperm.map (·.1)).nodup_iff.2 a.nodup_entries
    rw [lastEntry_iff_mem hnodup, hperm.mem_iff]
    exact mem_entries_iff.symm
  by_cases hne : segments = []
  · -- no segment at all is the same text as a blank one
    subst hne
    exact Reading.ofText_eq (.ok ⟨List.cons_ne_nil [] [], by simp, rfl⟩
      (.blank (List.forall_mem_nil _) h) hget)
  · exact Reading.ofText_eq (.ok ⟨hne, h.semicolon_not_mem, rfl⟩ h hget)

/-- A text between semicolons says what its segments say, and nothing else decides what is read.
Blanks around a name and a bit make no difference, so an assignment is read back from its entries,
however they are ordered and spaced. -/
theorem ofText_eq_iff_reading :
    (∀ s r, ofText s = r ↔ Reading s.toList r) ∧
      (∀ v b front back front' back', AllBlank front → AllBlank back → AllBlank front' →
        AllBlank back' →
        Writes (front ++ v.name.toList ++ back ++
          ':' :: (front' ++ [if b then '1' else '0'] ++ back')) (v, b)) ∧
      ∀ a es segments, es.Perm (toList a) → WritesAll segments es →
        ofText (String.ofList ([';'].intercalate segments)) = .ok a :=
  ⟨ofText_eq_iff, fun v b _ _ _ _ hfront hback hfront' hback' =>
    writes_of_allBlank hfront hback hfront' hback' v b, fun _ _ _ hperm h => h.ofText_eq hperm⟩

/-- Two entries in descending order, with a blank of three bytes, behind a segment of blanks. -/
theorem ofText_eq_iff_reading_descending :
    let u : Variable := ⟨"U", by decide⟩
    let z : Variable := ⟨"Z1", by decide⟩
    let segments := [['\t', ' '], [' ', 'Z', '1', '\u2003', ':', '0'], ['U', ':', ' ', '1']]
    [(z, false), (u, true)].Perm (toList (ofList [(u, true), (z, false)])) ∧
      WritesAll segments [(z, false), (u, true)] ∧
      ofText (String.ofList ([';'].intercalate segments)) =
        .ok (ofList [(u, true), (z, false)]) := by
  intro u z segments
  have hentries : toList (ofList [(u, true), (z, false)]) = [(u, true), (z, false)] := by
    decide +kernel
  have hperm : [(z, false), (u, true)].Perm (toList (ofList [(u, true), (z, false)])) := by
    rw [hentries]
    exact .swap _ _ _
  have hz : Writes [' ', 'Z', '1', '\u2003', ':', '0'] (z, false) := by
    simpa [z] using ofText_eq_iff_reading.2.1 z false [' '] ['\u2003'] [] []
      (List.all_eq_true.1 (by decide)) (List.all_eq_true.1 (by decide)) (List.forall_mem_nil _)
      (List.forall_mem_nil _)
  have hu : Writes ['U', ':', ' ', '1'] (u, true) := by
    simpa [u] using ofText_eq_iff_reading.2.1 u true [] [] [' '] [] (List.forall_mem_nil _)
      (List.forall_mem_nil _) (List.all_eq_true.1 (by decide)) (List.forall_mem_nil _)
  have hsegments : WritesAll segments [(z, false), (u, true)] :=
    .blank (List.all_eq_true.1 (by decide)) (.entry hz (.entry hu .nil))
  exact ⟨hperm, hsegments, ofText_eq_iff_reading.2.2 _ _ _ hperm hsegments⟩

/-- Of two segments that are refused the left one is the error, for the first thing that is wrong
with it. -/
example : ofText "A:1; b c :2;D" = .error (.invalidName " b c ") := rfl

end Assignment

end Propositional
