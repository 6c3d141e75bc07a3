import GamePlugin.Outline
import Mathlib.Algebra.BigOperators.Group.List.Lemmas
import Mathlib.Algebra.GroupWithZero.Nat

/-!
# Histograms

A histogram has one line for each record tag of an outline: the tag and the number of its records.
Counting a record keeps the lines right for the records up to it (`Outline.Tallies.tally_next`), so
one pass gives those of all records (`Outline.tallies_foldl`), in the order of their first records.

The lines can be gathered in any other order (`Outline.Tallies`). Listed, one always comes before
the other (`Outline.Precedes`), since no two lines have the same tag, so sorting leaves nothing of
the order in which they were gathered or in which the records stand in the file.

## Main definitions

* `Outline.Tallies` — lines that are those of the histogram, in some order.
* `Outline.Precedes` — the order of lines in the histogram.
-/

namespace GamePlugin.Outline

variable {o o' : Outline} {lines : List (Tag × Nat)}

/-! ## Lines -/

/-- The lines name each tag of the outline once, with its number of records, and no other tag. -/
structure Tallies (o : Outline) (lines : List (Tag × Nat)) : Prop where
  mem_iff : ∀ tag n, (tag, n) ∈ lines ↔ tag ∈ o.tags ∧ n = o.count tag
  nodup_tags : (lines.map Prod.fst).Nodup

theorem Tallies.nodup (T : o.Tallies lines) : lines.Nodup := T.nodup_tags.of_map

/-- The lines can stand in any order, and in no other way do two lists of them differ. -/
theorem Tallies.perm_iff (T : o.Tallies lines) {lines' : List (Tag × Nat)} :
    lines'.Perm lines ↔ o.Tallies lines' := by
  constructor
  · intro h
    refine ⟨fun tag n => ?_, ?_⟩
    · rw [h.mem_iff, T.mem_iff]
    · exact (h.map Prod.fst).nodup_iff.mpr T.nodup_tags
  · intro T'
    refine (List.perm_ext_iff_of_nodup T'.nodup T.nodup).mpr ?_
    rintro ⟨tag, n⟩
    rw [T'.mem_iff, T.mem_iff]

/-! ## Counting -/

section Tally

variable {tag t : Tag} {n : Nat}

theorem map_fst_tally (lines : List (Tag × Nat)) (tag : Tag) :
    (tally lines tag).map Prod.fst =
      if tag ∈ lines.map Prod.fst then lines.map Prod.fst else lines.map Prod.fst ++ [tag] := by
  fun_induction tally lines tag with
  | case1 => rfl
  | case2 => simp
  | case3 t n lines tag hne ih =>
    simp only [List.map_cons, List.mem_cons, Ne.symm hne, false_or, ih]
    split <;> rfl

theorem mem_tally_of_ne (hne : t ≠ tag) : (t, n) ∈ tally lines tag ↔ (t, n) ∈ lines := by
  fun_induction tally lines tag with
  | case1 => simp [hne]
  | case2 => simp [hne]
  | case3 s m lines tag _ ih => rw [List.mem_cons, List.mem_cons, ih hne]

/-- The line of the tag that is counted. -/
theorem mem_tally_self (hnodup : (lines.map Prod.fst).Nodup) :
    (tag, n) ∈ tally lines tag ↔
      (∃ m, (tag, m) ∈ lines ∧ n = m + 1) ∨ tag ∉ lines.map Prod.fst ∧ n = 1 := by
  fun_induction tally lines tag with
  | case1 => simp
  | case2 m lines tag =>
    have habsent (k : Nat) : (tag, k) ∉ lines := fun hk =>
      (List.nodup_cons.mp hnodup).1 (List.mem_map.mpr ⟨_, hk, rfl⟩)
    simp [habsent]
  | case3 s m lines tag hne ih =>
    simp [Ne.symm hne, ih (List.nodup_cons.mp hnodup).2]

theorem sum_tally (lines : List (Tag × Nat)) (tag : Tag) :
    ((tally lines tag).map Prod.snd).sum = (lines.map Prod.snd).sum + 1 := by
  fun_induction tally lines tag with
  | case1 => rfl
  | case2 n lines tag =>
    simp only [List.map_cons, List.sum_cons]
    omega
  | case3 t n lines tag _ ih =>
    simp only [List.map_cons, List.sum_cons, ih]
    omega

end Tally

theorem Tallies.mem_tags (T : o.Tallies lines) {tag : Tag} :
    tag ∈ lines.map Prod.fst ↔ tag ∈ o.tags := by
  constructor
  · intro h
    obtain ⟨⟨_, n⟩, hmem, rfl⟩ := List.mem_map.mp h
    exact ((T.mem_iff _ n).mp hmem).1
  · intro h
    exact List.mem_map.mpr ⟨_, (T.mem_iff tag _).mpr ⟨h, rfl⟩, rfl⟩

/-- Counting the next record makes the lines right for one record more. -/
theorem Tallies.tally_next (T : o.Tallies lines) {tag : Tag} (htags : o'.tags = o.tags ++ [tag]) :
    o'.Tallies (tally lines tag) where
  mem_iff t n := by
    rw [count, htags]
    by_cases ht : t = tag
    · subst ht
      have hcount : t ∉ o.tags → o.tags.count t = 0 := List.count_eq_zero_of_not_mem
      simp only [mem_tally_self T.nodup_tags, T.mem_tags, T.mem_iff, count, List.count_append,
        List.count_singleton_self, List.mem_append, List.mem_singleton, or_true, true_and]
      by_cases hmem : t ∈ o.tags
      · simp [hmem]
      · simp [hmem, hcount hmem]
    · simp [mem_tally_of_ne ht, T.mem_iff, count, List.count_append, ht, Ne.symm ht]
  nodup_tags := by
    rw [map_fst_tally]
    split
    case isTrue => exact T.nodup_tags
    case isFalse h =>
      rw [← List.concat_eq_append]
      exact T.nodup_tags.concat h

/-- One pass over the records gives the lines of all of them. -/
theorem tallies_foldl (o : Outline) : o.Tallies (o.tags.foldl tally []) := by
  -- By induction on the records from the last one back, as each is counted after those before it.
  obtain ⟨schema, length, ⟨records⟩, groups⟩ := o
  induction records using List.reverseRecOn with
  | nil => exact ⟨by simp [tags], List.nodup_nil⟩
  | append_singleton records entry ih =>
    have htags : tags ⟨schema, length, ⟨records ++ [entry]⟩, groups⟩ =
        tags ⟨schema, length, ⟨records⟩, groups⟩ ++ [entry.header.tag] := List.map_append
    rw [htags, List.foldl_append]
    exact ih.tally_next htags

theorem tallies_histogram (o : Outline) : o.Tallies o.histogram :=
  o.tallies_foldl.perm_iff.mp (List.mergeSort_perm _ _)

theorem sum_foldl_tally (tags : List Tag) (lines : List (Tag × Nat)) :
    ((tags.foldl tally lines).map Prod.snd).sum =
      (lines.map Prod.snd).sum + tags.length := by
  induction tags generalizing lines with
  | nil => rfl
  | cons tag tags ih =>
    rw [List.foldl_cons, ih, sum_tally, List.length_cons]
    omega

/-- Each record is counted in one line. -/
theorem Tallies.sum_eq (T : o.Tallies lines) : (lines.map Prod.snd).sum = o.records.size := by
  have hlines := (o.tallies_foldl.perm_iff.mpr T).map Prod.snd
  calc (lines.map Prod.snd).sum
    _ = ((o.tags.foldl tally []).map Prod.snd).sum := hlines.sum_eq
    _ = o.tags.length := by rw [sum_foldl_tally, List.map_nil, List.sum_nil, Nat.zero_add]
    _ = o.records.size := by simp [tags]

/-! ## Order -/

/-- A line stands before another: its tag is more frequent, or as frequent and smaller. -/
def Precedes (a b : Tag × Nat) : Prop := b.2 < a.2 ∨ a.2 = b.2 ∧ a.1.code < b.1.code

instance (a b : Tag × Nat) : Decidable (Precedes a b) := inferInstanceAs (Decidable (_ ∨ _))

theorem histogramLe_iff {a b : Tag × Nat} : histogramLe a b ↔ Precedes a b ∨ a = b := by
  obtain ⟨⟨s⟩, m⟩ := a
  obtain ⟨⟨t⟩, n⟩ := b
  simp only [histogramLe, Precedes, Tag.le, Bool.or_eq_true, Bool.and_eq_true, decide_eq_true_eq,
    beq_iff_eq, UInt32.le_iff_toNat_le, UInt32.lt_iff_toNat_lt, Prod.mk.injEq, Tag.mk.injEq,
    ← UInt32.toNat_inj]
  omega

theorem Precedes.trans {a b c : Tag × Nat} (hab : Precedes a b) (hbc : Precedes b c) :
    Precedes a c := by
  simp only [Precedes, UInt32.lt_iff_toNat_lt] at *
  omega

theorem Precedes.asymm {a b : Tag × Nat} (hab : Precedes a b) : ¬Precedes b a := by
  simp only [Precedes, UInt32.lt_iff_toNat_lt] at *
  omega

theorem histogramLe_trans (a b c : Tag × Nat) (hab : histogramLe a b) (hbc : histogramLe b c) :
    histogramLe a c := by
  rw [histogramLe_iff] at hab hbc ⊢
  obtain hab | rfl := hab
  · obtain hbc | rfl := hbc
    · exact .inl (hab.trans hbc)
    · exact .inl hab
  · exact hbc

theorem histogramLe_total (a b : Tag × Nat) : histogramLe a b || histogramLe b a := by
  simp only [histogramLe, Tag.le, Bool.or_eq_true, Bool.and_eq_true, decide_eq_true_eq, beq_iff_eq,
    UInt32.le_iff_toNat_le]
  omega

/-- No two lines are alike, so they are sorted strictly. -/
theorem Tallies.pairwise_mergeSort (T : o.Tallies lines) :
    (lines.mergeSort histogramLe).Pairwise Precedes := by
  have hsorted : (lines.mergeSort histogramLe).Pairwise fun a b => histogramLe a b :=
    List.pairwise_mergeSort histogramLe_trans histogramLe_total lines
  have hnodup : (lines.mergeSort histogramLe).Nodup :=
    (List.mergeSort_perm ..).nodup_iff.mpr T.nodup
  exact hsorted.imp₂ (fun a b hle hne => (histogramLe_iff.mp hle).resolve_right hne) hnodup

theorem pairwise_histogram (o : Outline) : o.histogram.Pairwise Precedes :=
  o.tallies_foldl.pairwise_mergeSort

/-- Lines that are sorted are the histogram. -/
theorem Tallies.eq_histogram (T : o.Tallies lines) (hsorted : lines.Pairwise Precedes) :
    lines = o.histogram :=
  (o.tallies_histogram.perm_iff.mpr T).eq_of_pairwise
    (fun _ _ _ _ hab hba => absurd hba hab.asymm) hsorted o.pairwise_histogram

/-- However the lines were gathered, sorting them gives the histogram. -/
theorem Tallies.mergeSort_eq (T : o.Tallies lines) : lines.mergeSort histogramLe = o.histogram :=
  Tallies.eq_histogram (T.perm_iff.mp (List.mergeSort_perm ..)) T.pairwise_mergeSort

/-- The lines do not depend on the order of the records. -/
theorem Tallies.of_perm (T : o.Tallies lines) (h : o'.records.toList.Perm o.records.toList) :
    o'.Tallies lines := by
  have htags : o'.tags.Perm o.tags := h.map _
  refine ⟨fun tag n => ?_, T.nodup_tags⟩
  rw [T.mem_iff, htags.mem_iff, count, count, htags.count_eq]

/-- **The histogram is complete, and there is only one.** It has one line for each tag among the
records, with the number of its records, so all lines together count every record once. More
frequent tags come first and equally frequent ones by their word. The same lines gathered in any
order are sorted to it, and so are those of the same records in any order. -/
theorem histogram_canonical (o : Outline) :
    o.Tallies o.histogram ∧ (o.histogram.map Prod.snd).sum = o.records.size ∧
      o.histogram.Pairwise Precedes ∧
      (∀ lines, o.Tallies lines → lines.mergeSort histogramLe = o.histogram) ∧
      ∀ o' : Outline, o'.records.toList.Perm o.records.toList → o'.histogram = o.histogram := by
  refine ⟨o.tallies_histogram, o.tallies_histogram.sum_eq, o.pairwise_histogram,
    fun lines T => T.mergeSort_eq, fun o' h => ?_⟩
  exact (o'.tallies_histogram.of_perm h.symm).eq_histogram o'.pairwise_histogram

/-- Records with the given tags, in order. -/
def ofTags (tags : List Tag) : Outline where
  schema := .tes4
  length := 0
  records := (tags.map fun tag => ⟨⟨tag, 0, 0, ⟨0⟩, 0, none⟩, none⟩).toArray

/-- Two tags are equally frequent. The one with the smaller word comes first, though its text is the
later one. -/
theorem histogram_canonical_ties :
    let o := ofTags [.TES4, .CELL, .GLOB, .CELL, .GLOB]
    let o' := ofTags [.GLOB, .CELL, .CELL, .GLOB, .TES4]
    o'.records.toList.Perm o.records.toList ∧ o'.histogram = o.histogram ∧
      o.histogram = [(.GLOB, 2), (.CELL, 2), (.TES4, 1)] := by
  intro o o'
  have hperm : o'.records.toList.Perm o.records.toList := by decide
  have hlines : o.Tallies [(.GLOB, 2), (.CELL, 2), (.TES4, 1)] :=
    o.tallies_foldl.perm_iff.mp (by decide)
  exact ⟨hperm, (histogram_canonical o).2.2.2.2 o' hperm, (hlines.eq_histogram (by decide)).symm⟩

end GamePlugin.Outline
