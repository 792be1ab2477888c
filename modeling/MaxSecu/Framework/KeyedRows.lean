import Mathlib.Tactic

/-!
# Tables with unique keys

A table is a list of rows no two of which clash, where to clash is to share a key.  A batch is
inserted row by row; a row that clashes with one already there is skipped.
-/

namespace KeyedRows

variable {R : Type*} (clash : R → R → Prop) [DecidableRel clash]

/-- The rows of a batch that inserting it adds to a table. -/
def missing (rows : List R) : List R → List R
  | [] => []
  | r :: batch =>
    if ∃ s ∈ rows, clash s r then missing rows batch else r :: missing (rows ++ [r]) batch

/-- The rows of a batch that inserting it skips. -/
def skipped (rows : List R) : List R → List R
  | [] => []
  | r :: batch =>
    if ∃ s ∈ rows, clash s r then r :: skipped rows batch else skipped (rows ++ [r]) batch

variable {clash} {rows rows' batch batch' : List R} {r s : R}

lemma missing_sublist : (missing clash rows batch).Sublist batch := by
  induction batch generalizing rows with
  | nil => exact List.Sublist.refl _
  | cons r batch ih =>
    unfold missing
    split_ifs with hclash
    · exact ih.cons r
    · exact ih.cons_cons r

lemma not_clash_of_mem_missing (hr : r ∈ missing clash rows batch) (hs : s ∈ rows) :
    ¬ clash s r := by
  induction batch generalizing rows with
  | nil => simp [missing] at hr
  | cons first batch ih =>
    unfold missing at hr
    split_ifs at hr with hclash
    · exact ih hr hs
    · obtain rfl | hr := List.mem_cons.mp hr
      · intro h
        exact hclash ⟨s, hs, h⟩
      · exact ih hr (List.mem_append_left _ hs)

/-- Inserting keeps the rows of a table from clashing. -/
lemma pairwise_append_missing (h : rows.Pairwise fun a b => ¬ clash a b) :
    (rows ++ missing clash rows batch).Pairwise fun a b => ¬ clash a b := by
  induction batch generalizing rows with
  | nil => simpa [missing] using h
  | cons r batch ih =>
    unfold missing
    split_ifs with hclash
    · exact ih h
    · have hrows : (rows ++ [r]).Pairwise fun a b => ¬ clash a b := by
        refine List.pairwise_append.mpr ⟨h, List.pairwise_singleton _ _, ?_⟩
        intro a ha b hb hab
        obtain rfl := List.mem_singleton.mp hb
        exact hclash ⟨a, ha, hab⟩
      have := ih hrows
      rwa [List.append_assoc, List.singleton_append] at this

/-- After an insert every row of the batch has its keys in the table. -/
lemma exists_clash_of_mem (hrefl : ∀ r, clash r r) (hr : r ∈ batch) :
    ∃ s ∈ rows ++ missing clash rows batch, clash s r := by
  induction batch generalizing rows with
  | nil => simp at hr
  | cons first batch ih =>
    unfold missing
    split_ifs with hclash
    · obtain rfl | hr := List.mem_cons.mp hr
      · obtain ⟨s, hs, hsr⟩ := hclash
        exact ⟨s, List.mem_append_left _ hs, hsr⟩
      · exact ih hr
    · obtain rfl | hr := List.mem_cons.mp hr
      · exact ⟨r, by simp, hrefl r⟩
      · have hlater : ∃ s ∈ (rows ++ [first]) ++ missing clash (rows ++ [first]) batch, clash s r :=
          ih hr
        rwa [List.append_assoc, List.singleton_append] at hlater

/-- An insert whose keys are all there adds nothing. -/
lemma missing_eq_nil (h : ∀ r ∈ batch, ∃ s ∈ rows, clash s r) : missing clash rows batch = [] := by
  induction batch with
  | nil => rfl
  | cons r batch ih =>
    unfold missing
    rw [if_pos (h r List.mem_cons_self)]
    exact ih fun s hs => h s (List.mem_cons_of_mem _ hs)

section Batches

variable (hbatch : batch.Pairwise fun a b => ¬ clash a b)

include hbatch

/-- A batch without clashes of its own loses the rows that clash with the table. -/
lemma mem_missing : r ∈ missing clash rows batch ↔ r ∈ batch ∧ ∀ s ∈ rows, ¬ clash s r := by
  constructor
  · intro hr
    exact ⟨missing_sublist.subset hr, fun s hs => not_clash_of_mem_missing hr hs⟩
  · intro h
    obtain ⟨hr, hfree⟩ := h
    induction batch generalizing rows with
    | nil => simp at hr
    | cons first batch ih =>
      obtain ⟨hfirst, hrest⟩ := List.pairwise_cons.mp hbatch
      unfold missing
      obtain rfl | hr := List.mem_cons.mp hr
      · rw [if_neg (by simpa using hfree)]
        exact List.mem_cons_self
      · split_ifs with hclash
        · exact ih hrest hr hfree
        · refine List.mem_cons_of_mem _ (ih hrest hr ?_)
          intro s hs
          obtain hs | hs := List.mem_append.mp hs
          · exact hfree s hs
          · rw [List.mem_singleton.mp hs]
            exact hfirst r hr

lemma mem_skipped : r ∈ skipped clash rows batch ↔ r ∈ batch ∧ ∃ s ∈ rows, clash s r := by
  induction batch generalizing rows with
  | nil => simp [skipped]
  | cons first batch ih =>
    obtain ⟨hfirst, hrest⟩ := List.pairwise_cons.mp hbatch
    unfold skipped
    split_ifs with hclash
    · rw [List.mem_cons, ih hrest, List.mem_cons]
      constructor
      · rintro (rfl | ⟨hr, h⟩)
        · exact ⟨Or.inl rfl, hclash⟩
        · exact ⟨Or.inr hr, h⟩
      · rintro ⟨rfl | hr, h⟩
        · exact Or.inl rfl
        · exact Or.inr ⟨hr, h⟩
    · rw [ih hrest, List.mem_cons]
      constructor
      · rintro ⟨hr, s, hs, hsr⟩
        obtain hs | hs := List.mem_append.mp hs
        · exact ⟨Or.inr hr, s, hs, hsr⟩
        · obtain rfl := List.mem_singleton.mp hs
          exact absurd hsr (hfirst r hr)
      · rintro ⟨rfl | hr, h⟩
        · exact absurd h hclash
        · obtain ⟨s, hs, hsr⟩ := h
          exact ⟨hr, s, List.mem_append_left _ hs, hsr⟩

end Batches

omit [DecidableRel clash] in
/-- Rows that do not clash are distinct. -/
lemma nodup_of_not_clash (hrefl : ∀ r, clash r r) (h : rows.Pairwise fun a b => ¬ clash a b) :
    rows.Nodup := by
  refine h.imp ?_
  intro a b hab heq
  rw [heq] at hab
  exact hab (hrefl b)

/-- How many rows an insert adds depends on what the table and the batch hold, not on their
order. -/
lemma length_missing_congr (hrefl : ∀ r, clash r r)
    (hbatch : batch.Pairwise fun a b => ¬ clash a b)
    (hbatch' : batch'.Pairwise fun a b => ¬ clash a b) (hrows : ∀ r, r ∈ rows ↔ r ∈ rows')
    (hmem : ∀ r, r ∈ batch ↔ r ∈ batch') :
    (missing clash rows batch).length = (missing clash rows' batch').length := by
  have hnodup : (missing clash rows batch).Nodup :=
    nodup_of_not_clash hrefl (hbatch.sublist missing_sublist)
  have hnodup' : (missing clash rows' batch').Nodup :=
    nodup_of_not_clash hrefl (hbatch'.sublist missing_sublist)
  refine ((List.perm_ext_iff_of_nodup hnodup hnodup').mpr ?_).length_eq
  intro r
  rw [mem_missing hbatch, mem_missing hbatch', hmem r]
  simp only [hrows]

end KeyedRows
