import Mathlib.Tactic

/-!
# Cutting a list into pieces, and putting marked pieces together

`List.toChunks n` cuts a list into pieces of length `n`; its recursion equation gives the pieces'
number and concatenation.  The second half is about pieces that were each marked with an index and
with whether they come last: a list assembled from them whose marks read correctly is the original.
-/

namespace Framing

variable {α : Type} {n : ℕ}

/-- The loop of `toChunks` finishes the open piece and then cuts the rest. -/
lemma toChunks_go (hn : 0 < n) {xs : List α} {acc₁ : Array α} {acc₂ : Array (List α)}
    (hacc : acc₁.size ≤ n) :
    List.toChunks.go n xs acc₁ acc₂ =
      acc₂.toList ++ (acc₁.toList ++ xs.take (n - acc₁.size)) ::
        (xs.drop (n - acc₁.size)).toChunks n := by
  induction xs generalizing acc₁ acc₂ with
  | nil => simp [List.toChunks.go, List.toChunks]
  | cons x xs ih =>
    rw [List.toChunks.go]
    by_cases hfull : acc₁.size = n
    · have hopen : List.toChunks n (x :: xs) = List.toChunks.go n xs #[x] #[] := by
        cases n with
        | zero => omega
        | succ n => rfl
      have hsingle : ((Array.mkEmpty n).push x).size ≤ n := hn
      have hsingle' : #[x].size ≤ n := hn
      rw [if_pos (by simpa using hfull), ih hsingle, hfull, Nat.sub_self,
        List.take_zero, List.drop_zero, hopen, ih hsingle']
      simp
    · have hroom : n - acc₁.size = n - (acc₁.push x).size + 1 := by
        rw [Array.size_push]
        omega
      have hpush : (acc₁.push x).size ≤ n := by
        rw [Array.size_push]
        omega
      rw [if_neg (by simpa using hfull), ih hpush, hroom, List.take_succ_cons, List.drop_succ_cons]
      simp

/-- Cutting takes the first piece off and cuts the rest. -/
lemma toChunks_eq (hn : 0 < n) {xs : List α} (hxs : xs ≠ []) :
    xs.toChunks n = xs.take n :: (xs.drop n).toChunks n := by
  cases xs with
  | nil => exact absurd rfl hxs
  | cons x xs =>
    obtain ⟨m, rfl⟩ : ∃ m, n = m + 1 := ⟨n - 1, by omega⟩
    have hopen : List.toChunks (m + 1) (x :: xs) = List.toChunks.go (m + 1) xs #[x] #[] := rfl
    rw [hopen, toChunks_go hn (by simp)]
    simp

lemma toChunks_nil : ([] : List α).toChunks n = [] := by
  cases n with
  | zero => rfl
  | succ n => rfl

lemma toChunks_eq_nil (hn : 0 < n) {xs : List α} : xs.toChunks n = [] ↔ xs = [] := by
  constructor
  · intro h
    by_contra hxs
    rw [toChunks_eq hn hxs] at h
    cases h
  · rintro rfl
    exact toChunks_nil

/-- The pieces make up the list. -/
lemma flatten_toChunks (hn : 0 < n) (xs : List α) : (xs.toChunks n).flatten = xs := by
  induction hlength : xs.length using Nat.strong_induction_on generalizing xs with
  | _ len ih =>
    by_cases hxs : xs = []
    · rw [hxs, toChunks_nil, List.flatten_nil]
    · have hpos : 0 < xs.length := List.length_pos_of_ne_nil hxs
      have hshort : (xs.drop n).length < len := by
        rw [List.length_drop]
        omega
      rw [toChunks_eq hn hxs, List.flatten_cons, ih _ hshort _ rfl, List.take_append_drop]

/-- Each piece is what stands at its place. -/
lemma getElem?_toChunks (hn : 0 < n) {xs piece : List α} {k : ℕ}
    (h : (xs.toChunks n)[k]? = some piece) : (xs.drop (k * n)).take n = piece := by
  induction k generalizing xs with
  | zero =>
    by_cases hxs : xs = []
    · rw [hxs, toChunks_nil] at h
      cases h
    · rw [toChunks_eq hn hxs] at h
      simpa using h
  | succ k ih =>
    by_cases hxs : xs = []
    · rw [hxs, toChunks_nil] at h
      cases h
    · rw [toChunks_eq hn hxs, List.getElem?_cons_succ] at h
      rw [← ih h, List.drop_drop, Nat.succ_mul, Nat.add_comm]

/-- There are no more pieces than elements. -/
lemma length_toChunks_le (hn : 0 < n) (xs : List α) : (xs.toChunks n).length ≤ xs.length := by
  induction hlength : xs.length using Nat.strong_induction_on generalizing xs with
  | _ len ih =>
    by_cases hxs : xs = []
    · simp [hxs, toChunks_nil]
    · have hpos : 0 < xs.length := List.length_pos_of_ne_nil hxs
      have hrest : (xs.drop n).length < len := by
        rw [List.length_drop]
        omega
      have hpieces := ih _ hrest _ rfl
      rw [List.length_drop] at hpieces
      rw [toChunks_eq hn hxs, List.length_cons]
      omega

/-- The pieces, at full size, hold the list. -/
lemma length_le_toChunks (hn : 0 < n) (xs : List α) : xs.length ≤ (xs.toChunks n).length * n := by
  induction hlength : xs.length using Nat.strong_induction_on generalizing xs with
  | _ len ih =>
    by_cases hxs : xs = []
    · subst hxs
      rw [← hlength, List.length_nil]
      exact Nat.zero_le _
    · have hpos : 0 < xs.length := List.length_pos_of_ne_nil hxs
      have hrest : (xs.drop n).length < len := by
        rw [List.length_drop]
        omega
      have hpieces := ih _ hrest _ rfl
      rw [List.length_drop] at hpieces
      rw [toChunks_eq hn hxs, List.length_cons, Nat.succ_mul]
      omega

/-! ## Marked pieces -/

variable {ι γ : Type}

/-- Let every piece of `l` be a piece of `pieces` that was marked with the index and the last-place
flag it is read under.  Then `l` is `pieces`.  The marks are one-to-one up to the last piece, so an
early end or an extra piece shows as a wrong flag. -/
lemma eq_of_marked {mark : ℕ → ι} {pieces l : List γ}
    (hmark : ∀ i j, i < pieces.length → j < pieces.length → mark i = mark j → i = j) (hl : l ≠ [])
    (hread : ∀ i c, l[i]? = some c → ∃ j, pieces[j]? = some c ∧ mark j = mark i ∧
      (j + 1 = pieces.length ↔ i + 1 = l.length)) :
    l = pieces := by
  have hlt : ∀ {j c}, pieces[j]? = some c → j < pieces.length := fun hj =>
    (List.getElem?_eq_some_iff.mp hj).1
  have hpos : 0 < l.length := List.length_pos_of_ne_nil hl
  have hle : l.length ≤ pieces.length := by
    -- Past the end of `pieces`, its last piece would be read as one in the middle.
    by_contra hlong
    have hbefore : pieces.length - 1 < l.length := by omega
    obtain ⟨j, hj, hindex, hlast⟩ := hread _ _ (List.getElem?_eq_getElem hbefore)
    have hsame := hmark _ _ (hlt hj) (by have := hlt hj; omega) hindex
    have hend : j + 1 = pieces.length := by
      have := hlt hj
      omega
    have := hlast.mp hend
    omega
  have hplace : ∀ i c, l[i]? = some c → pieces[i]? = some c ∧
      (i + 1 = pieces.length ↔ i + 1 = l.length) := by
    intro i c hi
    have hil : i < l.length := (List.getElem?_eq_some_iff.mp hi).1
    obtain ⟨j, hj, hindex, hlast⟩ := hread i c hi
    obtain rfl := hmark _ _ (hlt hj) (by omega) hindex
    exact ⟨hj, hlast⟩
  have hlength : l.length = pieces.length := by
    have hend : l.length - 1 < l.length := by omega
    obtain ⟨-, hlast⟩ := hplace _ _ (List.getElem?_eq_getElem hend)
    have hboth := hlast.mpr (by omega)
    omega
  apply List.ext_getElem hlength
  intro i hi hi'
  have hat := (hplace i _ (List.getElem?_eq_getElem hi)).1
  rw [List.getElem?_eq_getElem hi'] at hat
  exact (Option.some.inj hat).symm

end Framing
