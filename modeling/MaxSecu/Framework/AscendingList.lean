import Mathlib.Tactic
import Mathlib.Data.List.Destutter

/-!
# Sorting and de-duplicating by a key

`sortDedupBy key l` sorts `l` stably by `key` and keeps the first of each run of equal keys.
Its result has strictly ascending keys (`sortDedupBy_ascending`), and on a list that already
ascends it is the identity (`sortDedupBy_of_ascending`).  `sortBy key l` only sorts; where no two
items share a key, its result does not depend on the order of `l` (`sortBy_eq_of_perm`).
-/

namespace AscendingList

variable {α κ : Type} [LinearOrder κ]

abbrev Ascending (key : α → κ) (l : List α) : Prop :=
  l.Pairwise fun a b => key a < key b

/-- Stable sort by `key`. -/
def sortBy (key : α → κ) (l : List α) : List α :=
  l.mergeSort fun a b => key a ≤ key b

@[simp] lemma mem_sortBy {key : α → κ} {l : List α} {a : α} : a ∈ sortBy key l ↔ a ∈ l :=
  List.mem_mergeSort

lemma sortBy_pairwise (key : α → κ) (l : List α) :
    (sortBy key l).Pairwise fun a b => key a ≤ key b := by
  refine (List.pairwise_mergeSort (fun a b c hab hbc => ?_) (fun a b => ?_) l).imp
    fun h => of_decide_eq_true h
  · exact decide_eq_true ((of_decide_eq_true hab).trans (of_decide_eq_true hbc))
  · rcases le_total (key a) (key b) with h | h <;> simp [h]

lemma sortBy_eq_of_perm {key : α → κ} {l l' : List α} (h : l.Perm l')
    (hinj : ∀ a ∈ l, ∀ b ∈ l, key a = key b → a = b) : sortBy key l = sortBy key l' := by
  refine List.Perm.eq_of_pairwise ?_ (sortBy_pairwise key l) (sortBy_pairwise key l') ?_
  · intro a b ha hb hab hba
    exact hinj a (mem_sortBy.mp ha) b (h.mem_iff.mpr (mem_sortBy.mp hb)) (le_antisymm hab hba)
  · exact (List.mergeSort_perm l _).trans (h.trans (List.mergeSort_perm l' _).symm)

/-- Stable sort by `key`, then keep the first item of each run of equal keys. -/
def sortDedupBy (key : α → κ) (l : List α) : List α :=
  (l.mergeSort fun a b => key a ≤ key b).destutter fun a b => key a ≠ key b

lemma sortDedupBy_of_ascending {key : α → κ} {l : List α} (h : Ascending key l) :
    sortDedupBy key l = l := by
  have hsorted : l.Pairwise fun a b => decide (key a ≤ key b) = true :=
    h.imp fun hab => decide_eq_true hab.le
  have hchain : l.IsChain fun a b => key a ≠ key b := h.isChain.imp fun _ _ hab => hab.ne
  rw [sortDedupBy, List.mergeSort_of_pairwise hsorted, List.destutter_of_isChain _ _ hchain]

lemma sortDedupBy_ascending (key : α → κ) (l : List α) : Ascending key (sortDedupBy key l) := by
  have hsorted : (sortBy key l).Pairwise fun a b => key a ≤ key b := sortBy_pairwise key l
  have hle : (sortDedupBy key l).Pairwise fun a b => key a ≤ key b :=
    hsorted.sublist (List.destutter_sublist _ _)
  have hne : (sortDedupBy key l).IsChain fun a b => key a ≠ key b :=
    List.isChain_destutter _ _
  -- Adjacent keys are ordered and distinct, so they strictly ascend, and `<` is transitive.
  have hlt : (sortDedupBy key l).IsChain fun a b => key a < key b := by
    rw [List.isChain_iff_forall_rel_of_append_cons_cons] at hne ⊢
    intro a b l₁ l₂ heq
    rw [heq] at hle
    have hab : key a ≤ key b :=
      List.rel_of_pairwise_cons (List.pairwise_append.mp hle).2.1 (by simp)
    exact lt_of_le_of_ne hab (hne heq)
  have : IsTrans α fun a b => key a < key b := ⟨fun _ _ _ => lt_trans⟩
  exact hlt.pairwise

/-- A list of a finite type with ascending keys is no longer than the type. -/
lemma length_le_card_of_ascending [Fintype α] {key : α → κ} {l : List α}
    (h : Ascending key l) : l.length ≤ Fintype.card α :=
  List.Nodup.length_le_card (h.imp fun hab heq => hab.ne (congrArg key heq))

end AscendingList
