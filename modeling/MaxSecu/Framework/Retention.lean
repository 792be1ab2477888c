import Mathlib.Tactic
import Mathlib.Data.Set.Card

/-!
# Keeping the newest

From an ascending list the last `keep` elements are kept.  Those before them are exactly the elements
that have `keep` newer ones (`mem_take_iff`).
-/

namespace MaxSecu

namespace Retention

variable {α : Type} [LinearOrder α] {present : Set α} {keep : ℕ} {l : List α} {s : α}

/-- Fewer than `keep` elements are newer. -/
def Newest (present : Set α) (keep : ℕ) (s : α) : Prop :=
  s ∈ present ∧ {t | t ∈ present ∧ s < t}.encard < keep

lemma lt_of_mem_drop {n : ℕ} {t : α} (hasc : l.Pairwise (· < ·)) (hs : s ∈ l.take n)
    (ht : t ∈ l.drop n) : s < t := by
  rw [← List.take_append_drop n l] at hasc
  exact (List.pairwise_append.mp hasc).2.2 s hs t ht

lemma card_drop (hasc : l.Pairwise (· < ·)) :
    (l.drop (l.length - keep)).toFinset.card = min keep l.length := by
  rw [List.toFinset_card_of_nodup (hasc.imp ne_of_lt).drop, List.length_drop]
  omega

/-- An element before the last ones has `keep` newer ones. -/
lemma not_newest_of_mem_take (hasc : l.Pairwise (· < ·)) (hpresent : ∀ t ∈ l, t ∈ present)
    (hs : s ∈ l.take (l.length - keep)) : ¬ Newest present keep s := by
  intro hnew
  have hpos := List.length_pos_of_mem hs
  rw [List.length_take] at hpos
  have hnewer : ((l.drop (l.length - keep)).toFinset : Set α) ⊆ {t | t ∈ present ∧ s < t} := by
    intro t ht
    rw [Finset.mem_coe, List.mem_toFinset] at ht
    exact ⟨hpresent t (List.mem_of_mem_drop ht), lt_of_mem_drop hasc hs ht⟩
  have hcount := (Set.encard_le_encard hnewer).trans_lt hnew.2
  rw [Set.encard_coe_eq_coe_finsetCard, card_drop hasc, Nat.cast_lt] at hcount
  omega

/-- One of the last ones has not. -/
lemma newest_of_not_mem_take (hasc : l.Pairwise (· < ·)) (hpresent : ∀ t, t ∈ present → t ∈ l)
    (hmem : s ∈ present) (hs : s ∉ l.take (l.length - keep)) : Newest present keep s := by
  have hdrop : s ∈ l.drop (l.length - keep) := by
    have hsplit := hpresent s hmem
    rw [← List.take_append_drop (l.length - keep) l] at hsplit
    exact (List.mem_append.mp hsplit).resolve_left hs
  have hnewer : {t | t ∈ present ∧ s < t} ⊆
      (((l.drop (l.length - keep)).toFinset.erase s : Finset α) : Set α) := by
    rintro t ⟨ht, hlt⟩
    have hsplit := hpresent t ht
    rw [← List.take_append_drop (l.length - keep) l] at hsplit
    rcases List.mem_append.mp hsplit with hold | hlast
    · exact absurd (lt_of_mem_drop hasc hold hdrop) hlt.asymm
    · rw [Finset.mem_coe, Finset.mem_erase, List.mem_toFinset]
      exact ⟨hlt.ne', hlast⟩
  refine ⟨hmem, (Set.encard_le_encard hnewer).trans_lt ?_⟩
  rw [Set.encard_coe_eq_coe_finsetCard, Nat.cast_lt,
    Finset.card_erase_of_mem (List.mem_toFinset.mpr hdrop), card_drop hasc]
  have hpos := Finset.card_pos.mpr ⟨s, List.mem_toFinset.mpr hdrop⟩
  rw [card_drop hasc] at hpos
  omega

/-- **What is given up, exactly.** -/
lemma mem_take_iff (hasc : l.Pairwise (· < ·)) (hpresent : ∀ t, t ∈ l ↔ t ∈ present) :
    s ∈ l.take (l.length - keep) ↔ s ∈ present ∧ ¬ Newest present keep s := by
  constructor
  · intro hs
    exact ⟨(hpresent s).mp (List.mem_of_mem_take hs),
      not_newest_of_mem_take hasc (fun t => (hpresent t).mp) hs⟩
  · rintro ⟨hmem, hold⟩
    by_contra hs
    exact hold (newest_of_not_mem_take hasc (fun t => (hpresent t).mpr) hmem hs)

end Retention

end MaxSecu
