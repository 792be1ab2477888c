import Mathlib.Tactic
import Mathlib.Order.Nat

/-!
# The fullest window over a list of times

A window of width `w` at a position `t` holds the times in `[t, t + w)`.  The peak is the largest
number of times that a window holds, over all positions.  It is attained, it does not depend on the
order of the times, and over a list in ascending order it is found by a recursion that looks only at
windows which start at one of the times (`peak_cons`).
-/

namespace SlidingWindow

/-- How many of the times lie in `[t, t + w)`. -/
def windowCount (times : List ℕ) (w t : ℕ) : ℕ := times.countP fun s => t ≤ s ∧ s < t + w

/-- The most times in a window of width `w`, wherever it starts. -/
noncomputable def peak (times : List ℕ) (w : ℕ) : ℕ := sSup (Set.range (windowCount times w))

variable {times times' : List ℕ} {w : ℕ}

lemma bddAbove_windowCount (times : List ℕ) (w : ℕ) :
    BddAbove (Set.range (windowCount times w)) := by
  refine ⟨times.length, ?_⟩
  intro n hn
  obtain ⟨t, rfl⟩ := hn
  exact List.countP_le_length

lemma windowCount_le_peak (times : List ℕ) (w t : ℕ) : windowCount times w t ≤ peak times w :=
  le_csSup (bddAbove_windowCount times w) ⟨t, rfl⟩

/-- Some window holds as many times as the peak says. -/
lemma exists_windowCount_eq (times : List ℕ) (w : ℕ) : ∃ t, windowCount times w t = peak times w :=
  Nat.sSup_mem (Set.range_nonempty _) (bddAbove_windowCount times w)

lemma peak_le {n : ℕ} (h : ∀ t, windowCount times w t ≤ n) : peak times w ≤ n := by
  obtain ⟨t, ht⟩ := exists_windowCount_eq times w
  exact ht ▸ h t

theorem peak_perm (h : times.Perm times') : peak times w = peak times' w := by
  have hcount : windowCount times w = windowCount times' w := by
    funext t
    exact h.countP_eq _
  rw [peak, peak, hcount]

@[simp] lemma peak_nil : peak [] w = 0 := by
  refine Nat.le_zero.mp (peak_le fun t => ?_)
  exact le_of_eq List.countP_nil

/-- The fullest window starts at the first time or holds only later ones. -/
theorem peak_cons {t : ℕ} (hsorted : (t :: times).Pairwise (· ≤ ·)) :
    peak (t :: times) w = max ((t :: times).countP fun s => s < t + w) (peak times w) := by
  have hfirst : ∀ s ∈ t :: times, t ≤ s := by
    intro s hs
    rcases List.mem_cons.mp hs with rfl | hs
    · exact le_rfl
    · exact (List.pairwise_cons.mp hsorted).1 s hs
  refine le_antisymm (peak_le fun p => ?_) (max_le ?_ ?_)
  · by_cases hp : p ≤ t ∧ t < p + w
    · -- The window holds the first time, so nothing in it is later than what the first window holds.
      refine le_trans (List.countP_mono_left ?_) (le_max_left _ _)
      intro s _ hs
      simp only [decide_eq_true_eq] at hs ⊢
      omega
    · have hrest : windowCount (t :: times) w p = windowCount times w p := by
        unfold windowCount
        rw [List.countP_cons_of_neg]
        simpa using hp
      rw [hrest]
      exact le_trans (windowCount_le_peak times w p) (le_max_right _ _)
  · have hat : ((t :: times).countP fun s => s < t + w) = windowCount (t :: times) w t := by
      refine List.countP_congr ?_
      intro s hs
      have := hfirst s hs
      simp only [decide_eq_true_eq]
      omega
    rw [hat]
    exact windowCount_le_peak _ _ _
  · refine peak_le fun p => le_trans ?_ (windowCount_le_peak (t :: times) w p)
    exact (List.sublist_cons_self t times).countP_le

end SlidingWindow
