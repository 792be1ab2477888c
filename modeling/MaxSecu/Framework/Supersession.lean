import Mathlib.Tactic
import Mathlib.Data.List.Basic

/-!
# Marks that later entries of a log take back

Some entries of a log raise a mark and some clear one.  A mark is read off the whole log by an
unordered search: it stands unless some entry, at any position, clears it.

What a reader expects is the ordered reading, in which only an entry after the mark was raised can
clear it.  The two readings agree exactly when no mark that is never cleared afterwards was cleared
before it was raised (`stands_of_not_clearedAfter_iff`), and they do agree when marks are fresh: a
tag of the mark is raised at one position only, and clearing entries name tags raised before them
(`not_clearedBefore_of_fresh`).
-/

/-- Which mark an entry raises, and which it clears.  No entry does both. -/
structure Marking (ε κ : Type) where
  raises : ε → Option κ
  clears : ε → Option κ
  disjoint : ∀ e k l, raises e = some k → clears e ≠ some l

namespace Marking

variable {ε κ τ : Type} (M : Marking ε κ)

def RaisedAt (log : List ε) (j : ℕ) (k : κ) : Prop :=
  ∃ e, log[j]? = some e ∧ M.raises e = some k

def ClearedAt (log : List ε) (i : ℕ) (k : κ) : Prop :=
  ∃ e, log[i]? = some e ∧ M.clears e = some k

/-- The unordered search: no entry of the log clears the mark. -/
def Stands (log : List ε) (k : κ) : Prop :=
  ∀ e ∈ log, M.clears e ≠ some k

def ClearedAfter (log : List ε) (j : ℕ) (k : κ) : Prop :=
  ∃ i, j < i ∧ M.ClearedAt log i k

def ClearedBefore (log : List ε) (j : ℕ) (k : κ) : Prop :=
  ∃ i, i < j ∧ M.ClearedAt log i k

variable {M} {log : List ε}

lemma stands_iff_forall_clearedAt {k : κ} : M.Stands log k ↔ ∀ i, ¬ M.ClearedAt log i k := by
  constructor
  · rintro hstands i ⟨e, he, hclears⟩
    exact hstands e (List.mem_of_getElem? he) hclears
  · intro hcleared e he hclears
    obtain ⟨i, hi⟩ := List.mem_iff_getElem?.mp he
    exact hcleared i ⟨e, hi, hclears⟩

/-- The entry that raises a mark does not clear it, so every clearing entry is before or after. -/
lemma stands_iff {j : ℕ} {k : κ} (hraised : M.RaisedAt log j k) :
    M.Stands log k ↔ ¬ M.ClearedBefore log j k ∧ ¬ M.ClearedAfter log j k := by
  rw [stands_iff_forall_clearedAt]
  constructor
  · intro hcleared
    exact ⟨fun ⟨i, _, hi⟩ => hcleared i hi, fun ⟨i, _, hi⟩ => hcleared i hi⟩
  · rintro ⟨hbefore, hafter⟩ i hi
    rcases lt_trichotomy i j with hlt | rfl | hgt
    · exact hbefore ⟨i, hlt, hi⟩
    · obtain ⟨e, he, hraises⟩ := hraised
      obtain ⟨e', he', hclears⟩ := hi
      have heq : e = e' := Option.some.inj (he.symm.trans he')
      exact M.disjoint e k k hraises (heq ▸ hclears)
    · exact hafter ⟨i, hgt, hi⟩

/-- The search gives the ordered reading exactly when no mark that stays was cleared early. -/
lemma stands_of_not_clearedAfter_iff :
    (∀ j k, M.RaisedAt log j k → ¬ M.ClearedAfter log j k → M.Stands log k) ↔
      ∀ j k, M.RaisedAt log j k → ¬ M.ClearedAfter log j k → ¬ M.ClearedBefore log j k := by
  constructor
  · intro h j k hraised hafter
    exact ((stands_iff hraised).mp (h j k hraised hafter)).1
  · intro h j k hraised hafter
    exact (stands_iff hraised).mpr ⟨h j k hraised hafter, hafter⟩

/-- With fresh tags no mark is cleared before it is raised. -/
lemma not_clearedBefore_of_fresh (tag : κ → τ)
    (hunique : ∀ i j k l, M.RaisedAt log i k → M.RaisedAt log j l → tag k = tag l → i = j)
    (hknown : ∀ i k, M.ClearedAt log i k → ∃ j l, j < i ∧ M.RaisedAt log j l ∧ tag l = tag k)
    {j : ℕ} {k : κ} (hraised : M.RaisedAt log j k) : ¬ M.ClearedBefore log j k := by
  rintro ⟨i, hij, hcleared⟩
  obtain ⟨j', l, hj', hraised', htag⟩ := hknown i k hcleared
  have hsame : j' = j := hunique j' j l k hraised' hraised htag
  omega

end Marking
