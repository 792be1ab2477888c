import MaxSecu.Framework.HashChain
import MaxSecu.Framework.LabelledRun

/-!
# Relaying a hash chain

A log commits the records that link to its head, and each committed record is then delivered, once,
to a copy that takes it only if it links to the head of the copy.  The deliveries under way may
overtake each other.

If they do not, the copy and the deliveries under way make up the log (`InOrder.split`), so the copy
is complete when all is delivered.  If no head occurs twice in the log, the copy is a prefix of the
log in any case (`copy_initial`), and one delivery that overtakes another is enough to leave it
behind: what the copy refuses is never delivered again (`inOrder_of_heads_eq`).
-/

namespace HashChain

/-- A log, the copy, and the committed records that are still to be delivered, in the order of their
commits. -/
structure Relay (R : Type) where
  log : List R
  copy : List R
  pending : List R

namespace Relay

variable {R H : Type}

def empty : Relay R := ⟨[], [], []⟩

inductive Move
  | idle
  | commit
  | deliver (i : ℕ)

def Move.InOrder : Move → Prop
  | .deliver i => i = 0
  | _ => True

section

variable [DecidableEq H] (prev : R → Option H) (hash : R → H) (g : H)

inductive Next : Relay R → Move → Relay R → Prop
  | idle {s : Relay R} : Next s .idle s
  | commit {s : Relay R} {r : R} : prev r = some (head hash g s.log) →
      Next s .commit ⟨s.log ++ [r], s.copy, s.pending ++ [r]⟩
  | deliver {s : Relay R} {i : ℕ} {r : R} : s.pending[i]? = some r →
      Next s (.deliver i) ⟨s.log, extend prev hash g s.copy r, s.pending.eraseIdx i⟩

variable {prev hash g} {s t : Relay R} {m : Move} {path : List (Relay R × Move)}

/-! ## Deliveries in order -/

/-- The copy and the deliveries under way make up the log, which is a chain. -/
structure Split (prev : R → Option H) (hash : R → H) (g : H) (s : Relay R) : Prop where
  log_eq : s.copy ++ s.pending = s.log
  linked : Linked prev hash g s.log

lemma Split.next (h : Split prev hash g s) (hm : m.InOrder) (hnext : Next prev hash g s m t) :
    Split prev hash g t := by
  cases hnext with
  | idle => exact h
  | @commit r hlink =>
    refine ⟨?_, (linked_append_singleton prev hash).mpr ⟨h.linked, hlink⟩⟩
    rw [← List.append_assoc, h.log_eq]
  | @deliver i r hr =>
    obtain rfl : i = 0 := hm
    obtain ⟨log, copy, pending⟩ := s
    cases pending with
    | nil => exact absurd hr (by simp)
    | cons a pending =>
      obtain rfl : a = r := by simpa using hr
      have hlog : copy ++ a :: pending = log := h.log_eq
      have hlinked : Linked prev hash g (copy ++ a :: pending) := hlog ▸ h.linked
      have hlink : prev a = some (head hash g copy) := ((linked_append prev hash).mp hlinked).2.1
      refine ⟨?_, h.linked⟩
      simp [extend, hlink, hlog]

/-- **In order, nothing is lost.** -/
theorem split_run (hrun : LabelledRun (Next prev hash g) empty path t)
    (hpath : ∀ x ∈ path, x.2.InOrder) : Split prev hash g t :=
  LabelledRun.invariant_of_steps (⟨rfl, trivial⟩ : Split prev hash g empty)
    (fun _ _ _ h hm hnext => h.next hm hnext) hrun hpath

omit [DecidableEq H] in
lemma Split.copy_initial (h : Split prev hash g s) : s.copy <+: s.log := ⟨s.pending, h.log_eq⟩

omit [DecidableEq H] in
lemma Split.copy_eq (h : Split prev hash g s) (hdone : s.pending = []) : s.copy = s.log := by
  rw [← h.log_eq, hdone, List.append_nil]

/-! ## Deliveries in any order -/

lemma log_grows (hnext : Next prev hash g s m t) : s.log <+: t.log := by
  cases hnext with
  | idle => exact List.prefix_refl _
  | commit _ => exact List.prefix_append _ _
  | deliver _ => exact List.prefix_refl _

/-- The deliveries under way are of the log, and the copy is a prefix of it. -/
structure Behind (prev : R → Option H) (hash : R → H) (g : H) (s : Relay R) : Prop where
  linked : Linked prev hash g s.log
  pending : ∀ r ∈ s.pending, r ∈ s.log
  copy : s.copy <+: s.log

lemma Behind.next (h : Behind prev hash g s) (hfresh : Fresh hash g t.log)
    (hnext : Next prev hash g s m t) : Behind prev hash g t := by
  cases hnext with
  | idle => exact h
  | @commit r hlink =>
    refine ⟨(linked_append_singleton prev hash).mpr ⟨h.linked, hlink⟩, ?_,
      h.copy.trans (List.prefix_append _ _)⟩
    intro a ha
    obtain ha | ha := List.mem_append.mp ha
    · exact List.mem_append_left _ (h.pending a ha)
    · exact List.mem_append_right _ ha
  | @deliver i r hr =>
    have hmem : r ∈ s.log := h.pending r (List.mem_of_getElem? hr)
    refine ⟨h.linked, ?_, extend_initial h.linked hfresh h.copy hmem⟩
    intro a ha
    exact h.pending a (List.mem_of_mem_eraseIdx ha)

theorem behind_run (hrun : LabelledRun (Next prev hash g) empty path t)
    (hfresh : Fresh hash g t.log) : Behind prev hash g t := by
  induction hrun with
  | start => exact ⟨trivial, by simp [empty], List.prefix_refl _⟩
  | step _ hnext ih =>
    have hbefore := ih (hfresh.initial (log_grows hnext))
    exact hbefore.next hfresh hnext

/-- A record of the log that is neither in the copy nor to be delivered. -/
def Lost (s : Relay R) : Prop := ∃ r ∈ s.log, r ∉ s.copy ∧ r ∉ s.pending

lemma Lost.next (h : s.Lost) (hfresh : Fresh hash g t.log) (hnext : Next prev hash g s m t) :
    t.Lost := by
  obtain ⟨r, hr, hcopy, hnot⟩ := h
  cases hnext with
  | idle => exact ⟨r, hr, hcopy, hnot⟩
  | @commit a _ =>
    have hne : r ≠ a := by
      intro heq
      have hdisjoint := (List.nodup_append.mp hfresh.nodup).2.2
      exact hdisjoint r hr a (by simp) heq
    refine ⟨r, List.mem_append_left _ hr, hcopy, ?_⟩
    simp [hnot, hne]
  | @deliver i a ha =>
    have hne : r ≠ a := by
      intro heq
      exact hnot (heq ▸ List.mem_of_getElem? ha)
    refine ⟨r, hr, ?_, fun hmem => hnot (List.mem_of_mem_eraseIdx hmem)⟩
    show r ∉ extend prev hash g s.copy a
    unfold extend
    by_cases hlink : prev a = some (head hash g s.copy)
    · rw [if_pos hlink]
      simp [hcopy, hne]
    · rw [if_neg hlink]
      exact hcopy

/-- A delivery that overtakes another is refused, and its record lost. -/
lemma Split.lost (h : Split prev hash g s) (hm : ¬ m.InOrder) (hfresh : Fresh hash g t.log)
    (hnext : Next prev hash g s m t) : t.Lost := by
  cases hnext with
  | idle => exact absurd trivial hm
  | commit _ => exact absurd trivial hm
  | @deliver i r hr =>
    have hfresh : Fresh hash g s.log := hfresh
    have hlast : s.log[s.copy.length + i]? = some r := by
      rw [← h.log_eq, List.getElem?_append_right (by omega), Nat.add_sub_cancel_left]
      exact hr
    have hrefused : prev r ≠ some (head hash g s.copy) := by
      intro hlink
      have htake : s.copy = s.log.take s.copy.length := List.prefix_iff_eq_take.mp h.copy_initial
      have hheads : head hash g (s.log.take (s.copy.length + i)) =
          head hash g (s.log.take s.copy.length) := by
        rw [← htake]
        exact Option.some.inj ((prev_of_linked h.linked hlast).symm.trans hlink)
      have hlt : s.copy.length + i < s.log.length := (List.getElem?_eq_some_iff.mp hlast).1
      have hsame := hfresh.eq_of_head_take hlt.le (by omega) hheads
      have hfirst : i = 0 := by omega
      exact hm hfirst
    have hnodup : (s.copy ++ s.pending).Nodup := by
      rw [h.log_eq]
      exact hfresh.nodup
    obtain ⟨_, hpending, hdisjoint⟩ := List.nodup_append.mp hnodup
    have hmem : r ∈ s.pending := List.mem_of_getElem? hr
    refine ⟨r, List.mem_of_getElem? hlast, ?_, ?_⟩
    · show r ∉ extend prev hash g s.copy r
      rw [extend, if_neg hrefused]
      exact fun hcopy => hdisjoint r hcopy r hmem rfl
    · intro hleft
      obtain ⟨j, hne, hj⟩ := List.mem_eraseIdx_iff_getElem?.mp hleft
      obtain ⟨hlt, _⟩ := List.getElem?_eq_some_iff.mp hj
      exact hne ((List.getElem?_inj hlt hpending).mp (hj.trans hr.symm))

lemma split_or_lost (hrun : LabelledRun (Next prev hash g) empty path t)
    (hfresh : Fresh hash g t.log) :
    ((∀ x ∈ path, x.2.InOrder) ∧ Split prev hash g t) ∨ t.Lost := by
  induction hrun with
  | start => exact .inl ⟨by simp, rfl, trivial⟩
  | @step path t u m hrun hnext ih =>
    have hbefore : Fresh hash g t.log := hfresh.initial (log_grows hnext)
    obtain ⟨hpath, hsplit⟩ | hlost := ih hbefore
    · by_cases hm : m.InOrder
      · refine .inl ⟨?_, hsplit.next hm hnext⟩
        intro x hx
        obtain hx | hx := List.mem_append.mp hx
        · exact hpath x hx
        · obtain rfl := List.mem_singleton.mp hx
          exact hm
      · exact .inr (hsplit.lost hm hfresh hnext)
    · exact .inr (hlost.next hfresh hnext)

/-- **One overtaken delivery leaves the copy behind for good.** -/
theorem inOrder_of_heads_eq (hrun : LabelledRun (Next prev hash g) empty path t)
    (hfresh : Fresh hash g t.log) (hheads : head hash g t.copy = head hash g t.log) :
    ∀ x ∈ path, x.2.InOrder := by
  obtain ⟨hpath, _⟩ | hlost := split_or_lost hrun hfresh
  · exact hpath
  · obtain ⟨r, hr, hcopy, _⟩ := hlost
    rw [hfresh.eq_of_initial (behind_run hrun hfresh).copy hheads] at hcopy
    exact absurd hr hcopy

end

end Relay

end HashChain
