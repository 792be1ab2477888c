import MaxSecu.Framework.AssociationList

/-!
# Entries in the order of their last use

An index stamps an entry with a counter whenever its key is used.  The stamps order the entries as the
history does (`Stamps`), where the history lists the key that each operation used, if it used one.

To make room, the entries with the least stamps go one after the other (`Drains`).  What goes is the
shortest run of least recently used entries that makes enough room (`Drains.leastRecent`).
-/

namespace Recency

open AssociationList

variable {κ ε : Type} [DecidableEq κ]

/-! ## Last uses -/

/-- The place of the last use of a key, counted from one, and zero for a key that was never used. -/
def lastUse (used : List (Option κ)) (k : κ) : ℕ :=
  used.length - used.reverse.findIdx fun o => o = some k

variable {used : List (Option κ)} {k : κ}

lemma lastUse_le : lastUse used k ≤ used.length := Nat.sub_le _ _

lemma lastUse_append {o : Option κ} :
    lastUse (used ++ [o]) k = if o = some k then used.length + 1 else lastUse used k := by
  unfold lastUse
  rw [List.reverse_append, List.reverse_singleton, List.singleton_append, List.findIdx_cons,
    List.length_append, List.length_singleton]
  by_cases ho : o = some k
  · simp [ho]
  · simp only [ho, decide_false, cond_false, if_false]
    omega

/-- The stamps are in the order of the last uses, no two are equal, and none is later than `tick`. -/
structure Stamps (used : List (Option κ)) (tick : ℕ) (stamps : κ → Option ℕ) : Prop where
  le_tick : ∀ a s, stamps a = some s → s ≤ tick
  inj : ∀ a b s, stamps a = some s → stamps b = some s → a = b
  lt_lastUse : ∀ a b s t, stamps a = some s → stamps b = some t → s < t →
    lastUse used a < lastUse used b

namespace Stamps

variable {tick : ℕ} {stamps stamps' : κ → Option ℕ}

lemma none : Stamps [] tick fun _ : κ => .none :=
  ⟨fun _ _ h => absurd h (by simp), fun _ _ _ h => absurd h (by simp),
    fun _ _ _ _ h => absurd h (by simp)⟩

/-- Stamps may be dropped. -/
lemma restrict (h : Stamps used tick stamps) (hsub : ∀ a s, stamps' a = some s → stamps a = some s) :
    Stamps used tick stamps' where
  le_tick a s hs := h.le_tick a s (hsub a s hs)
  inj a b s ha hb := h.inj a b s (hsub a s ha) (hsub b s hb)
  lt_lastUse a b s t ha hb := h.lt_lastUse a b s t (hsub a s ha) (hsub b t hb)

/-- An operation that uses no key leaves the order as it is. -/
lemma pass (h : Stamps used tick stamps) : Stamps (used ++ [.none]) tick stamps where
  le_tick := h.le_tick
  inj := h.inj
  lt_lastUse a b s t ha hb hst := by
    rw [lastUse_append, lastUse_append, if_neg (by simp), if_neg (by simp)]
    exact h.lt_lastUse a b s t ha hb hst

/-- The use of a key without a stamp leaves the order of the others as it is. -/
lemma miss (h : Stamps used tick stamps) (hk : stamps k = .none) :
    Stamps (used ++ [some k]) tick stamps where
  le_tick := h.le_tick
  inj := h.inj
  lt_lastUse a b s t ha hb hst := by
    have hother : ∀ c s, stamps c = some s → lastUse (used ++ [some k]) c = lastUse used c := by
      intro c s hs
      have hc : k ≠ c := by
        intro hkc
        rw [← hkc, hk] at hs
        exact absurd hs (by simp)
      rw [lastUse_append, if_neg (by simpa using hc)]
    rw [hother a s ha, hother b t hb]
    exact h.lt_lastUse a b s t ha hb hst

/-- A key that is used is stamped with the next count. -/
lemma use (h : Stamps used tick stamps) (k : κ) :
    Stamps (used ++ [some k]) (tick + 1) fun a => if a = k then some (tick + 1) else stamps a where
  le_tick a s hs := by
    by_cases ha : a = k
    · rw [if_pos ha] at hs
      exact (Option.some.inj hs).ge
    · rw [if_neg ha] at hs
      exact (h.le_tick a s hs).trans (Nat.le_succ tick)
  inj a b s hs hs' := by
    by_cases ha : a = k
    · by_cases hb : b = k
      · exact ha.trans hb.symm
      · rw [if_pos ha] at hs
        rw [if_neg hb] at hs'
        have hle := h.le_tick b s hs'
        have heq := Option.some.inj hs
        omega
    · rw [if_neg ha] at hs
      by_cases hb : b = k
      · rw [if_pos hb] at hs'
        have hle := h.le_tick a s hs
        have heq := Option.some.inj hs'
        omega
      · rw [if_neg hb] at hs'
        exact h.inj a b s hs hs'
  lt_lastUse a b s t hs ht hst := by
    have hle := @lastUse_le κ _ used a
    have hother : ∀ c, c ≠ k → lastUse (used ++ [some k]) c = lastUse used c := by
      intro c hc
      rw [lastUse_append, if_neg]
      simpa using Ne.symm hc
    by_cases ha : a = k
    · rw [if_pos ha] at hs
      have heq := Option.some.inj hs
      by_cases hb : b = k
      · rw [if_pos hb] at ht
        have heq' := Option.some.inj ht
        omega
      · rw [if_neg hb] at ht
        have hle' := h.le_tick b t ht
        omega
    · rw [if_neg ha] at hs
      rw [hother a ha]
      by_cases hb : b = k
      · rw [lastUse_append, if_pos (by rw [hb])]
        omega
      · rw [if_neg hb] at ht
        rw [hother b hb]
        exact h.lt_lastUse a b s t hs ht hst

end Stamps

/-! ## Making room -/

section Room

variable (size stamp : ε → ℕ) (capacity : ℕ) (evictable : κ → ε → Prop)

/-- Drop entries with the least stamps until the rest fits or none may go. -/
inductive Drains : AList (fun _ : κ => ε) → List κ → AList (fun _ : κ => ε) → Prop
  | stop {m : AList fun _ : κ => ε} :
      (weight size m ≤ capacity ∨ ∀ a d, m.lookup a = some d → ¬ evictable a d) → Drains m [] m
  | drop {m m' : AList fun _ : κ => ε} {k : κ} {e : ε} {victims : List κ} :
      capacity < weight size m → m.lookup k = some e → evictable k e →
      (∀ a d, m.lookup a = some d → evictable a d → stamp e ≤ stamp d) →
      Drains (m.erase k) victims m' → Drains m (k :: victims) m'

/-- From `m` the victims went, and `m'` is left.  With some `rest`, the victims are all that may go,
in the order of their last use.  They are as few as make enough room, and all of them if none do. -/
structure EvictsLeastRecent (used : List (Option κ)) (m : AList fun _ : κ => ε) (victims : List κ)
    (m' : AList fun _ : κ => ε) : Prop where
  left : m' = eraseAll victims m
  order : ∃ rest, (∀ a, a ∈ victims ++ rest ↔ ∃ d, m.lookup a = some d ∧ evictable a d) ∧
    (victims ++ rest).Pairwise (fun a b => lastUse used a < lastUse used b) ∧
    (weight size m' ≤ capacity ∨ rest = [])
  shortest : ∀ before, before <+: victims → before ≠ victims →
    capacity < weight size (eraseAll before m)

variable {size stamp capacity evictable} {m m' : AList fun _ : κ => ε} {victims : List κ}

variable (evictable) in
/-- All that may go, in the order of the stamps. -/
lemma exists_order (hinj : ∀ a b d e, m.lookup a = some d → m.lookup b = some e →
      stamp d = stamp e → a = b) :
    ∃ order : List κ, (∀ a, a ∈ order ↔ ∃ d, m.lookup a = some d ∧ evictable a d) ∧
      order.Pairwise fun a b => ∀ d e, m.lookup a = some d → m.lookup b = some e →
        stamp d < stamp e := by
  classical
  let may := m.keys.filter fun a => ∃ d, m.lookup a = some d ∧ evictable a d
  let stampOf : κ → ℕ := fun a => (m.lookup a).elim 0 stamp
  let order := may.mergeSort fun a b => stampOf a ≤ stampOf b
  have hperm : order.Perm may := List.mergeSort_perm may _
  have hsorted : order.Pairwise fun a b => decide (stampOf a ≤ stampOf b) = true := by
    refine List.pairwise_mergeSort ?_ ?_ may
    · intro a b c hab hbc
      simp only [decide_eq_true_eq] at hab hbc ⊢
      exact hab.trans hbc
    · intro a b
      simpa using le_total (stampOf a) (stampOf b)
  have hnodup : order.Nodup := hperm.nodup_iff.mpr (m.keys_nodup.filter _)
  refine ⟨order, ?_, ?_⟩
  · intro a
    rw [hperm.mem_iff, List.mem_filter, decide_eq_true_eq]
    constructor
    · exact And.right
    · intro hmay
      obtain ⟨d, hd, -⟩ := id hmay
      exact ⟨AList.mem_keys.mp (mem_iff_lookup.mpr ⟨d, hd⟩), hmay⟩
  · refine (hsorted.and hnodup).imp fun {a b} hab d e hd he => ?_
    obtain ⟨hle, hne⟩ := hab
    have hstamps : stamp d ≤ stamp e := by
      have hle' : stampOf a ≤ stampOf b := of_decide_eq_true hle
      simpa only [stampOf, hd, he, Option.elim_some] using hle'
    exact lt_of_le_of_ne hstamps fun heq => hne (hinj a b d e hd he heq)

/-- What goes is ordered by the stamps, and each of it was needed. -/
lemma Drains.spec (h : Drains size stamp capacity evictable m victims m')
    (hinj : ∀ a b d e, m.lookup a = some d → m.lookup b = some e → stamp d = stamp e → a = b) :
    m' = eraseAll victims m ∧
      (∃ rest, (∀ a, a ∈ victims ++ rest ↔ ∃ d, m.lookup a = some d ∧ evictable a d) ∧
        ((victims ++ rest).Pairwise fun a b => ∀ d e, m.lookup a = some d → m.lookup b = some e →
          stamp d < stamp e) ∧ (weight size m' ≤ capacity ∨ rest = [])) ∧
      ∀ before, before <+: victims → before ≠ victims →
        capacity < weight size (eraseAll before m) := by
  induction h with
  | @stop m hstop =>
    refine ⟨rfl, ?_, ?_⟩
    · obtain ⟨order, hmem, hsorted⟩ := exists_order evictable hinj
      refine ⟨order, hmem, hsorted, hstop.imp_right fun hnone => ?_⟩
      refine List.eq_nil_iff_forall_not_mem.mpr fun a ha => ?_
      obtain ⟨d, hd, hmay⟩ := (hmem a).mp ha
      exact hnone a d hd hmay
    · intro before hprefix hne
      exact absurd (List.prefix_nil.mp hprefix) hne
  | @drop m m' k e victims hover hk hmay hleast hdrains ih =>
    have herase : ∀ a d, (m.erase k).lookup a = some d ↔ a ≠ k ∧ m.lookup a = some d := by
      intro a d
      by_cases ha : a = k
      · rw [ha, AList.lookup_erase]
        simp
      · simp [ha, AList.lookup_erase_ne ha]
    obtain ⟨hleft, ⟨rest, hmem, hsorted, hrest⟩, hshort⟩ := ih fun a b d e' hd he' =>
      hinj a b d e' ((herase a d).mp hd).2 ((herase b e').mp he').2
    refine ⟨hleft, ⟨rest, ?_, ?_, hrest⟩, ?_⟩
    · intro a
      rw [List.cons_append, List.mem_cons, hmem]
      simp only [herase]
      constructor
      · rintro (rfl | ⟨d, ⟨-, hd⟩, hmay'⟩)
        · exact ⟨e, hk, hmay⟩
        · exact ⟨d, hd, hmay'⟩
      · rintro ⟨d, hd, hmay'⟩
        by_cases ha : a = k
        · exact .inl ha
        · exact .inr ⟨d, ⟨ha, hd⟩, hmay'⟩
    · rw [List.cons_append, List.pairwise_cons]
      refine ⟨?_, ?_⟩
      · intro b hb d e' hd he'
        obtain ⟨e'', hlookup, hmay'⟩ := (hmem b).mp hb
        obtain ⟨hne, hb'⟩ := (herase b e'').mp hlookup
        obtain rfl : d = e := Option.some.inj (hd.symm.trans hk)
        obtain rfl : e' = e'' := Option.some.inj (he'.symm.trans hb')
        have hle := hleast b e' he' hmay'
        exact lt_of_le_of_ne hle fun heq => hne (hinj k b d e' hk he' heq).symm
      · refine hsorted.imp_of_mem fun {a b} ha hb hlt d e' hd he' => ?_
        obtain ⟨d', hlookup, -⟩ := (hmem a).mp ha
        obtain ⟨e'', hlookup', -⟩ := (hmem b).mp hb
        exact hlt d e' ((herase a d).mpr ⟨((herase a d').mp hlookup).1, hd⟩)
          ((herase b e').mpr ⟨((herase b e'').mp hlookup').1, he'⟩)
    · intro before hprefix hne
      cases before with
      | nil => exact hover
      | cons a before =>
        obtain ⟨rfl, hprefix'⟩ := List.cons_prefix_cons.mp hprefix
        exact hshort before hprefix' fun heq => hne (congrArg (a :: ·) heq)

/-- When the stamps follow the history, what goes is least recently used. -/
theorem Drains.leastRecent {tick : ℕ}
    (h : Drains size stamp capacity evictable m victims m')
    (hstamps : Stamps used tick fun a => (m.lookup a).map stamp) :
    EvictsLeastRecent size capacity evictable used m victims m' := by
  have hinj : ∀ a b d e, m.lookup a = some d → m.lookup b = some e → stamp d = stamp e → a = b := by
    intro a b d e hd he heq
    refine hstamps.inj a b (stamp d) (by simp [hd]) (by simp [he, heq])
  obtain ⟨hleft, ⟨rest, hmem, hsorted, hrest⟩, hshort⟩ := h.spec hinj
  refine ⟨hleft, ⟨rest, hmem, ?_, hrest⟩, hshort⟩
  refine hsorted.imp_of_mem fun {a b} ha hb hlt => ?_
  obtain ⟨d, hd, -⟩ := (hmem a).mp ha
  obtain ⟨e, he, -⟩ := (hmem b).mp hb
  exact hstamps.lt_lastUse a b (stamp d) (stamp e) (by simp [hd]) (by simp [he]) (hlt d e hd he)

/-- Afterwards the rest fits, or nothing that may go is left. -/
lemma EvictsLeastRecent.settled (h : EvictsLeastRecent size capacity evictable used m victims m') :
    weight size m' ≤ capacity ∨ ∀ a d, m'.lookup a = some d → ¬ evictable a d := by
  obtain ⟨rest, hmem, -, hrest⟩ := h.order
  refine hrest.imp_right fun hnil a d hd hmay => ?_
  rw [h.left, lookup_eraseAll] at hd
  by_cases ha : a ∈ victims
  · rw [if_pos ha] at hd
    exact absurd hd (by simp)
  · rw [if_neg ha] at hd
    have hmem' := (hmem a).mpr ⟨d, hd, hmay⟩
    rw [hnil, List.append_nil] at hmem'
    exact ha hmem'

lemma EvictsLeastRecent.evictable_of_mem
    (h : EvictsLeastRecent size capacity evictable used m victims m') {a : κ} (ha : a ∈ victims) :
    ∃ d, m.lookup a = some d ∧ evictable a d := by
  obtain ⟨rest, hmem, -⟩ := h.order
  exact (hmem a).mp (List.mem_append_left rest ha)

end Room

end Recency
