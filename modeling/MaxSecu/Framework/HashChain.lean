import Mathlib.Tactic
import Mathlib.Data.List.Basic

/-!
# Hash chains

Every record of a hash chain names the hash of the record before it, and the first one names a
fixed genesis value.  The head of the chain is the hash of its last record.

If hashing is injective on the records in play and never gives the genesis value, the head
determines the whole chain (`eq_of_head_eq`): from equal heads the last records are equal, so they
name the same head, and so on back to the genesis value, which no record reaches.

A copy of a chain is kept by taking the records that link to its head (`extend`).  If no head
occurs twice in the chain, a copy that is offered the records of the chain, in any order, is always
a prefix of it (`extend_initial`).
-/

namespace HashChain

variable {R H : Type} (prev : R → Option H) (hash : R → H)

/-- The head after `records`, on a chain whose head is `g`. -/
def head (g : H) (records : List R) : H :=
  records.foldl (fun _ r => hash r) g

/-- The records link one to the next, starting from the head `g`. -/
def Linked : H → List R → Prop
  | _, [] => True
  | g, r :: records => prev r = some g ∧ Linked (hash r) records

@[simp] lemma head_nil (g : H) : head hash g [] = g := rfl

@[simp] lemma head_cons (g : H) (r : R) (records : List R) :
    head hash g (r :: records) = head hash (hash r) records := rfl

@[simp] lemma head_append (g : H) (rs ss : List R) :
    head hash g (rs ++ ss) = head hash (head hash g rs) ss :=
  List.foldl_append

lemma head_append_singleton (g : H) (records : List R) (r : R) :
    head hash g (records ++ [r]) = hash r := by
  rw [head_append, head_cons, head_nil]

@[simp] lemma linked_nil (g : H) : Linked prev hash g [] := trivial

/-- A chain continues where the one before it ends. -/
lemma linked_append {g : H} {rs ss : List R} :
    Linked prev hash g (rs ++ ss) ↔
      Linked prev hash g rs ∧ Linked prev hash (head hash g rs) ss := by
  induction rs generalizing g with
  | nil => simp
  | cons r rs ih => rw [List.cons_append, Linked, Linked, ih, head_cons, and_assoc]

lemma linked_append_singleton {g : H} {records : List R} {r : R} :
    Linked prev hash g (records ++ [r]) ↔
      Linked prev hash g records ∧ prev r = some (head hash g records) := by
  rw [linked_append, Linked, and_iff_left (linked_nil prev hash _)]

variable {prev hash}

theorem eq_of_head_eq {g : H} {rs ss : List R}
    (hinj : ∀ r ∈ rs, ∀ s ∈ ss, hash r = hash s → r = s)
    (hgenesis : ∀ r, r ∈ rs ∨ r ∈ ss → hash r ≠ g)
    (hrs : Linked prev hash g rs) (hss : Linked prev hash g ss)
    (hhead : head hash g rs = head hash g ss) : rs = ss := by
  induction rs using List.reverseRecOn generalizing ss with
  | nil =>
    rcases List.eq_nil_or_concat ss with rfl | ⟨ss, s, rfl⟩
    · rfl
    · rw [List.concat_eq_append] at hgenesis hhead
      rw [head_nil, head_append_singleton] at hhead
      exact absurd hhead.symm (hgenesis s (by simp))
  | append_singleton rs r ih =>
    rcases List.eq_nil_or_concat ss with rfl | ⟨ss, s, rfl⟩
    · rw [head_nil, head_append_singleton] at hhead
      exact absurd hhead (hgenesis r (by simp))
    · rw [List.concat_eq_append] at hinj hgenesis hss hhead ⊢
      rw [linked_append_singleton] at hrs hss
      rw [head_append_singleton, head_append_singleton] at hhead
      obtain rfl : r = s := hinj r (by simp) s (by simp) hhead
      have hprev : head hash g rs = head hash g ss := Option.some.inj (hrs.2.symm.trans hss.2)
      have hrest : rs = ss := by
        apply ih _ _ hrs.1 hss.1 hprev
        · exact fun a ha b hb => hinj a (by simp [ha]) b (by simp [hb])
        · rintro a (ha | ha)
          · exact hgenesis a (by simp [ha])
          · exact hgenesis a (by simp [ha])
      rw [hrest]

/-! ## Copies -/

section Copies

variable {g : H} {log copy : List R} {r : R}

lemma prev_of_linked {k : ℕ} (h : Linked prev hash g log) (hr : log[k]? = some r) :
    prev r = some (head hash g (log.take k)) := by
  induction log generalizing g k with
  | nil => exact absurd hr (by simp)
  | cons a log ih =>
    obtain ⟨hfirst, hrest⟩ := h
    cases k with
    | zero =>
      obtain rfl : a = r := by simpa using hr
      exact hfirst
    | succ k => exact ih hrest hr

lemma head_take {k : ℕ} (hk : k ≤ log.length) :
    (g :: log.map hash)[k]? = some (head hash g (log.take k)) := by
  induction log generalizing g k with
  | nil =>
    obtain rfl : k = 0 := by simpa using hk
    rfl
  | cons a log ih =>
    cases k with
    | zero => rfl
    | succ k => exact ih (Nat.le_of_succ_le_succ hk)

variable (hash) in
/-- No head occurs twice in the chain. -/
def Fresh (g : H) (log : List R) : Prop := (g :: log.map hash).Nodup

lemma Fresh.initial (h : Fresh hash g log) (hinitial : copy <+: log) : Fresh hash g copy := by
  obtain ⟨rest, rfl⟩ := hinitial
  unfold Fresh at h ⊢
  rw [List.map_append, ← List.cons_append] at h
  exact (List.nodup_append.mp h).1

lemma Fresh.nodup (h : Fresh hash g log) : log.Nodup :=
  List.Nodup.of_map hash (List.nodup_cons.mp h).2

/-- Where the chain had a head, if no head occurs twice. -/
lemma Fresh.eq_of_head_take (h : Fresh hash g log) {i j : ℕ} (hi : i ≤ log.length)
    (hj : j ≤ log.length) (hheads : head hash g (log.take i) = head hash g (log.take j)) :
    i = j := by
  have hlt : i < (g :: log.map hash).length := by simpa using Nat.lt_succ_of_le hi
  have hsame : (g :: log.map hash)[i]? = (g :: log.map hash)[j]? := by
    rw [head_take hi, head_take hj, hheads]
  exact (List.getElem?_inj hlt h).mp hsame

lemma Fresh.eq_of_initial (h : Fresh hash g log) (hinitial : copy <+: log)
    (hheads : head hash g copy = head hash g log) : copy = log := by
  have hcopy : copy = log.take copy.length := List.prefix_iff_eq_take.mp hinitial
  have hlength : copy.length = log.length := by
    refine h.eq_of_head_take hinitial.length_le le_rfl ?_
    rw [← hcopy, List.take_length, hheads]
  exact hinitial.eq_of_length hlength

variable [DecidableEq H]

variable (prev hash) in
/-- Take the record if it links to the head. -/
def extend (g : H) (copy : List R) (r : R) : List R :=
  if prev r = some (head hash g copy) then copy ++ [r] else copy

/-- A record of the chain that a copy takes is the next one. -/
lemma extend_initial (hlinked : Linked prev hash g log) (hfresh : Fresh hash g log)
    (hcopy : copy <+: log) (hr : r ∈ log) : extend prev hash g copy r <+: log := by
  unfold extend
  by_cases hlink : prev r = some (head hash g copy)
  · rw [if_pos hlink]
    obtain ⟨k, hk⟩ := List.mem_iff_getElem?.mp hr
    have hklt : k < log.length := (List.getElem?_eq_some_iff.mp hk).1
    have htake : copy = log.take copy.length := List.prefix_iff_eq_take.mp hcopy
    have hheads : head hash g (log.take k) = head hash g (log.take copy.length) := by
      rw [← htake]
      exact Option.some.inj ((prev_of_linked hlinked hk).symm.trans hlink)
    obtain rfl := hfresh.eq_of_head_take hklt.le hcopy.length_le hheads
    obtain ⟨rest, hrest⟩ := hcopy
    rw [← hrest, List.getElem?_append_right le_rfl, Nat.sub_self] at hk
    cases rest with
    | nil => exact absurd hk (by simp)
    | cons a rest =>
      obtain rfl : a = r := by simpa using hk
      exact ⟨rest, by simpa using hrest⟩
  · rw [if_neg hlink]
    exact hcopy

end Copies

end HashChain
