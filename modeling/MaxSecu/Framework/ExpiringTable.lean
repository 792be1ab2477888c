import MaxSecu.Framework.AssociationList

/-!
# Tables whose rows expire

A row counts only while it has not expired.  Two tables are alike from a moment on (`Alike`) if they
differ in rows that are spent by then only: whoever looks at rows that have not expired finds the
same in both.  Spent rows can be removed.  An older copy of the table can be merged in, where the rows
that are there win, if each of its rows is still there or is spent (`Covers.alike_union`).  This is
so as long as no row is replaced by one that expires earlier (`Covers.renewed`).
-/

namespace ExpiringTable

open AssociationList

variable {κ ρ : Type} [DecidableEq κ]

/-- The row, if there is one, has expired. -/
def Spent (expiry : ρ → ℕ) (now : ℕ) (found : Option ρ) : Prop := ∀ row ∈ found, expiry row ≤ now

/-- The tables differ in spent rows only. -/
def Alike (expiry : ρ → ℕ) (now : ℕ) (l m : AList fun _ : κ => ρ) : Prop :=
  ∀ k, l.lookup k = m.lookup k ∨
    (Spent expiry now (l.lookup k) ∧ Spent expiry now (m.lookup k))

/-- Each row of the backup is still there, to expire no earlier, or is spent. -/
def Covers (expiry : ρ → ℕ) (now : ℕ) (live backup : AList fun _ : κ => ρ) : Prop :=
  ∀ k, ∀ row ∈ backup.lookup k,
    expiry row ≤ now ∨ ∃ kept ∈ live.lookup k, expiry row ≤ expiry kept

/-- No row expires after the bound. -/
def Within (expiry : ρ → ℕ) (bound : ℕ) (l : AList fun _ : κ => ρ) : Prop :=
  ∀ k, Spent expiry bound (l.lookup k)

/-- Each row expires as it did before, or at the given time. -/
def Renewed (expiry : ρ → ℕ) (time : ℕ) (l m : AList fun _ : κ => ρ) : Prop :=
  ∀ k, (m.lookup k).map expiry = (l.lookup k).map expiry ∨ (m.lookup k).map expiry = some time

variable {expiry : ρ → ℕ} {now later bound time : ℕ} {l m n live backup : AList fun _ : κ => ρ}
  {k : κ} {row : ρ} {f : ρ → ρ} {keys : List κ} {found : Option ρ}

lemma Spent.mono (h : Spent expiry now found) (hle : now ≤ later) : Spent expiry later found :=
  fun row hrow => (h row hrow).trans hle

@[simp] lemma spent_none : Spent expiry now none := by simp [Spent]

/-- A change that keeps when rows expire. -/
lemma Spent.map (h : Spent expiry now found) (hf : ∀ row, expiry (f row) = expiry row) :
    Spent expiry now (found.map f) := by
  intro row hrow
  obtain ⟨old, hold, rfl⟩ := Option.map_eq_some_iff.mp hrow
  rw [hf]
  exact h old hold

lemma spent_of_mem_collect {p : ρ → Prop} [DecidablePred p] (hp : ∀ row, p row → expiry row ≤ now)
    (hk : k ∈ collect (fun k row => if p row then some k else none) l) :
    Spent expiry now (l.lookup k) := by
  obtain ⟨a, hlisted⟩ := mem_collect.mp hk
  obtain ⟨row, hrow, hitem⟩ := Option.bind_eq_some_iff.mp hlisted
  by_cases hrow' : p row
  · rw [if_pos hrow'] at hitem
    obtain rfl := Option.some.inj hitem
    intro found hfound
    obtain rfl : row = found := Option.some.inj (hrow.symm.trans hfound)
    exact hp row hrow'
  · rw [if_neg hrow'] at hitem
    exact absurd hitem (by simp)

namespace Alike

lemma refl (l : AList fun _ : κ => ρ) : Alike expiry now l l := fun _ => .inl rfl

lemma symm (h : Alike expiry now l m) : Alike expiry now m l := by
  intro k
  obtain heq | ⟨hl, hm⟩ := h k
  · exact .inl heq.symm
  · exact .inr ⟨hm, hl⟩

lemma trans (h : Alike expiry now l m) (h' : Alike expiry now m n) : Alike expiry now l n := by
  intro k
  obtain heq | ⟨hl, hm⟩ := h k
  · rw [heq]
    exact h' k
  · obtain heq | ⟨_, hn⟩ := h' k
    · rw [← heq]
      exact .inr ⟨hl, hm⟩
    · exact .inr ⟨hl, hn⟩

lemma mono (h : Alike expiry now l m) (hle : now ≤ later) : Alike expiry later l m := by
  intro k
  obtain heq | ⟨hl, hm⟩ := h k
  · exact .inl heq
  · exact .inr ⟨hl.mono hle, hm.mono hle⟩

lemma insert (h : Alike expiry now l m) : Alike expiry now (l.insert k row) (m.insert k row) := by
  intro a
  rw [lookup_insert_eq, lookup_insert_eq]
  by_cases ha : a = k
  · simp [ha]
  · rw [if_neg ha, if_neg ha]
    exact h a

lemma adjust (h : Alike expiry now l m) (hf : ∀ row, expiry (f row) = expiry row) :
    Alike expiry now (AssociationList.adjust k f l) (AssociationList.adjust k f m) := by
  intro a
  rw [lookup_adjust, lookup_adjust]
  by_cases ha : a = k
  · rw [if_pos ha, if_pos ha]
    obtain heq | ⟨hl, hm⟩ := h k
    · exact .inl (by rw [heq])
    · exact .inr ⟨hl.map hf, hm.map hf⟩
  · rw [if_neg ha, if_neg ha]
    exact h a

/-- Spent rows can be removed. -/
lemma eraseAll (h : ∀ k ∈ keys, Spent expiry now (l.lookup k)) :
    Alike expiry now l (AssociationList.eraseAll keys l) := by
  intro k
  rw [lookup_eraseAll]
  by_cases hk : k ∈ keys
  · rw [if_pos hk]
    exact .inr ⟨h k hk, spent_none⟩
  · rw [if_neg hk]
    exact .inl rfl

/-- The rows that have not expired are the same. -/
lemma filter_eq (h : Alike expiry now l m) {p : ρ → Bool}
    (hp : ∀ row, p row = true → now < expiry row) :
    (l.lookup k).filter p = (m.lookup k).filter p := by
  have hspent : ∀ {found}, Spent expiry now found → found.filter p = none := by
    intro found hfound
    rw [Option.filter_eq_none_iff]
    intro row hrow hpass
    have hlive := hp row hpass
    have hgone := hfound row hrow
    omega
  obtain heq | ⟨hl, hm⟩ := h k
  · rw [heq]
  · rw [hspent hl, hspent hm]

/-- What is collected from rows that have not expired is the same, in some order. -/
lemma collect_perm {γ : Type} {g : κ → ρ → Option γ} {key : γ → κ} (h : Alike expiry now l m)
    (hkey : ∀ a b c, g a b = some c → key c = a)
    (hlive : ∀ a row, (g a row).isSome → now < expiry row) :
    (collect g l).Perm (collect g m) := by
  have hspent : ∀ {found a}, Spent expiry now found → found.bind (g a) = none := by
    intro found a hfound
    rw [Option.bind_eq_none_iff]
    intro row hrow
    by_contra hsome
    have hafter := hlive a row (Option.isSome_iff_ne_none.mpr hsome)
    have hgone := hfound row hrow
    omega
  refine AssociationList.collect_perm hkey hkey ?_
  intro a
  obtain heq | ⟨hl, hm⟩ := h a
  · rw [heq]
  · rw [hspent hl, hspent hm]

end Alike

namespace Within

lemma mono (h : Within expiry bound l) (hle : bound ≤ later) : Within expiry later l :=
  fun k => (h k).mono hle

lemma eraseAll (h : Within expiry bound l) :
    Within expiry bound (AssociationList.eraseAll keys l) := by
  intro k
  rw [lookup_eraseAll]
  by_cases hk : k ∈ keys
  · rw [if_pos hk]
    exact spent_none
  · rw [if_neg hk]
    exact h k

lemma union (h : Within expiry bound l) (h' : Within expiry bound m) :
    Within expiry bound (l ∪ m) := by
  intro k
  by_cases hk : k ∈ l
  · rw [AList.lookup_union_left hk]
    exact h k
  · rw [AList.lookup_union_right hk]
    exact h' k

lemma renewed (h : Within expiry time l) (hrenewed : Renewed expiry time l m) :
    Within expiry time m := by
  intro k row hrow
  have hexpiry : (m.lookup k).map expiry = some (expiry row) := by
    rw [Option.mem_def.mp hrow]
    rfl
  obtain hold | hnew := hrenewed k
  · rw [hexpiry] at hold
    obtain ⟨old, hlookup, hsame⟩ := Option.map_eq_some_iff.mp hold.symm
    rw [← hsame]
    exact h k old hlookup
  · rw [hexpiry] at hnew
    exact (Option.some.inj hnew).le

end Within

namespace Renewed

lemma refl (l : AList fun _ : κ => ρ) : Renewed expiry time l l := fun _ => .inl rfl

lemma trans (h : Renewed expiry time l m) (h' : Renewed expiry time m n) :
    Renewed expiry time l n := by
  intro k
  obtain hkept | hnew := h' k
  · rw [hkept]
    exact h k
  · exact .inr hnew

lemma insert (hrow : expiry row = time) : Renewed expiry time l (l.insert k row) := by
  intro a
  rw [lookup_insert_eq]
  by_cases ha : a = k
  · rw [if_pos ha, Option.map_some, hrow]
    exact .inr rfl
  · rw [if_neg ha]
    exact .inl rfl

lemma adjust (hf : ∀ row, expiry (f row) = expiry row) :
    Renewed expiry time l (AssociationList.adjust k f l) := by
  intro a
  rw [lookup_adjust]
  by_cases ha : a = k
  · have hsame : expiry ∘ f = expiry := funext hf
    rw [if_pos ha, Option.map_map, hsame, ha]
    exact .inl rfl
  · rw [if_neg ha]
    exact .inl rfl

end Renewed

namespace Covers

lemma refl (l : AList fun _ : κ => ρ) : Covers expiry now l l :=
  fun _ row hrow => .inr ⟨row, hrow, le_rfl⟩

lemma mono (h : Covers expiry now live backup) (hle : now ≤ later) :
    Covers expiry later live backup := by
  intro k row hrow
  obtain hspent | hkept := h k row hrow
  · exact .inl (hspent.trans hle)
  · exact .inr hkept

/-- No row of the backup expires after the time that rows are given. -/
lemma renewed (h : Covers expiry now live backup) (hwithin : Within expiry time backup)
    (hrenewed : Renewed expiry time live m) : Covers expiry now m backup := by
  intro k row hrow
  have hfound : ∀ {e}, (m.lookup k).map expiry = some e → expiry row ≤ e →
      ∃ kept ∈ m.lookup k, expiry row ≤ expiry kept := by
    intro e hexpiry hle
    obtain ⟨kept, hkept, rfl⟩ := Option.map_eq_some_iff.mp hexpiry
    exact ⟨kept, hkept, hle⟩
  obtain hspent | ⟨kept, hkept, hle⟩ := h k row hrow
  · exact .inl hspent
  · obtain hsame | hnew := hrenewed k
    · rw [Option.mem_def.mp hkept] at hsame
      exact .inr (hfound hsame hle)
    · exact .inr (hfound hnew (hwithin k row hrow))

lemma eraseAll (h : Covers expiry now live backup)
    (hkeys : ∀ k ∈ keys, Spent expiry now (live.lookup k)) :
    Covers expiry now (AssociationList.eraseAll keys live) backup := by
  intro k row hrow
  obtain hspent | ⟨kept, hkept, hle⟩ := h k row hrow
  · exact .inl hspent
  · by_cases hk : k ∈ keys
    · exact .inl (hle.trans (hkeys k hk kept hkept))
    · refine .inr ⟨kept, ?_, hle⟩
      rw [lookup_eraseAll, if_neg hk]
      exact hkept

/-- The rows that are there win. -/
lemma union (h : Covers expiry now live backup) : Covers expiry now (live ∪ m) backup := by
  intro k row hrow
  obtain hspent | ⟨kept, hkept, hle⟩ := h k row hrow
  · exact .inl hspent
  · refine .inr ⟨kept, ?_, hle⟩
    rw [AList.lookup_union_left (mem_iff_lookup.mpr ⟨kept, hkept⟩)]
    exact hkept

/-- Merging the backup in brings spent rows only. -/
theorem alike_union (h : Covers expiry now live backup) :
    Alike expiry now live (live ∪ backup) := by
  intro k
  by_cases hk : k ∈ live
  · rw [AList.lookup_union_left hk]
    exact .inl rfl
  · have hnone : live.lookup k = none := AList.lookup_eq_none.mpr hk
    rw [AList.lookup_union_right hk, hnone]
    refine .inr ⟨spent_none, ?_⟩
    intro row hrow
    obtain hspent | ⟨kept, hkept, _⟩ := h k row hrow
    · exact hspent
    · rw [hnone] at hkept
      exact absurd hkept (by simp)

end Covers

end ExpiringTable
