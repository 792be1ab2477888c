import Mathlib.Tactic
import Mathlib.Data.List.AList

/-!
# Association lists with weights

Further operations on the association lists of Mathlib: erasing several keys, changing one value or
every value in place, the total weight of the values, the number of keys with a property, and a list
with an item for some of the entries.
-/

namespace AssociationList

variable {α : Type} [DecidableEq α]

/-- In a list whose elements have different keys, each is found by its key. -/
lemma find?_of_nodup_map {γ : Type} {f : γ → α} {l : List γ} (hunique : (l.map f).Nodup) {x : γ}
    (hx : x ∈ l) : (l.find? fun y => f y = f x) = some x := by
  cases hfind : l.find? fun y => f y = f x with
  | none => exact absurd (List.find?_eq_none.mp hfind x hx) (by simp)
  | some y =>
    have hkey : f y = f x := by simpa using List.find?_some hfind
    rw [List.inj_on_of_nodup_map hunique (List.mem_of_find?_eq_some hfind) hx hkey]

section Keys

variable {β : α → Type}

def eraseAll (ks : List α) (m : AList β) : AList β :=
  ks.foldl (fun m k => m.erase k) m

@[simp] lemma eraseAll_nil (m : AList β) : eraseAll [] m = m := rfl

@[simp] lemma eraseAll_cons (k : α) (ks : List α) (m : AList β) :
    eraseAll (k :: ks) m = eraseAll ks (m.erase k) := rfl

lemma lookup_eraseAll {ks : List α} {m : AList β} {a : α} :
    (eraseAll ks m).lookup a = if a ∈ ks then none else m.lookup a := by
  induction ks generalizing m with
  | nil => simp
  | cons k ks ih =>
    rw [eraseAll_cons, ih]
    by_cases hk : a = k
    · subst hk
      simp
    · simp [hk, AList.lookup_erase_ne hk]

lemma mem_eraseAll {ks : List α} {m : AList β} {a : α} :
    a ∈ eraseAll ks m ↔ a ∉ ks ∧ a ∈ m := by
  rw [← AList.lookup_isSome, ← AList.lookup_isSome, lookup_eraseAll]
  by_cases ha : a ∈ ks <;> simp [ha]

lemma lookup_of_erase {m : AList β} {a b : α} {c : β a} (h : (m.erase b).lookup a = some c) :
    m.lookup a = some c := by
  by_cases hab : a = b
  · subst hab
    rw [AList.lookup_erase] at h
    exact absurd h (by simp)
  · rw [AList.lookup_erase_ne hab] at h
    exact h

lemma mem_iff_lookup {m : AList β} {a : α} : a ∈ m ↔ ∃ b, m.lookup a = some b := by
  rw [← AList.lookup_isSome, Option.isSome_iff_exists]

def keyCount (p : α → Bool) (m : AList β) : ℕ := (m.keys.filter p).length

lemma keyCount_eq_card (p : α → Bool) (m : AList β) :
    keyCount p m = (m.keys.toFinset.filter fun a => p a = true).card := by
  rw [keyCount, ← List.toFinset_card_of_nodup (m.keys_nodup.filter _), List.toFinset_filter]

lemma mem_keys_toFinset {m : AList β} {a : α} : a ∈ m.keys.toFinset ↔ a ∈ m := by
  rw [List.mem_toFinset, AList.mem_keys]

/-- Without a key there is one entry less. -/
lemma length_entries_erase {m : AList β} {a : α} (h : a ∈ m) :
    (m.erase a).entries.length + 1 = m.entries.length := by
  have hkeys : ∀ m : AList β, m.keys.length = m.entries.length := fun m => List.length_map _
  have hmem : a ∈ m.keys := AList.mem_keys.mp h
  have hpos : 0 < m.keys.length := List.length_pos_of_mem hmem
  rw [← hkeys, ← hkeys, AList.keys_erase, List.length_erase_of_mem hmem]
  omega

end Keys

section Adjust

variable {γ : Type} {m : AList fun _ : α => γ} {k a : α} {g : γ → γ}

/-- Change the value of a key in place, if it is there. -/
def adjust (k : α) (g : γ → γ) (m : AList fun _ : α => γ) : AList fun _ : α => γ :=
  (m.lookup k).elim m fun c => m.insert k (g c)

lemma lookup_adjust :
    (adjust k g m).lookup a = if a = k then (m.lookup k).map g else m.lookup a := by
  unfold adjust
  by_cases ha : a = k
  · subst ha
    cases hlookup : m.lookup a with
    | none => simp [hlookup]
    | some c => simp
  · cases hlookup : m.lookup k with
    | none => simp [ha]
    | some c => simp [ha, AList.lookup_insert_ne ha]

lemma mem_adjust : a ∈ adjust k g m ↔ a ∈ m := by
  rw [← AList.lookup_isSome, ← AList.lookup_isSome, lookup_adjust]
  by_cases ha : a = k
  · rw [if_pos ha, ha, Option.isSome_map]
  · rw [if_neg ha]

lemma lookup_insert_eq {c : γ} :
    (m.insert k c).lookup a = if a = k then some c else m.lookup a := by
  by_cases ha : a = k
  · rw [if_pos ha, ha]
    exact AList.lookup_insert m
  · rw [if_neg ha]
    exact AList.lookup_insert_ne ha

/-- What is found after an insertion was inserted, or was there before. -/
lemma lookup_insert_cases {c d : γ} (h : (m.insert k c).lookup a = some d) :
    (a = k ∧ c = d) ∨ (a ≠ k ∧ m.lookup a = some d) := by
  rw [lookup_insert_eq] at h
  by_cases ha : a = k
  · rw [if_pos ha] at h
    exact .inl ⟨ha, Option.some.inj h⟩
  · rw [if_neg ha] at h
    exact .inr ⟨ha, h⟩

end Adjust

section MapValues

variable {γ : Type}

def mapValues (g : γ → γ) (m : AList fun _ : α => γ) : AList fun _ : α => γ :=
  ⟨m.entries.map fun e => ⟨e.1, g e.2⟩, by
    have hkeys := m.nodupKeys
    unfold List.NodupKeys List.keys at hkeys ⊢
    rw [List.map_map]
    exact hkeys⟩

lemma lookup_mapValues {g : γ → γ} {m : AList fun _ : α => γ} {a : α} :
    (mapValues g m).lookup a = (m.lookup a).map g := by
  obtain ⟨entries, hkeys⟩ := m
  show (entries.map fun e : (_ : α) × γ => (⟨e.1, g e.2⟩ : (_ : α) × γ)).dlookup a =
    (entries.dlookup a).map g
  clear hkeys
  induction entries with
  | nil => rfl
  | cons e entries ih =>
    obtain ⟨k, c⟩ := e
    rw [List.map_cons]
    by_cases ha : a = k
    · subst ha
      simp
    · rw [List.dlookup_cons_ne _ _ ha, List.dlookup_cons_ne _ _ ha]
      exact ih

end MapValues

section Collect

variable {β γ κ : Type} {l l' : AList fun _ : α => β} {g g' : α → β → Option γ} {key : γ → α}

/-- The items that `g` makes of the entries, in the order of the list. -/
def collect (g : α → β → Option γ) (l : AList fun _ : α => β) : List γ :=
  l.entries.filterMap fun x => g x.1 x.2

lemma mem_collect {c : γ} : c ∈ collect g l ↔ ∃ a, (l.lookup a).bind (g a) = some c := by
  unfold collect
  rw [List.mem_filterMap]
  constructor
  · intro ⟨x, hx, hc⟩
    refine ⟨x.1, ?_⟩
    rw [AList.mem_lookup_iff.mpr hx]
    exact hc
  · intro ⟨a, hc⟩
    obtain ⟨b, hb, hc⟩ := Option.bind_eq_some_iff.mp hc
    exact ⟨⟨a, b⟩, AList.mem_lookup_iff.mp hb, hc⟩

omit [DecidableEq α] in
/-- Items that tell the keys they are made of are distinct. -/
lemma nodup_map_collect (hkey : ∀ a b c, g a b = some c → key c = a) :
    ((collect g l).map key).Nodup := by
  have hsub : ((collect g l).map key).Sublist l.keys := by
    unfold collect AList.keys List.keys
    induction l.entries with
    | nil => exact List.Sublist.slnil
    | cons x entries ih =>
      cases hx : g x.1 x.2 with
      | none =>
        simp only [List.filterMap_cons, hx, List.map_cons]
        exact ih.cons x.1
      | some c =>
        simp only [List.filterMap_cons, hx, List.map_cons, hkey _ _ _ hx]
        exact ih.cons_cons x.1
  exact hsub.nodup l.keys_nodup

/-- The items depend only on what is looked up, up to their order. -/
lemma collect_perm (hkey : ∀ a b c, g a b = some c → key c = a)
    (hkey' : ∀ a b c, g' a b = some c → key c = a)
    (h : ∀ a, (l.lookup a).bind (g a) = (l'.lookup a).bind (g' a)) :
    (collect g l).Perm (collect g' l') := by
  rw [List.perm_ext_iff_of_nodup (nodup_map_collect hkey).of_map (nodup_map_collect hkey').of_map]
  intro c
  rw [mem_collect, mem_collect]
  simp only [h]

/-- If no two items have one key, the item found is the one with the greatest key. -/
lemma maxOn?_eq_some_iff {κ : Type} [LE κ] [DecidableLE κ] [Std.IsLinearOrder κ] {items : List γ}
    {key : γ → κ} (hkey : ∀ c ∈ items, ∀ d ∈ items, key c = key d → c = d) {c : γ} :
    items.maxOn? key = some c ↔ c ∈ items ∧ ∀ d ∈ items, key d ≤ key c := by
  have hle : ∀ {a : γ}, items.maxOn? key = some a → ∀ d ∈ items, key d ≤ key a := by
    intro a ha d hd
    have hget := List.le_apply_get_maxOn?_of_mem (f := key) hd
    simpa only [ha, Option.get_some] using hget
  constructor
  · intro hfound
    exact ⟨List.maxOn?_mem hfound, hle hfound⟩
  · intro h
    obtain ⟨hc, hgreatest⟩ := h
    obtain ⟨a, ha⟩ := Option.isSome_iff_exists.mp (List.isSome_maxOn?_of_mem (f := key) hc)
    have hmem := List.maxOn?_mem ha
    rw [ha, hkey a hmem c hc (Std.le_antisymm (hgreatest a hmem) (hle ha c hc))]

end Collect

section Weights

variable {γ : Type} {w : γ → ℕ} {m : AList fun _ : α => γ} {a : α} {c : γ}

def weight (w : γ → ℕ) (m : AList fun _ : α => γ) : ℕ := (m.entries.map fun e => w e.2).sum

lemma erase_of_not_mem (h : a ∉ m) : m.erase a = m := by
  apply AList.ext
  exact List.kerase_of_notMem_keys h

/-- Taking a key away takes its weight away. -/
lemma weight_erase (h : m.lookup a = some c) : weight w m = weight w (m.erase a) + w c := by
  have hmem : a ∈ m.entries.keys := AList.lookup_isSome.mp (by rw [h]; rfl)
  obtain ⟨b, l₁, l₂, hfirst, hsplit, herase⟩ := List.exists_of_kerase hmem
  have hb : b = c := by
    have hlookup : m.lookup a = some b := by
      rw [← Option.mem_def, AList.mem_lookup_iff, hsplit]
      simp
    exact Option.some.inj (hlookup.symm.trans h)
  have hentries : (m.erase a).entries = l₁ ++ l₂ := herase
  rw [weight, weight, hsplit, hentries, hb]
  simp only [List.map_append, List.map_cons, List.sum_append, List.sum_cons]
  omega

/-- The total weight as a sum over the keys. -/
lemma weight_eq_sum :
    weight w m = m.keys.toFinset.sum fun a => ((m.lookup a).map w).getD 0 := by
  have hentry : ∀ e ∈ m.entries, w e.2 = ((m.lookup e.1).map w).getD 0 := by
    intro e he
    have hlookup : m.lookup e.1 = some e.2 := AList.mem_lookup_iff.mpr he
    rw [hlookup]
    rfl
  rw [List.sum_toFinset _ m.keys_nodup, AList.keys, List.keys, List.map_map, weight]
  congr 1
  exact List.map_congr_left hentry

/-- Two lists with the same keys and the same weights have the same total. -/
lemma weight_congr {δ : Type} {v : δ → ℕ} {l : AList fun _ : α => δ}
    (h : ∀ a, (m.lookup a).map w = (l.lookup a).map v) : weight w m = weight v l := by
  have hkeys : m.keys.toFinset = l.keys.toFinset := by
    ext a
    have hsome := congrArg Option.isSome (h a)
    rw [Option.isSome_map, Option.isSome_map] at hsome
    rw [mem_keys_toFinset, mem_keys_toFinset, ← AList.lookup_isSome, ← AList.lookup_isSome, hsome]
  rw [weight_eq_sum, weight_eq_sum, hkeys]
  exact Finset.sum_congr rfl fun a _ => by rw [h a]

lemma weight_insert : weight w (m.insert a c) = weight w (m.erase a) + w c := by
  rw [weight, AList.entries_insert, List.map_cons, List.sum_cons, Nat.add_comm]
  rfl

end Weights

end AssociationList
