import MaxSecu.Server.BlobStore

/-!
# The index of the local store

What the write-back tier believes the local store holds: the size, recency, cold backing and pin of
each chunk, and the running byte total.  The index is volatile: it is lost at a restart.

Recording a chunk may drop others, least recently used first, to bring the total back within the
capacity.  Those are the victims, which the caller is to move to the cold tier.  An index whose
total differs from the sizes of its entries cannot be built.
-/

namespace MaxSecu

open AssociationList

/-- A chunk to offload, with what the index said of its cold backing. -/
structure Victim where
  key : ChunkKey
  inCold : Bool
  deriving DecidableEq

structure Entry where
  size : ℕ
  /-- A counter of index operations: it orders the entries by recency without ties. -/
  lastTick : ℕ
  /-- The wall clock at the last access, for the age of idle chunks only. -/
  lastAccess : ℕ
  inCold : Bool
  pinned : Bool
  deriving DecidableEq

structure LocalIndex where
  capacityBytes : ℕ
  totalBytes : ℕ
  tick : ℕ
  entries : AList fun _ : ChunkKey => Entry
  total_eq : totalBytes = weight Entry.size entries

namespace LocalIndex

variable {index : LocalIndex} {key k : ChunkKey} {e entry : Entry}

def empty (capacityBytes : ℕ) : LocalIndex := ⟨capacityBytes, 0, 0, ∅, rfl⟩

def inColdOf (index : LocalIndex) (key : ChunkKey) : Option Bool :=
  (index.entries.lookup key).map Entry.inCold

def contains (index : LocalIndex) (key : ChunkKey) : Bool :=
  (index.entries.lookup key).isSome

/-- The size that the total still counts for a key. -/
def sizeOf (index : LocalIndex) (key : ChunkKey) : ℕ :=
  ((index.entries.lookup key).map Entry.size).getD 0

lemma total_sub_size : index.totalBytes - index.sizeOf key =
    weight Entry.size (index.entries.erase key) := by
  rw [index.total_eq, sizeOf]
  cases hlookup : index.entries.lookup key with
  | none =>
    have habsent : key ∉ index.entries := AList.lookup_eq_none.mp hlookup
    rw [erase_of_not_mem habsent]
    rfl
  | some e =>
    rw [weight_erase hlookup]
    exact Nat.add_sub_cancel ..

def remove (index : LocalIndex) (key : ChunkKey) : LocalIndex where
  capacityBytes := index.capacityBytes
  totalBytes := index.totalBytes - index.sizeOf key
  tick := index.tick
  entries := index.entries.erase key
  total_eq := total_sub_size

def removeStream (index : LocalIndex) (blobRef : String) : LocalIndex :=
  (index.entries.keys.filter fun k => k.blobRef = blobRef).foldl remove index

/-- Put an entry in place of the old one, if there was one. -/
def set (index : LocalIndex) (key : ChunkKey) (entry : Entry) : LocalIndex where
  capacityBytes := index.capacityBytes
  totalBytes := index.totalBytes - index.sizeOf key + entry.size
  tick := index.tick
  entries := index.entries.insert key entry
  total_eq := by rw [total_sub_size, weight_insert]

def advance (index : LocalIndex) : LocalIndex := { index with tick := index.tick + 1 }

/-- The least recently used entry that may go: not pinned, and not the chunk being recorded. -/
def leastRecent (index : LocalIndex) (key : ChunkKey) : Option (Sigma fun _ : ChunkKey => Entry) :=
  (index.entries.entries.filter fun e => !e.2.pinned ∧ e.1 ≠ key).argmin fun e => e.2.lastTick

/-- Drop entries until the total is within the capacity or nothing may go.  Each round drops one, so
as many rounds as there are entries are enough. -/
def evict (key : ChunkKey) : ℕ → LocalIndex → LocalIndex × List Victim
  | 0, index => (index, [])
  | rounds + 1, index =>
    if index.totalBytes > index.capacityBytes then
      (index.leastRecent key).elim (index, []) fun victim =>
        let rest := evict key rounds (index.remove victim.1)
        (rest.1, ⟨victim.1, victim.2.inCold⟩ :: rest.2)
    else (index, [])

/-- Record that a chunk is on the local store; the victims are the entries dropped to make room. -/
def recordPut (index : LocalIndex) (key : ChunkKey) (size now : ℕ) (inCold pinned : Bool) :
    LocalIndex × List Victim :=
  let recorded := index.advance.set key ⟨size, index.tick + 1, now, inCold, pinned⟩
  evict key recorded.entries.entries.length recorded

/-- A hit on the local store makes the entry the most recent one. -/
def recordAccess (index : LocalIndex) (key : ChunkKey) (now : ℕ) : LocalIndex :=
  (index.entries.lookup key).elim index.advance fun e =>
    index.advance.set key { e with lastTick := index.tick + 1, lastAccess := now }

/-- The chunks of the stream that the index has in both tiers. -/
def overlapCount (index : LocalIndex) (blobRef : String) : ℕ :=
  (index.entries.entries.filter fun e => e.1.blobRef = blobRef ∧ e.2.inCold).length

/-- The chunks that are not pinned and were last accessed `idle` ago or earlier. -/
def idleVictims (index : LocalIndex) (now idle : ℕ) : List Victim :=
  if idle ≤ now then
    (index.entries.entries.filter fun e => !e.2.pinned ∧ e.2.lastAccess ≤ now - idle).map
      fun e => ⟨e.1, e.2.inCold⟩
  else []

/-! ## What the operations do to the entries -/

@[simp] lemma lookup_empty {capacity : ℕ} : (empty capacity).entries.lookup key = none :=
  AList.lookup_empty key

@[simp] lemma entries_remove : (index.remove key).entries = index.entries.erase key := rfl

@[simp] lemma entries_set : (index.set key entry).entries = index.entries.insert key entry := rfl

@[simp] lemma entries_advance : index.advance.entries = index.entries := rfl

lemma lookup_remove : (index.remove key).entries.lookup k =
    if k = key then none else index.entries.lookup k := by
  by_cases h : k = key
  · subst h
    simp
  · simp [h, AList.lookup_erase_ne h]

lemma lookup_set : (index.set key entry).entries.lookup k =
    if k = key then some entry else index.entries.lookup k := by
  by_cases h : k = key
  · subst h
    simp
  · simp [h, AList.lookup_insert_ne h]

lemma entries_removeStream {blobRef : String} : (index.removeStream blobRef).entries =
    eraseAll (index.entries.keys.filter fun k => k.blobRef = blobRef) index.entries := by
  have hfold : ∀ (ks : List ChunkKey) (index : LocalIndex),
      (ks.foldl remove index).entries = eraseAll ks index.entries := by
    intro ks
    induction ks with
    | nil => exact fun _ => rfl
    | cons k ks ih => exact fun index => ih (index.remove k)
  exact hfold _ _

lemma lookup_removeStream {blobRef : String} : (index.removeStream blobRef).entries.lookup k =
    if k.blobRef = blobRef then none else index.entries.lookup k := by
  rw [entries_removeStream, lookup_eraseAll]
  by_cases hmem : k ∈ index.entries
  · have hkey : k ∈ index.entries.keys := AList.mem_keys.mp hmem
    simp [hkey]
  · have hnone : index.entries.lookup k = none := AList.lookup_eq_none.mpr hmem
    rw [hnone, ite_self, ite_self]

lemma lookup_recordAccess {now : ℕ} : (index.recordAccess key now).entries.lookup k =
    if k = key then (index.entries.lookup key).map
      fun e => { e with lastTick := index.tick + 1, lastAccess := now }
    else index.entries.lookup k := by
  unfold recordAccess
  cases hlookup : index.entries.lookup key with
  | none =>
    by_cases h : k = key
    · subst h
      simp [hlookup]
    · simp [h]
  | some e =>
    simp only [Option.elim_some, Option.map_some]
    exact lookup_set

lemma inColdOf_eq_some {b : Bool} :
    index.inColdOf key = some b ↔ ∃ e, index.entries.lookup key = some e ∧ e.inCold = b := by
  simp [inColdOf]

/-! ## Eviction -/

lemma leastRecent_spec {victim : Sigma fun _ : ChunkKey => Entry}
    (h : index.leastRecent key = some victim) :
    index.entries.lookup victim.1 = some victim.2 ∧ victim.2.pinned = false ∧ victim.1 ≠ key := by
  have hmem : victim ∈ index.entries.entries.filter fun e => !e.2.pinned ∧ e.1 ≠ key :=
    List.argmin_mem h
  simp only [List.mem_filter, Bool.not_eq_true', ne_eq, decide_eq_true_eq] at hmem
  obtain ⟨hentry, hpinned, hne⟩ := hmem
  exact ⟨AList.mem_lookup_iff.mpr hentry, hpinned, hne⟩

/-- Some entries were dropped as victims, none of them pinned or the recorded one. -/
structure Evicted (key : ChunkKey) (before after : LocalIndex) (victims : List Victim) : Prop where
  victim : ∀ v ∈ victims, v.key ≠ key ∧
    ∃ e, before.entries.lookup v.key = some e ∧ e.inCold = v.inCold ∧ e.pinned = false
  nodup : (victims.map Victim.key).Nodup
  lookup : ∀ k, after.entries.lookup k =
    if k ∈ victims.map Victim.key then none else before.entries.lookup k

lemma evict_spec (rounds : ℕ) (index : LocalIndex) :
    Evicted key index (evict key rounds index).1 (evict key rounds index).2 := by
  have hnone : ∀ index : LocalIndex, Evicted key index index [] :=
    fun index => ⟨fun v hv => absurd hv (by simp), List.nodup_nil, fun k => by simp⟩
  induction rounds generalizing index with
  | zero => exact hnone index
  | succ rounds ih =>
    rw [evict]
    by_cases hover : index.totalBytes > index.capacityBytes
    · rw [if_pos hover]
      cases hleast : index.leastRecent key with
      | none => exact hnone index
      | some victim =>
        obtain ⟨hlookup, hpinned, hne⟩ := leastRecent_spec hleast
        have hrest := ih (index.remove victim.1)
        simp only [Option.elim_some]
        -- the dropped entry is gone, so no later round drops it again
        have hfresh : ∀ v ∈ (evict key rounds (index.remove victim.1)).2, v.key ≠ victim.1 := by
          intro v hv heq
          obtain ⟨-, e, he, -⟩ := hrest.victim v hv
          rw [lookup_remove, if_pos heq] at he
          exact absurd he (by simp)
        refine ⟨?_, ?_, ?_⟩
        · intro v hv
          rcases List.mem_cons.mp hv with rfl | hv
          · exact ⟨hne, victim.2, hlookup, rfl, hpinned⟩
          · obtain ⟨hkey, e, he, hrest'⟩ := hrest.victim v hv
            rw [lookup_remove, if_neg (hfresh v hv)] at he
            exact ⟨hkey, e, he, hrest'⟩
        · rw [List.map_cons, List.nodup_cons]
          refine ⟨?_, hrest.nodup⟩
          intro hmem
          obtain ⟨v, hv, heq⟩ := List.mem_map.mp hmem
          exact hfresh v hv heq
        · intro k
          rw [hrest.lookup k, lookup_remove, List.map_cons]
          by_cases hk : k = victim.1
          · simp [hk]
          · simp [hk]
    · rw [if_neg hover]
      exact hnone index

lemma recordPut_spec {size now : ℕ} {inCold pinned : Bool} :
    Evicted key (index.advance.set key ⟨size, index.tick + 1, now, inCold, pinned⟩)
      (index.recordPut key size now inCold pinned).1
      (index.recordPut key size now inCold pinned).2 :=
  evict_spec _ _

lemma length_remove {victim : Sigma fun _ : ChunkKey => Entry}
    (h : victim ∈ index.entries.entries) :
    (index.remove victim.1).entries.entries.length + 1 = index.entries.entries.length := by
  have hmem : victim.1 ∈ index.entries.entries.keys := List.mem_keys_of_mem h
  obtain ⟨b, l₁, l₂, -, hsplit, herase⟩ := List.exists_of_kerase hmem
  have hentries : (index.remove victim.1).entries.entries = l₁ ++ l₂ := herase
  rw [hentries, hsplit, List.length_append, List.length_append, List.length_cons]
  omega

lemma evict_complete (rounds : ℕ) (index : LocalIndex)
    (hrounds : index.entries.entries.length ≤ rounds) :
    (evict key rounds index).1.totalBytes ≤ index.capacityBytes ∨
      (evict key rounds index).1.leastRecent key = none := by
  induction rounds generalizing index with
  | zero =>
    have hempty : index.entries.entries = [] := List.length_eq_zero_iff.mp (Nat.le_zero.mp hrounds)
    right
    rw [evict, leastRecent, hempty]
    rfl
  | succ rounds ih =>
    rw [evict]
    by_cases hover : index.totalBytes > index.capacityBytes
    · rw [if_pos hover]
      cases hleast : index.leastRecent key with
      | none => exact .inr hleast
      | some victim =>
        have hmem : victim ∈ index.entries.entries :=
          AList.mem_lookup_iff.mp (leastRecent_spec hleast).1
        have hlength := length_remove hmem
        exact ih (index.remove victim.1) (by omega)
    · rw [if_neg hover]
      exact .inl (Nat.le_of_not_lt hover)

lemma mem_idleVictims {now idle : ℕ} {v : Victim} (h : v ∈ index.idleVictims now idle) :
    ∃ e, index.entries.lookup v.key = some e ∧ e.inCold = v.inCold ∧ e.pinned = false ∧
      idle ≤ now ∧ e.lastAccess ≤ now - idle := by
  unfold idleVictims at h
  by_cases hidle : idle ≤ now
  · rw [if_pos hidle] at h
    obtain ⟨e, he, rfl⟩ := List.mem_map.mp h
    simp only [List.mem_filter, Bool.not_eq_true', decide_eq_true_eq] at he
    exact ⟨e.2, AList.mem_lookup_iff.mpr he.1, rfl, he.2.1, hidle, he.2.2⟩
  · rw [if_neg hidle] at h
    exact absurd h (by simp)

end LocalIndex

end MaxSecu
