import MaxSecu.Framework.LabelledRun
import MaxSecu.Framework.Recency
import MaxSecu.Server.LocalIndex
import MaxSecu.Server.RateLimit

/-!
# What a cache drops

The index of the hot cache holds the size and the recency of each chunk, and drops the least recently
used ones when they outgrow the capacity.  Its total is a machine word: an operation whose arithmetic
leaves the range ends in a panic, which is `none` here.

Both this index and that of the local store drop as few chunks as they can, in the order of their last
use (`evictions_exact`).
-/

namespace MaxSecu

open AssociationList Recency

/-- The difference, if it is not negative. -/
def checkedSub (a b : UInt64) : Option UInt64 := if b ≤ a then some (a - b) else none

lemma checkedSub_of_le {a b : UInt64} (h : b.toNat ≤ a.toNat) :
    ∃ c, checkedSub a b = some c ∧ c.toNat = a.toNat - b.toNat := by
  have hle : b ≤ a := UInt64.le_iff_toNat_le.mpr h
  exact ⟨a - b, if_pos hle, UInt64.toNat_sub_of_le a b hle⟩

structure CacheEntry where
  size : UInt64
  lastTick : ℕ
  deriving DecidableEq

/-- The index of the hot cache.  It holds no bytes. -/
structure CacheIndex where
  capacityBytes : UInt64
  totalBytes : UInt64
  tick : ℕ
  entries : AList fun _ : ChunkKey => CacheEntry

namespace CacheIndex

def new (capacityBytes : UInt64) : CacheIndex := ⟨capacityBytes, 0, 0, ∅⟩

def drop (index : CacheIndex) (key : ChunkKey) (e : CacheEntry) : Option CacheIndex :=
  (checkedSub index.totalBytes e.size).map fun total =>
    { index with totalBytes := total, entries := index.entries.erase key }

def leastRecent (index : CacheIndex) : Option (Sigma fun _ : ChunkKey => CacheEntry) :=
  index.entries.entries.argmin fun e => e.2.lastTick

/-- Drop the least recently used entries until the rest fits, but never the last one.  Each round
drops one, so as many rounds as there are entries are enough. -/
def evict : ℕ → CacheIndex → Option (CacheIndex × List ChunkKey)
  | 0, index => some (index, [])
  | rounds + 1, index =>
    if index.totalBytes > index.capacityBytes ∧ index.entries.entries.length > 1 then do
      let victim ← index.leastRecent
      let index ← index.drop victim.1 victim.2
      let rest ← evict rounds index
      some (rest.1, victim.1 :: rest.2)
    else
      some (index, [])

/-- Record that a chunk is resident.  Returned are the chunks to evict, the least recently used
first. -/
def recordInsert (index : CacheIndex) (key : ChunkKey) (size : UInt64) :
    Option (CacheIndex × List ChunkKey) := do
  let now := index.tick + 1
  let entries := index.entries.insert key ⟨size, now⟩
  let total ← (index.entries.lookup key).elim (some index.totalBytes)
    fun prev => checkedSub index.totalBytes prev.size
  let total ← checkedAdd total size
  evict entries.entries.length ⟨index.capacityBytes, total, now, entries⟩

/-- Record a hit, which makes the chunk the most recently used one. -/
def recordAccess (index : CacheIndex) (key : ChunkKey) : CacheIndex :=
  { index with
    tick := index.tick + 1
    entries := adjust key (fun e => { e with lastTick := index.tick + 1 }) index.entries }

/-- Drop a chunk; the flag tells whether it was there. -/
def remove (index : CacheIndex) (key : ChunkKey) : Option (CacheIndex × Bool) :=
  (index.entries.lookup key).elim (some (index, false)) fun e =>
    (index.drop key e).map (·, true)

/-- Drop the chunks of a stream, and count them. -/
def removeStream (index : CacheIndex) (blobRef : String) : Option (CacheIndex × ℕ) := do
  let victims := index.entries.keys.filter fun k => k.blobRef = blobRef
  let index ← victims.foldlM (fun index k =>
    (index.entries.lookup k).elim (some index) (index.drop k)) index
  some (index, victims.length)

end CacheIndex

/-! ## Calls and runs -/

inductive CacheOp
  | recordInsert (key : ChunkKey) (size : UInt64)
  | recordAccess (key : ChunkKey)
  | remove (key : ChunkKey)
  | removeStream (blobRef : String)

namespace CacheOp

def apply (index : CacheIndex) : CacheOp → Option CacheIndex
  | recordInsert key size => (index.recordInsert key size).map Prod.fst
  | recordAccess key => some (index.recordAccess key)
  | remove key => (index.remove key).map Prod.fst
  | removeStream blobRef => (index.removeStream blobRef).map Prod.fst

def used : CacheOp → Option ChunkKey
  | recordInsert key _ => some key
  | recordAccess key => some key
  | remove _ => none
  | removeStream _ => none

/-- With what the call inserts, the sizes of the resident chunks still add up to a machine word. -/
def Fits (index : CacheIndex) : CacheOp → Prop
  | recordInsert key size =>
    weight (fun e => e.size.toNat) (index.entries.erase key) + size.toNat < 2 ^ 64
  | _ => True

end CacheOp

/-- One call of the cache's index after the other, each of which fits. -/
def CacheIndex.Next (index : CacheIndex) (op : CacheOp) (index' : CacheIndex) : Prop :=
  op.Fits index ∧ op.apply index = some index'

namespace CacheIndex

def bytes (e : CacheEntry) : ℕ := e.size.toNat

/-- The total is the sum of the sizes. -/
def Counts (index : CacheIndex) : Prop := index.totalBytes.toNat = weight bytes index.entries

variable {index : CacheIndex} {key k : ChunkKey} {e : CacheEntry}

lemma Counts.drop (h : index.Counts) (hlookup : index.entries.lookup k = some e) :
    ∃ total : UInt64, index.drop k e =
        some { index with totalBytes := total, entries := index.entries.erase k } ∧
      total.toNat = weight bytes (index.entries.erase k) := by
  have hweight : weight bytes index.entries = weight bytes (index.entries.erase k) + e.size.toNat :=
    weight_erase hlookup
  have hle : e.size.toNat ≤ index.totalBytes.toNat := by
    rw [h, hweight]
    omega
  obtain ⟨total, hsub, htotal⟩ := checkedSub_of_le hle
  refine ⟨total, ?_, ?_⟩
  · unfold CacheIndex.drop
    rw [hsub]
    rfl
  · rw [htotal, h, hweight]
    omega

/-- The key was used after all others. -/
def Newest (index : CacheIndex) (key : ChunkKey) : Prop :=
  ∃ e, index.entries.lookup key = some e ∧
    ∀ a d, index.entries.lookup a = some d → a ≠ key → d.lastTick < e.lastTick

lemma one_lt_length_iff {m : AList fun _ : ChunkKey => CacheEntry} (h : key ∈ m) :
    1 < m.entries.length ↔ ∃ a d, m.lookup a = some d ∧ a ≠ key := by
  have hkeys : m.keys.length = m.entries.length := List.length_map _
  have hmem : key ∈ m.keys := AList.mem_keys.mp h
  rw [← hkeys]
  constructor
  · intro hlength
    by_contra hnone
    have hsub : m.keys ⊆ [key] := by
      intro a ha
      obtain ⟨d, hd⟩ := mem_iff_lookup.mp (AList.mem_keys.mpr ha)
      by_contra hne
      exact hnone ⟨a, d, hd, fun heq => hne (List.mem_singleton.mpr heq)⟩
    have hle := (m.keys_nodup.subperm hsub).length_le
    rw [List.length_singleton] at hle
    omega
  · rintro ⟨a, d, hd, hne⟩
    have ha : a ∈ m.keys := AList.mem_keys.mp (mem_iff_lookup.mpr ⟨d, hd⟩)
    have hnodup : [a, key].Nodup := by simpa using hne
    have hsub : [a, key] ⊆ m.keys := by
      intro b hb
      obtain rfl | hb := List.mem_cons.mp hb
      · exact ha
      · exact List.mem_singleton.mp hb ▸ hmem
    exact (hnodup.subperm hsub).length_le

/-- The loop drops what it must, and never the newest entry: while there is another one, that one has
a lesser stamp. -/
lemma Counts.evict (rounds : ℕ) (h : index.Counts) (hnewest : index.Newest key)
    (hrounds : index.entries.entries.length ≤ rounds) :
    ∃ index' victims, CacheIndex.evict rounds index = some (index', victims) ∧ index'.Counts ∧
      index'.capacityBytes = index.capacityBytes ∧ index'.tick = index.tick ∧
      Drains bytes CacheEntry.lastTick index.capacityBytes.toNat (fun a _ => a ≠ key)
        index.entries victims index'.entries := by
  induction rounds generalizing index with
  | zero =>
    obtain ⟨e, he, -⟩ := hnewest
    have hmem : (⟨key, e⟩ : Sigma fun _ : ChunkKey => CacheEntry) ∈ index.entries.entries :=
      AList.mem_lookup_iff.mp he
    rw [List.length_eq_zero_iff.mp (Nat.le_zero.mp hrounds)] at hmem
    exact absurd hmem List.not_mem_nil
  | succ rounds ih =>
    unfold CacheIndex.evict
    by_cases hgo : index.totalBytes > index.capacityBytes ∧ index.entries.entries.length > 1
    · rw [if_pos hgo]
      obtain ⟨hover, hmany⟩ := hgo
      obtain ⟨e, he, hlt⟩ := hnewest
      have hkey : key ∈ index.entries := mem_iff_lookup.mpr ⟨e, he⟩
      obtain ⟨other, d, hd, hother⟩ := (one_lt_length_iff hkey).mp hmany
      obtain ⟨victim, hleast⟩ : ∃ victim, index.leastRecent = some victim := by
        rw [← Option.ne_none_iff_exists']
        intro hnone
        rw [List.argmin_eq_none.mp hnone] at hmany
        exact absurd hmany (by simp)
      have hmem : victim ∈ index.entries.entries := List.argmin_mem hleast
      have hvictim : index.entries.lookup victim.1 = some victim.2 := AList.mem_lookup_iff.mpr hmem
      have hmin : ∀ a d, index.entries.lookup a = some d → victim.2.lastTick ≤ d.lastTick := by
        intro a d hd
        have hentry : (⟨a, d⟩ : Sigma fun _ : ChunkKey => CacheEntry) ∈ index.entries.entries :=
          AList.mem_lookup_iff.mp hd
        exact List.le_of_mem_argmin (f := fun e : Sigma fun _ : ChunkKey => CacheEntry =>
          e.2.lastTick) hentry hleast
      have hne : victim.1 ≠ key := by
        intro heq
        have hsame : victim.2 = e := Option.some.inj (hvictim.symm.trans (heq ▸ he))
        have hle := hmin other d hd
        have hless := hlt other d hd hother
        rw [hsame] at hle
        omega
      obtain ⟨total, hdrop, htotal⟩ := h.drop hvictim
      let next : CacheIndex :=
        { index with totalBytes := total, entries := index.entries.erase victim.1 }
      have hnext : next.Counts := htotal
      have hnewest' : next.Newest key := by
        refine ⟨e, ?_, fun a d hd hane => hlt a d (lookup_of_erase hd) hane⟩
        show (index.entries.erase victim.1).lookup key = some e
        rw [AList.lookup_erase_ne hne.symm]
        exact he
      have hfewer := length_entries_erase (mem_iff_lookup.mpr ⟨_, hvictim⟩)
      obtain ⟨index', victims, hrest, hcounts, hcapacity, htick, hdrains⟩ :=
        ih hnext hnewest' (by show (index.entries.erase victim.1).entries.length ≤ rounds; omega)
      refine ⟨index', victim.1 :: victims, ?_, hcounts, hcapacity, htick, ?_⟩
      · rw [hleast, Option.bind_eq_bind, Option.bind_some, hdrop, Option.bind_eq_bind,
          Option.bind_some, hrest]
        rfl
      · refine .drop ?_ hvictim hne (fun a d hd _ => hmin a d hd) hdrains
        rw [← h]
        exact UInt64.lt_iff_toNat_lt.mp hover
    · rw [if_neg hgo]
      refine ⟨index, [], rfl, h, rfl, rfl, .stop ?_⟩
      by_cases hover : index.totalBytes > index.capacityBytes
      · right
        obtain ⟨e, he, -⟩ := hnewest
        intro a d hd hane
        exact hgo ⟨hover, (one_lt_length_iff (mem_iff_lookup.mpr ⟨e, he⟩)).mpr ⟨a, d, hd, hane⟩⟩
      · left
        rw [← h]
        exact UInt64.le_iff_toNat_le.mp (UInt64.not_lt.mp hover)

lemma Counts.recordInsert {size : UInt64} (h : index.Counts)
    (hticks : ∀ a d, index.entries.lookup a = some d → d.lastTick ≤ index.tick)
    (hfits : (CacheOp.recordInsert key size).Fits index) :
    ∃ index' victims, index.recordInsert key size = some (index', victims) ∧ index'.Counts ∧
      index'.capacityBytes = index.capacityBytes ∧ index'.tick = index.tick + 1 ∧
      Drains bytes CacheEntry.lastTick index.capacityBytes.toNat (fun a _ => a ≠ key)
        (index.entries.insert key ⟨size, index.tick + 1⟩) victims index'.entries := by
  have hold : ∃ total : UInt64, ((index.entries.lookup key).elim (some index.totalBytes)
      fun prev => checkedSub index.totalBytes prev.size) = some total ∧
        total.toNat = weight bytes (index.entries.erase key) := by
    cases hlookup : index.entries.lookup key with
    | none =>
      refine ⟨index.totalBytes, rfl, ?_⟩
      rw [erase_of_not_mem (AList.lookup_eq_none.mp hlookup)]
      exact h
    | some prev =>
      obtain ⟨total, hdrop, htotal⟩ := h.drop hlookup
      obtain ⟨total', hsub, hdropped⟩ := Option.map_eq_some_iff.mp hdrop
      have hsame : total' = total := congrArg CacheIndex.totalBytes hdropped
      exact ⟨total, hsame ▸ hsub, htotal⟩
  obtain ⟨total, hsub, htotal⟩ := hold
  have hsum : total.toNat + size.toNat < 2 ^ 64 := by
    rw [htotal]
    exact hfits
  let recorded : CacheIndex := ⟨index.capacityBytes, total + size, index.tick + 1,
    index.entries.insert key ⟨size, index.tick + 1⟩⟩
  have hcounts : recorded.Counts := by
    show (total + size).toNat = weight bytes (index.entries.insert key ⟨size, index.tick + 1⟩)
    rw [weight_insert, UInt64.toNat_add, Nat.mod_eq_of_lt hsum, htotal]
    rfl
  have hnewest : recorded.Newest key := by
    refine ⟨⟨size, index.tick + 1⟩, AList.lookup_insert _, fun a d hd hne => ?_⟩
    have hlookup : (index.entries.insert key ⟨size, index.tick + 1⟩).lookup a = some d := hd
    rw [AList.lookup_insert_ne hne] at hlookup
    exact Nat.lt_succ_of_le (hticks a d hlookup)
  obtain ⟨index', victims, hevict, hcounts', hcapacity, htick, hdrains⟩ :=
    hcounts.evict recorded.entries.entries.length hnewest le_rfl
  refine ⟨index', victims, ?_, hcounts', hcapacity, htick, hdrains⟩
  have hadd : checkedAdd total size = some (total + size) := if_pos hsum
  unfold CacheIndex.recordInsert
  simp only [hsub, hadd, Option.bind_eq_bind, Option.bind_some]
  exact hevict

lemma Counts.dropAll (keys : List ChunkKey) (h : index.Counts) :
    ∃ index', (keys.foldlM (fun index k =>
        (index.entries.lookup k).elim (some index) (index.drop k)) index) = some index' ∧
      index'.Counts ∧ index'.capacityBytes = index.capacityBytes ∧ index'.tick = index.tick ∧
      index'.entries = eraseAll keys index.entries := by
  induction keys generalizing index with
  | nil => exact ⟨index, rfl, h, rfl, rfl, rfl⟩
  | cons k keys ih =>
    cases hlookup : index.entries.lookup k with
    | none =>
      obtain ⟨index', hfold, hrest⟩ := ih h
      refine ⟨index', ?_, ?_⟩
      · rw [List.foldlM_cons, hlookup]
        exact hfold
      · rw [eraseAll_cons, erase_of_not_mem (AList.lookup_eq_none.mp hlookup)]
        exact hrest
    | some e =>
      obtain ⟨total, hdrop, htotal⟩ := h.drop hlookup
      let next : CacheIndex :=
        { index with totalBytes := total, entries := index.entries.erase k }
      have hnext : next.Counts := htotal
      obtain ⟨index', hfold, hrest⟩ := ih hnext
      refine ⟨index', ?_, hrest⟩
      rw [List.foldlM_cons, hlookup]
      show (index.drop k e).bind _ = _
      rw [hdrop]
      exact hfold

/-! ## The index along a run -/

/-- What holds after every run of calls: the total is right, and the stamps follow the history. -/
structure Sound (capacity : UInt64) (used : List (Option ChunkKey)) (index : CacheIndex) :
    Prop where
  capacity : index.capacityBytes = capacity
  counts : index.Counts
  stamps : Stamps used index.tick fun a => (index.entries.lookup a).map CacheEntry.lastTick

variable {capacity : UInt64} {used : List (Option ChunkKey)}

lemma Sound.ticks (h : Sound capacity used index) (a : ChunkKey) (d : CacheEntry)
    (hd : index.entries.lookup a = some d) : d.lastTick ≤ index.tick :=
  h.stamps.le_tick a d.lastTick (by simp [hd])

lemma Sound.stamps_insert (h : Sound capacity used index) (key : ChunkKey) (size : UInt64) :
    Stamps (used ++ [some key]) (index.tick + 1) fun a =>
      ((index.entries.insert key ⟨size, index.tick + 1⟩).lookup a).map CacheEntry.lastTick := by
  refine (h.stamps.use key).restrict fun a s hs => ?_
  rw [lookup_insert_eq] at hs
  by_cases ha : a = key
  · rw [if_pos ha] at hs ⊢
    exact hs
  · rw [if_neg ha] at hs ⊢
    exact hs

lemma Sound.recordInsert {size : UInt64} (h : Sound capacity used index)
    (hfits : (CacheOp.recordInsert key size).Fits index) :
    ∃ index' victims, index.recordInsert key size = some (index', victims) ∧
      Sound capacity (used ++ [some key]) index' ∧
      EvictsLeastRecent bytes capacity.toNat (fun a _ => a ≠ key) (used ++ [some key])
        (index.entries.insert key ⟨size, index.tick + 1⟩) victims index'.entries := by
  obtain ⟨index', victims, hinsert, hcounts, hcapacity, htick, hdrains⟩ :=
    h.counts.recordInsert h.ticks hfits
  have hstamps := h.stamps_insert key size
  rw [h.capacity] at hdrains
  have hevicts := hdrains.leastRecent hstamps
  refine ⟨index', victims, hinsert, ⟨hcapacity.trans h.capacity, hcounts, ?_⟩, hevicts⟩
  rw [htick]
  refine hstamps.restrict fun a s hs => ?_
  obtain ⟨d, hd, rfl⟩ := Option.map_eq_some_iff.mp hs
  rw [hevicts.left, lookup_eraseAll] at hd
  by_cases ha : a ∈ victims
  · rw [if_pos ha] at hd
    exact absurd hd (by simp)
  · rw [if_neg ha] at hd
    rw [hd]
    rfl

lemma Sound.of_eraseAll {keys : List ChunkKey} {index' : CacheIndex} (h : Sound capacity used index)
    (hcounts : index'.Counts) (hcapacity : index'.capacityBytes = index.capacityBytes)
    (htick : index'.tick = index.tick) (hentries : index'.entries = eraseAll keys index.entries) :
    Sound capacity (used ++ [none]) index' := by
  refine ⟨hcapacity.trans h.capacity, hcounts, ?_⟩
  rw [htick]
  refine h.stamps.pass.restrict fun a s hs => ?_
  rw [hentries, lookup_eraseAll] at hs
  by_cases ha : a ∈ keys
  · rw [if_pos ha] at hs
    exact absurd hs (by simp)
  · rw [if_neg ha] at hs
    exact hs

lemma map_fst_remove : (index.remove key).map Prod.fst =
    (index.entries.lookup key).elim (some index) (index.drop key) := by
  unfold CacheIndex.remove
  cases index.entries.lookup key with
  | none => rfl
  | some e =>
    rw [Option.elim_some, Option.elim_some, Option.map_map]
    exact Option.map_id'

lemma Sound.apply (h : Sound capacity used index) (op : CacheOp) (hfits : op.Fits index) :
    ∃ index', op.apply index = some index' ∧ Sound capacity (used ++ [op.used]) index' := by
  cases op with
  | recordInsert key size =>
    obtain ⟨index', victims, hinsert, hsound, -⟩ := h.recordInsert hfits
    exact ⟨index', by rw [CacheOp.apply, hinsert]; rfl, hsound⟩
  | recordAccess key =>
    refine ⟨index.recordAccess key, rfl, h.capacity, ?_, ?_⟩
    · show index.totalBytes.toNat = weight bytes (adjust key _ index.entries)
      rw [h.counts]
      refine weight_congr fun a => ?_
      rw [lookup_adjust]
      by_cases ha : a = key
      · rw [if_pos ha, ha, Option.map_map]
        rfl
      · rw [if_neg ha]
    · refine (h.stamps.use key).restrict fun a s hs => ?_
      have hs' : ((adjust key (fun e => { e with lastTick := index.tick + 1 })
          index.entries).lookup a).map CacheEntry.lastTick = some s := hs
      rw [lookup_adjust] at hs'
      by_cases ha : a = key
      · rw [if_pos ha] at hs' ⊢
        obtain ⟨e, he, rfl⟩ := Option.map_eq_some_iff.mp hs'
        obtain ⟨d, -, rfl⟩ := Option.map_eq_some_iff.mp he
        rfl
      · rw [if_neg ha] at hs' ⊢
        exact hs'
  | remove key =>
    obtain ⟨index', hfold, hcounts, hcapacity, htick, hentries⟩ := h.counts.dropAll [key]
    refine ⟨index', ?_, h.of_eraseAll hcounts hcapacity htick hentries⟩
    simp only [List.foldlM_cons, List.foldlM_nil, bind_pure] at hfold
    exact map_fst_remove.trans hfold
  | removeStream blobRef =>
    obtain ⟨index', hfold, hcounts, hcapacity, htick, hentries⟩ :=
      h.counts.dropAll (index.entries.keys.filter fun k => k.blobRef = blobRef)
    refine ⟨index', ?_, h.of_eraseAll hcounts hcapacity htick hentries⟩
    unfold CacheOp.apply CacheIndex.removeStream
    simp only [hfold, Option.bind_eq_bind, Option.bind_some, Option.map_some]

lemma sound_of_run {path : List (CacheIndex × CacheOp)}
    (hrun : LabelledRun Next (.new capacity) path index) :
    Sound capacity (path.map fun x => x.2.used) index := by
  induction hrun with
  | start => exact ⟨rfl, rfl, .none⟩
  | @step path t u op _ hnext ih =>
    obtain ⟨hfits, happly⟩ := hnext
    obtain ⟨u', happly', hsound⟩ := ih.apply op hfits
    obtain rfl := Option.some.inj (happly.symm.trans happly')
    rw [List.map_append]
    exact hsound

end CacheIndex

/-! ## The index of the local store along a run -/

/-- A call of the local store's index. -/
inductive LocalOp
  | recordPut (key : ChunkKey) (size now : ℕ) (inCold pinned : Bool)
  | recordAccess (key : ChunkKey) (now : ℕ)
  | remove (key : ChunkKey)
  | removeStream (blobRef : String)

namespace LocalOp

def apply (index : LocalIndex) : LocalOp → LocalIndex
  | recordPut key size now inCold pinned => (index.recordPut key size now inCold pinned).1
  | recordAccess key now => index.recordAccess key now
  | remove key => index.remove key
  | removeStream blobRef => index.removeStream blobRef

def used : LocalOp → Option ChunkKey
  | recordPut key _ _ _ _ => some key
  | recordAccess key _ => some key
  | remove _ => none
  | removeStream _ => none

/-- With what the call records, the sizes of the resident chunks still add up to a machine word. -/
def Fits (index : LocalIndex) : LocalOp → Prop
  | recordPut key size _ _ _ => weight Entry.size (index.entries.erase key) + size < 2 ^ 64
  | _ => True

end LocalOp

namespace LocalIndex

/-- One call of the index after the other, each of which fits. -/
def Next (index : LocalIndex) (op : LocalOp) (index' : LocalIndex) : Prop :=
  op.Fits index ∧ op.apply index = index'

variable {index : LocalIndex} {key k : ChunkKey}

lemma evict_capacity_tick (rounds : ℕ) (index : LocalIndex) :
    (evict key rounds index).1.capacityBytes = index.capacityBytes ∧
      (evict key rounds index).1.tick = index.tick := by
  induction rounds generalizing index with
  | zero => exact ⟨rfl, rfl⟩
  | succ rounds ih =>
    rw [evict]
    by_cases hover : index.totalBytes > index.capacityBytes
    · rw [if_pos hover]
      cases index.leastRecent key with
      | none => exact ⟨rfl, rfl⟩
      | some victim => exact ih (index.remove victim.1)
    · rw [if_neg hover]
      exact ⟨rfl, rfl⟩

lemma removeStream_capacity_tick (blobRef : String) :
    (index.removeStream blobRef).capacityBytes = index.capacityBytes ∧
      (index.removeStream blobRef).tick = index.tick := by
  have hfold : ∀ (ks : List ChunkKey) (index : LocalIndex),
      (ks.foldl remove index).capacityBytes = index.capacityBytes ∧
        (ks.foldl remove index).tick = index.tick := by
    intro ks
    induction ks with
    | nil => exact fun _ => ⟨rfl, rfl⟩
    | cons k ks ih => exact fun index => ih (index.remove k)
  exact hfold _ index

lemma evict_drains (rounds : ℕ) (index : LocalIndex)
    (hrounds : index.entries.entries.length ≤ rounds) :
    Drains Entry.size Entry.lastTick index.capacityBytes (fun a d => d.pinned = false ∧ a ≠ key)
      index.entries ((evict key rounds index).2.map Victim.key)
      (evict key rounds index).1.entries := by
  have hmay : ∀ (index : LocalIndex) a d, index.entries.lookup a = some d →
      (d.pinned = false ∧ a ≠ key) →
        (⟨a, d⟩ : Sigma fun _ : ChunkKey => Entry) ∈
          index.entries.entries.filter fun e => !e.2.pinned ∧ e.1 ≠ key := by
    intro index a d hd hmay
    rw [List.mem_filter]
    exact ⟨AList.mem_lookup_iff.mp hd, by simpa using hmay⟩
  induction rounds generalizing index with
  | zero =>
    have hempty : index.entries.entries = [] := List.length_eq_zero_iff.mp (Nat.le_zero.mp hrounds)
    refine .stop (.inr fun a d hd _ => ?_)
    have hmem := AList.mem_lookup_iff.mp hd
    rw [hempty] at hmem
    exact absurd hmem List.not_mem_nil
  | succ rounds ih =>
    rw [evict]
    by_cases hover : index.totalBytes > index.capacityBytes
    · rw [if_pos hover]
      cases hleast : index.leastRecent key with
      | none =>
        refine .stop (.inr fun a d hd hevictable => ?_)
        have hnil := List.argmin_eq_none.mp hleast
        have hmem := hmay index a d hd hevictable
        rw [hnil] at hmem
        exact absurd hmem List.not_mem_nil
      | some victim =>
        obtain ⟨hlookup, hevictable⟩ := leastRecent_spec hleast
        have hlength : (index.remove victim.1).entries.entries.length + 1 =
            index.entries.entries.length := length_remove (AList.mem_lookup_iff.mp hlookup)
        refine .drop ?_ hlookup hevictable (fun a d hd hother => ?_) (ih (index.remove victim.1) ?_)
        · rw [← index.total_eq]
          exact hover
        · exact List.le_of_mem_argmin (f := fun e : Sigma fun _ : ChunkKey => Entry =>
            e.2.lastTick) (hmay index a d hd hother) hleast
        · omega
    · rw [if_neg hover]
      refine .stop (.inl ?_)
      rw [← index.total_eq]
      exact Nat.le_of_not_lt hover

/-- What holds after every run of calls: no sum leaves the range of a machine word, and the stamps
follow the history. -/
structure Sound (capacity : ℕ) (used : List (Option ChunkKey)) (index : LocalIndex) : Prop where
  capacity : index.capacityBytes = capacity
  total_lt : index.totalBytes < 2 ^ 64
  stamps : Stamps used index.tick fun a => (index.entries.lookup a).map Entry.lastTick

lemma weight_eraseAll_le (ks : List ChunkKey) (m : AList fun _ : ChunkKey => Entry) :
    weight Entry.size (eraseAll ks m) ≤ weight Entry.size m := by
  induction ks generalizing m with
  | nil => exact le_rfl
  | cons k ks ih =>
    rw [eraseAll_cons]
    refine (ih (m.erase k)).trans ?_
    cases hlookup : m.lookup k with
    | none => rw [erase_of_not_mem (AList.lookup_eq_none.mp hlookup)]
    | some e =>
      rw [weight_erase hlookup]
      exact Nat.le_add_right _ _

variable {capacity : ℕ} {used : List (Option ChunkKey)}

lemma Sound.of_eraseAll {ks : List ChunkKey} {index' : LocalIndex} (h : Sound capacity used index)
    (hsame : index'.capacityBytes = index.capacityBytes ∧ index'.tick = index.tick)
    (hentries : index'.entries = eraseAll ks index.entries) :
    Sound capacity (used ++ [none]) index' := by
  obtain ⟨hcapacity, htick⟩ := hsame
  refine ⟨hcapacity.trans h.capacity, ?_, ?_⟩
  · have hle := weight_eraseAll_le ks index.entries
    have hlt := h.total_lt
    rw [index'.total_eq, hentries]
    rw [index.total_eq] at hlt
    omega
  · rw [htick]
    refine h.stamps.pass.restrict fun a s hs => ?_
    rw [hentries, lookup_eraseAll] at hs
    by_cases ha : a ∈ ks
    · rw [if_pos ha] at hs
      exact absurd hs (by simp)
    · rw [if_neg ha] at hs
      exact hs

/-- The index with the recorded chunk, before anything is dropped. -/
def recorded (index : LocalIndex) (key : ChunkKey) (size now : ℕ) (inCold pinned : Bool) :
    AList fun _ : ChunkKey => Entry :=
  index.entries.insert key ⟨size, index.tick + 1, now, inCold, pinned⟩

lemma Sound.recordPut (h : Sound capacity used index) (size now : ℕ) (inCold pinned : Bool)
    (hfits : (LocalOp.recordPut key size now inCold pinned).Fits index) :
    Sound capacity (used ++ [some key]) (index.recordPut key size now inCold pinned).1 ∧
      EvictsLeastRecent Entry.size capacity (fun a d => d.pinned = false ∧ a ≠ key)
        (used ++ [some key]) (index.recorded key size now inCold pinned)
        ((index.recordPut key size now inCold pinned).2.map Victim.key)
        (index.recordPut key size now inCold pinned).1.entries := by
  let next := index.advance.set key ⟨size, index.tick + 1, now, inCold, pinned⟩
  have hstamps : Stamps (used ++ [some key]) (index.tick + 1) fun a =>
      ((index.recorded key size now inCold pinned).lookup a).map Entry.lastTick := by
    refine (h.stamps.use key).restrict fun a s hs => ?_
    unfold recorded at hs
    rw [lookup_insert_eq] at hs
    by_cases ha : a = key
    · rw [if_pos ha] at hs ⊢
      exact hs
    · rw [if_neg ha] at hs ⊢
      exact hs
  have hcapacity : next.capacityBytes = capacity := h.capacity
  have hdrains : Drains Entry.size Entry.lastTick next.capacityBytes
      (fun a d => d.pinned = false ∧ a ≠ key) (index.recorded key size now inCold pinned)
      ((index.recordPut key size now inCold pinned).2.map Victim.key)
      (index.recordPut key size now inCold pinned).1.entries :=
    evict_drains next.entries.entries.length next le_rfl
  rw [hcapacity] at hdrains
  have hevicts := hdrains.leastRecent hstamps
  obtain ⟨hsame, htick⟩ : (index.recordPut key size now inCold pinned).1.capacityBytes =
      next.capacityBytes ∧ (index.recordPut key size now inCold pinned).1.tick = next.tick :=
    evict_capacity_tick next.entries.entries.length next
  refine ⟨⟨hsame.trans hcapacity, ?_, ?_⟩, hevicts⟩
  · have hle := weight_eraseAll_le ((index.recordPut key size now inCold pinned).2.map Victim.key)
      (index.recorded key size now inCold pinned)
    rw [← hevicts.left] at hle
    unfold recorded at hle
    rw [weight_insert] at hle
    rw [total_eq]
    exact hle.trans_lt hfits
  · have htick' : (index.recordPut key size now inCold pinned).1.tick = index.tick + 1 := htick
    rw [htick']
    refine hstamps.restrict fun a s hs => ?_
    obtain ⟨d, hd, rfl⟩ := Option.map_eq_some_iff.mp hs
    rw [hevicts.left, lookup_eraseAll] at hd
    by_cases ha : a ∈ (index.recordPut key size now inCold pinned).2.map Victim.key
    · rw [if_pos ha] at hd
      exact absurd hd (by simp)
    · rw [if_neg ha] at hd
      rw [hd]
      rfl

lemma Sound.apply (h : Sound capacity used index) (op : LocalOp) (hfits : op.Fits index) :
    Sound capacity (used ++ [op.used]) (op.apply index) := by
  cases op with
  | recordPut key size now inCold pinned => exact (h.recordPut size now inCold pinned hfits).1
  | recordAccess key now =>
    have hentries := @lookup_recordAccess index key
    have hsame : (index.recordAccess key now).capacityBytes = index.capacityBytes ∧
        (index.recordAccess key now).tick = index.tick + 1 := by
      unfold recordAccess
      cases index.entries.lookup key with
      | none => exact ⟨rfl, rfl⟩
      | some e => exact ⟨rfl, rfl⟩
    refine ⟨hsame.1.trans h.capacity, ?_, ?_⟩
    · have hweight : weight Entry.size (index.recordAccess key now).entries =
          weight Entry.size index.entries := by
        refine weight_congr fun a => ?_
        rw [hentries]
        by_cases ha : a = key
        · rw [if_pos ha, ha, Option.map_map]
          rfl
        · rw [if_neg ha]
      show (index.recordAccess key now).totalBytes < 2 ^ 64
      rw [total_eq, hweight, ← index.total_eq]
      exact h.total_lt
    · show Stamps _ (index.recordAccess key now).tick _
      rw [hsame.2]
      refine (h.stamps.use key).restrict fun a s hs => ?_
      have hs' : ((index.recordAccess key now).entries.lookup a).map Entry.lastTick = some s := hs
      rw [hentries] at hs'
      by_cases ha : a = key
      · rw [if_pos ha] at hs' ⊢
        obtain ⟨e, he, rfl⟩ := Option.map_eq_some_iff.mp hs'
        obtain ⟨d, -, rfl⟩ := Option.map_eq_some_iff.mp he
        rfl
      · rw [if_neg ha] at hs' ⊢
        exact hs'
  | remove key =>
    have herase : (index.remove key).entries = eraseAll [key] index.entries := rfl
    exact h.of_eraseAll ⟨rfl, rfl⟩ herase
  | removeStream blobRef =>
    exact h.of_eraseAll (removeStream_capacity_tick blobRef) entries_removeStream

lemma sound_of_run {path : List (LocalIndex × LocalOp)}
    (hrun : LabelledRun Next (empty capacity) path index) :
    Sound capacity (path.map fun x => x.2.used) index := by
  induction hrun with
  | start => exact ⟨rfl, Nat.two_pow_pos 64, .none⟩
  | @step path t u op _ hnext ih =>
    obtain ⟨hfits, rfl⟩ := hnext
    rw [List.map_append]
    exact ih.apply op hfits

lemma sizeOf_le : index.sizeOf key ≤ index.totalBytes := by
  unfold sizeOf
  cases hlookup : index.entries.lookup key with
  | none => exact Nat.zero_le _
  | some e =>
    rw [index.total_eq, weight_erase hlookup]
    exact Nat.le_add_left _ _

end LocalIndex

/-- **Both indexes drop what was least recently used, and no more than they must.**  After any calls
whose sizes fit in a machine word, the total is the sum of the sizes, and nothing underflows: every
further call that fits is answered, and no size exceeds the total.

What an insertion drops are the first of the other entries that may go, in the order of their last
insertion or access, as few as bring the total within the capacity, or all of them.  So the new entry
is never dropped, and of the local store no pinned one. -/
theorem evictions_exact :
    (∀ (capacity : UInt64) (path : List (CacheIndex × CacheOp)) (index : CacheIndex),
      LabelledRun CacheIndex.Next (.new capacity) path index →
        index.totalBytes.toNat = weight CacheIndex.bytes index.entries ∧
        (∀ op : CacheOp, op.Fits index → ∃ index', op.apply index = some index') ∧
        ∀ key size, (CacheOp.recordInsert key size).Fits index → ∃ index' victims,
          index.recordInsert key size = some (index', victims) ∧
          EvictsLeastRecent CacheIndex.bytes capacity.toNat (fun a _ => a ≠ key)
            (path.map (fun x => x.2.used) ++ [some key])
            (index.entries.insert key ⟨size, index.tick + 1⟩) victims index'.entries ∧
          key ∉ victims ∧
          (weight CacheIndex.bytes index'.entries ≤ capacity.toNat ∨
            ∀ a d, index'.entries.lookup a = some d → a = key)) ∧
      ∀ (capacity : ℕ) (path : List (LocalIndex × LocalOp)) (index : LocalIndex),
        LabelledRun LocalIndex.Next (.empty capacity) path index →
          index.totalBytes = weight Entry.size index.entries ∧ index.totalBytes < 2 ^ 64 ∧
          (∀ key, index.sizeOf key ≤ index.totalBytes) ∧
          ∀ key size now inCold pinned,
            (LocalOp.recordPut key size now inCold pinned).Fits index →
            EvictsLeastRecent Entry.size capacity (fun a d => d.pinned = false ∧ a ≠ key)
              (path.map (fun x => x.2.used) ++ [some key])
              (index.recorded key size now inCold pinned)
              ((index.recordPut key size now inCold pinned).2.map Victim.key)
              (index.recordPut key size now inCold pinned).1.entries ∧
            key ∉ (index.recordPut key size now inCold pinned).2.map Victim.key ∧
            (∀ a ∈ (index.recordPut key size now inCold pinned).2.map Victim.key,
              ∃ d, index.entries.lookup a = some d ∧ d.pinned = false) ∧
            (weight Entry.size (index.recordPut key size now inCold pinned).1.entries ≤ capacity ∨
              ∀ a d, (index.recordPut key size now inCold pinned).1.entries.lookup a = some d →
                a = key ∨ d.pinned = true) := by
  constructor
  · intro capacity path index hrun
    have hsound := CacheIndex.sound_of_run hrun
    refine ⟨hsound.counts, fun op hfits => ?_, fun key size hfits => ?_⟩
    · obtain ⟨index', happly, -⟩ := hsound.apply op hfits
      exact ⟨index', happly⟩
    · obtain ⟨index', victims, hinsert, -, hevicts⟩ := hsound.recordInsert hfits
      refine ⟨index', victims, hinsert, hevicts, ?_, ?_⟩
      · intro hkey
        obtain ⟨d, -, hne⟩ := hevicts.evictable_of_mem hkey
        exact hne rfl
      · exact hevicts.settled.imp_right fun hnone a d hd => not_not.mp (hnone a d hd)
  · intro capacity path index hrun
    have hsound := LocalIndex.sound_of_run hrun
    refine ⟨index.total_eq, hsound.total_lt, fun key => LocalIndex.sizeOf_le,
      fun key size now inCold pinned hfits => ?_⟩
    obtain ⟨-, hevicts⟩ := hsound.recordPut size now inCold pinned hfits
    refine ⟨hevicts, ?_, ?_, ?_⟩
    · intro hkey
      obtain ⟨d, -, -, hne⟩ := hevicts.evictable_of_mem hkey
      exact hne rfl
    · intro a ha
      obtain ⟨d, hd, hpinned, hne⟩ := hevicts.evictable_of_mem ha
      unfold LocalIndex.recorded at hd
      rw [AList.lookup_insert_ne hne] at hd
      exact ⟨d, hd, hpinned⟩
    · refine hevicts.settled.imp_right fun hnone a d hd => ?_
      have hnot := hnone a d hd
      by_cases ha : a = key
      · exact .inl ha
      · exact .inr (by simpa [ha] using hnot)

/-! ## A full cache -/

/-- Two chunks of a stream. -/
def firstChunk : ChunkKey := ⟨"ab/1/1", 0⟩

def secondChunk : ChunkKey := ⟨"ab/1/1", 1⟩

/-- Whether a call fits can be computed. -/
instance CacheOp.decidableFits (index : CacheIndex) : (op : CacheOp) → Decidable (op.Fits index)
  | recordInsert key size => inferInstanceAs (Decidable
      (weight (fun e => e.size.toNat) (index.entries.erase key) + size.toNat < 2 ^ 64))
  | recordAccess _ => isTrue trivial
  | remove _ => isTrue trivial
  | removeStream _ => isTrue trivial

/-- A cache of four bytes with a chunk of three. -/
def nearlyFull : CacheIndex :=
  ⟨4, 3, 1, (∅ : AList fun _ : ChunkKey => CacheEntry).insert firstChunk ⟨3, 1⟩⟩

lemma nearlyFull_run :
    LabelledRun CacheIndex.Next (.new 4) [(.new 4, .recordInsert firstChunk 3)] nearlyFull :=
  .step .start ⟨by decide +kernel, by rfl⟩

/-- When the second chunk comes, the first one goes. -/
theorem evictions_exact_nearlyFull :
    ∃ index' victims, nearlyFull.recordInsert secondChunk 2 = some (index', victims) ∧
      EvictsLeastRecent CacheIndex.bytes 4 (fun a _ => a ≠ secondChunk)
        [some firstChunk, some secondChunk]
        (nearlyFull.entries.insert secondChunk ⟨2, 2⟩) victims index'.entries := by
  obtain ⟨index', victims, hinsert, hevicts, -⟩ :=
    (evictions_exact.1 4 _ nearlyFull nearlyFull_run).2.2 secondChunk 2 (by decide +kernel)
  exact ⟨index', victims, hinsert, hevicts⟩

end MaxSecu
