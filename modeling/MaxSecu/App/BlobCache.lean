import MaxSecu.Encoding.Types
import MaxSecu.Framework.AssociationList

/-!
# The cache of ciphertext blobs

Blobs are cached under keys, within a byte budget if there is one, and the least recently used ones
are dropped first.  What a blob holds is nobody's business here: `get` returns the bytes that were
put last under the key, or nothing (`bytesAt_get`, `bytesAt_put`).

A fragment of a video is cached as one blob, with the length of each of its chunks.
-/

namespace MaxSecu

open AssociationList

inductive Ns
  | frag
  | content
  | card
  deriving DecidableEq

/-- A blob, and when it was used last. -/
structure CachedBlob where
  bytes : List UInt8
  lastUsed : ℕ

/-- Blobs by key.  Without a cap nothing is dropped for room. -/
structure BlobCache (κ : Type) [DecidableEq κ] where
  cap : Option ℕ
  tick : ℕ
  index : AList fun _ : κ => CachedBlob

namespace BlobCache

variable {κ : Type} [DecidableEq κ]

def empty (cap : Option ℕ) : BlobCache κ := ⟨cap, 0, ∅⟩

def totalBytes (c : BlobCache κ) : ℕ := weight (fun e => e.bytes.length) c.index

def bytesAt (c : BlobCache κ) (key : κ) : Option (List UInt8) :=
  (c.index.lookup key).map CachedBlob.bytes

def evict (c : BlobCache κ) (key : κ) : BlobCache κ := { c with index := c.index.erase key }

/-- Drop the least recently used blob, if there is one. -/
def evictOne (c : BlobCache κ) : Option (BlobCache κ) :=
  (c.index.entries.argmin fun e => e.2.lastUsed).map fun e => c.evict e.1

/-- Drop blobs until so many more bytes fit; every round drops one. -/
def evictFor (size : ℕ) : ℕ → BlobCache κ → BlobCache κ
  | 0, c => c
  | rounds + 1, c =>
    if c.cap.any (· < c.totalBytes + size) then
      match c.evictOne with
      | some c' => evictFor size rounds c'
      | none => c
    else c

/-- Store a blob in the place of what was there.  One that is larger than the cap is not cached. -/
def put (c : BlobCache κ) (key : κ) (bytes : List UInt8) : BlobCache κ :=
  let c := c.evict key
  if c.cap.any (· < bytes.length) then c
  else
    let c := evictFor bytes.length c.index.entries.length c
    { c with tick := c.tick + 1, index := c.index.insert key ⟨bytes, c.tick + 1⟩ }

/-- The bytes under a key, which are now the most recently used. -/
def get (c : BlobCache κ) (key : κ) : Option (List UInt8) × BlobCache κ :=
  match c.index.lookup key with
  | none => (none, c)
  | some e =>
    (some e.bytes,
      { c with
        tick := c.tick + 1
        index := adjust key (fun e => { e with lastUsed := c.tick + 1 }) c.index })

/-- Take another cap, and drop blobs until they fit. -/
def setCap (c : BlobCache κ) (cap : ℕ) : BlobCache κ :=
  evictFor 0 c.index.entries.length { c with cap := some cap }

def evictWhere (c : BlobCache κ) (p : κ → Bool) : BlobCache κ :=
  (c.index.keys.filter p).foldl evict c

def clear (c : BlobCache κ) : BlobCache κ := c.evictWhere fun _ => true

variable {c c' : BlobCache κ} {key other : κ} {bytes b : List UInt8}

@[simp] lemma get_fst : (c.get key).1 = c.bytesAt key := by
  unfold get bytesAt
  cases c.index.lookup key <;> rfl

@[simp] lemma bytesAt_get : (c.get key).2.bytesAt other = c.bytesAt other := by
  unfold get bytesAt
  cases hlookup : c.index.lookup key with
  | none => rfl
  | some e =>
    show ((adjust key _ c.index).lookup other).map _ = _
    rw [lookup_adjust]
    by_cases hother : other = key
    · rw [if_pos hother, hother, hlookup]
      rfl
    · rw [if_neg hother]

lemma bytesAt_evict_self : (c.evict key).bytesAt key = none := by
  unfold bytesAt evict
  rw [AList.lookup_erase]
  rfl

lemma bytesAt_evict_of_ne (h : other ≠ key) : (c.evict key).bytesAt other = c.bytesAt other := by
  unfold bytesAt evict
  rw [AList.lookup_erase_ne h]

lemma bytesAt_of_evict (h : (c.evict key).bytesAt other = some b) : c.bytesAt other = some b := by
  by_cases hother : other = key
  · rw [hother, bytesAt_evict_self] at h
    cases h
  · rwa [bytesAt_evict_of_ne hother] at h

lemma bytesAt_of_evictFor {size rounds : ℕ} (h : (evictFor size rounds c).bytesAt key = some b) :
    c.bytesAt key = some b := by
  induction rounds generalizing c with
  | zero => exact h
  | succ rounds ih =>
    unfold evictFor at h
    by_cases hover : c.cap.any (· < c.totalBytes + size) = true
    · rw [if_pos hover] at h
      cases hone : c.evictOne with
      | none =>
        rw [hone] at h
        exact h
      | some c' =>
        rw [hone] at h
        obtain ⟨e, -, rfl⟩ := Option.map_eq_some_iff.mp hone
        exact bytesAt_of_evict (ih h)
    · rwa [if_neg hover] at h

lemma bytesAt_of_put (hother : other ≠ key) (h : (c.put key bytes).bytesAt other = some b) :
    c.bytesAt other = some b := by
  unfold put at h
  by_cases hlarge : (c.evict key).cap.any (· < bytes.length) = true
  · rw [if_pos hlarge] at h
    exact bytesAt_of_evict h
  · rw [if_neg hlarge] at h
    apply bytesAt_of_evict
    apply bytesAt_of_evictFor
    unfold bytesAt at h ⊢
    rwa [AList.lookup_insert_ne hother] at h

lemma bytesAt_put_self (h : (c.put key bytes).bytesAt key = some b) : b = bytes := by
  unfold put at h
  by_cases hlarge : (c.evict key).cap.any (· < bytes.length) = true
  · rw [if_pos hlarge, bytesAt_evict_self] at h
    cases h
  · rw [if_neg hlarge] at h
    unfold bytesAt at h
    rw [AList.lookup_insert] at h
    exact (Option.some.inj h).symm

end BlobCache

/-! ## The framing of a fragment -/

/-- A 32-bit number, the least significant byte first. -/
def u32Le (n : ℕ) : List UInt8 :=
  [UInt8.ofNat n, UInt8.ofNat (n / 2 ^ 8), UInt8.ofNat (n / 2 ^ 16), UInt8.ofNat (n / 2 ^ 24)]

/-- Read such a number, and return what follows it. -/
def readU32Le : List UInt8 → Option (ℕ × List UInt8)
  | b0 :: b1 :: b2 :: b3 :: rest =>
    some (b0.toNat + b1.toNat * 2 ^ 8 + b2.toNat * 2 ^ 16 + b3.toNat * 2 ^ 24, rest)
  | _ => none

/-- The number of chunks, and then each with its length. -/
def frameChunks (chunks : List (List UInt8)) : List UInt8 :=
  u32Le chunks.length ++ chunks.flatMap fun c => u32Le c.length ++ c

/-- Read so many chunks, up to the end of the blob. -/
def deframeLoop : ℕ → List UInt8 → Option (List (List UInt8))
  | 0, rest => if rest = [] then some [] else none
  | count + 1, rest => do
    let (length, rest) ← readU32Le rest
    if rest.length < length then none
    else do
      let chunks ← deframeLoop count (rest.drop length)
      some (rest.take length :: chunks)

/-- Take a blob apart.  A count that its length does not allow is refused at once. -/
def deframeChunks (blob : List UInt8) : Option (List (List UInt8)) := do
  let (count, rest) ← readU32Le blob
  if count > (blob.length - 4) / 4 then none else deframeLoop count rest

/-- Walk over so many chunks, up to the end of the blob. -/
def deframeCountLoop : ℕ → List UInt8 → Option Unit
  | 0, rest => if rest = [] then some () else none
  | count + 1, rest => do
    let (length, rest) ← readU32Le rest
    if rest.length < length then none else deframeCountLoop count (rest.drop length)

/-- How many chunks a blob comes apart into. -/
def deframeCount (blob : List UInt8) : Option ℕ := do
  let (count, rest) ← readU32Le blob
  if count > (blob.length - 4) / 4 then none
  else do
    deframeCountLoop count rest
    some count

lemma deframeLoop_map_length (count : ℕ) (rest : List UInt8) :
    (deframeLoop count rest).map List.length = (deframeCountLoop count rest).map fun _ => count := by
  induction count generalizing rest with
  | zero =>
    unfold deframeLoop deframeCountLoop
    by_cases hend : rest = []
    · rw [if_pos hend, if_pos hend]
      rfl
    · rw [if_neg hend, if_neg hend]
      rfl
  | succ count ih =>
    unfold deframeLoop deframeCountLoop
    cases readU32Le rest with
    | none => rfl
    | some read =>
      obtain ⟨length, rest⟩ := read
      simp only [Option.bind_eq_bind, Option.bind_some]
      by_cases hshort : rest.length < length
      · rw [if_pos hshort, if_pos hshort]
        rfl
      · rw [if_neg hshort, if_neg hshort]
        have hrest := ih (rest.drop length)
        cases hloop : deframeLoop count (rest.drop length) with
        | none =>
          rw [hloop] at hrest
          rw [Option.map_eq_none_iff.mp hrest.symm]
          rfl
        | some chunks =>
          rw [hloop] at hrest
          obtain ⟨u, hu, hcount⟩ := Option.map_eq_some_iff.mp hrest.symm
          rw [hu]
          show some (chunks.length + 1) = some (count + 1)
          rw [hcount]

lemma deframeCount_eq (blob : List UInt8) :
    deframeCount blob = (deframeChunks blob).map List.length := by
  unfold deframeCount deframeChunks
  cases readU32Le blob with
  | none => rfl
  | some read =>
    obtain ⟨count, rest⟩ := read
    simp only [Option.bind_eq_bind, Option.bind_some]
    by_cases hlarge : count > (blob.length - 4) / 4
    · rw [if_pos hlarge, if_pos hlarge]
      rfl
    · rw [if_neg hlarge, if_neg hlarge, deframeLoop_map_length]
      cases deframeCountLoop count rest <;> rfl

lemma readU32Le_u32Le {n : ℕ} (hn : n < 2 ^ 32) (rest : List UInt8) :
    readU32Le (u32Le n ++ rest) = some (n, rest) := by
  have h0 : (UInt8.ofNat n).toNat = n % 256 := UInt8.toNat_ofNat'
  have h1 : (UInt8.ofNat (n / 2 ^ 8)).toNat = n / 2 ^ 8 % 256 := UInt8.toNat_ofNat'
  have h2 : (UInt8.ofNat (n / 2 ^ 16)).toNat = n / 2 ^ 16 % 256 := UInt8.toNat_ofNat'
  have h3 : (UInt8.ofNat (n / 2 ^ 24)).toNat = n / 2 ^ 24 % 256 := UInt8.toNat_ofNat'
  show some (_, rest) = some (n, rest)
  rw [h0, h1, h2, h3]
  congr 2
  omega

lemma deframeLoop_chunks {chunks : List (List UInt8)} (hchunks : ∀ c ∈ chunks, c.length < 2 ^ 32) :
    deframeLoop chunks.length (chunks.flatMap fun c => u32Le c.length ++ c) = some chunks := by
  induction chunks with
  | nil => rfl
  | cons c chunks ih =>
    have hc := hchunks c List.mem_cons_self
    have hrest := ih fun d hd => hchunks d (List.mem_cons_of_mem _ hd)
    rw [List.length_cons, List.flatMap_cons, deframeLoop, List.append_assoc, readU32Le_u32Le hc]
    simp only [Option.bind_eq_bind, Option.bind_some]
    rw [if_neg (by rw [List.length_append]; omega), List.drop_left, hrest, List.take_left]
    rfl

lemma deframeChunks_frameChunks {chunks : List (List UInt8)} (hcount : chunks.length < 2 ^ 32)
    (hchunks : ∀ c ∈ chunks, c.length < 2 ^ 32) :
    deframeChunks (frameChunks chunks) = some chunks := by
  have hbytes : 4 * chunks.length ≤ (chunks.flatMap fun c => u32Le c.length ++ c).length := by
    rw [List.length_flatMap]
    clear hcount hchunks
    induction chunks with
    | nil => exact Nat.zero_le _
    | cons c chunks ih =>
      rw [List.length_cons, List.map_cons, List.sum_cons, List.length_append]
      have hfour : (u32Le c.length).length = 4 := rfl
      omega
  have hlength : (frameChunks chunks).length =
      4 + (chunks.flatMap fun c => u32Le c.length ++ c).length := by
    rw [frameChunks, List.length_append]
    rfl
  unfold deframeChunks
  rw [hlength]
  unfold frameChunks
  rw [readU32Le_u32Le hcount]
  simp only [Option.bind_eq_bind, Option.bind_some]
  rw [if_neg (by omega), deframeLoop_chunks hchunks]

end MaxSecu
