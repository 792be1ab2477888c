import MaxSecu.Framework.AssociationList
import MaxSecu.Encoding.Types

/-!
# Blob stores

Chunks of ciphertext, stored by the stream they belong to and their index in it.  The local store
and the cold tier answer the same five calls; a call has an effect on the stored chunks and a
response.
-/

namespace MaxSecu

open AssociationList

/-- One chunk: the stream, of the form `hex/version/stream_type`, and the index in it. -/
structure ChunkKey where
  blobRef : String
  index : UInt64
  deriving DecidableEq

structure BlobError where
  op : String
  detail : String
  deriving DecidableEq

abbrev ChunkStore := AList fun _ : ChunkKey => List UInt8

namespace ChunkStore

variable {store : ChunkStore} {blobRef : String} {key : ChunkKey}

/-- The number of distinct indices stored for the stream. -/
def chunkCount (store : ChunkStore) (blobRef : String) : ℕ :=
  keyCount (fun k => k.blobRef = blobRef) store

def deleteStream (store : ChunkStore) (blobRef : String) : ChunkStore :=
  eraseAll (store.keys.filter fun k => k.blobRef = blobRef) store

def streamKeys (store : ChunkStore) (blobRef : String) : Finset ChunkKey :=
  store.keys.toFinset.filter fun k => k.blobRef = blobRef

lemma mem_streamKeys : key ∈ store.streamKeys blobRef ↔ key ∈ store ∧ key.blobRef = blobRef := by
  rw [streamKeys, Finset.mem_filter, mem_keys_toFinset]

lemma streamKeys_eq_empty :
    store.streamKeys blobRef = ∅ ↔ ∀ key ∈ store, key.blobRef ≠ blobRef := by
  rw [Finset.eq_empty_iff_forall_notMem]
  constructor
  · intro h key hkey href
    exact h key (mem_streamKeys.mpr ⟨hkey, href⟩)
  · intro h key hmem
    obtain ⟨hkey, href⟩ := mem_streamKeys.mp hmem
    exact h key hkey href

lemma chunkCount_eq_card : store.chunkCount blobRef = (store.streamKeys blobRef).card := by
  rw [chunkCount, keyCount_eq_card, streamKeys]
  simp

lemma lookup_deleteStream :
    (store.deleteStream blobRef).lookup key =
      if key.blobRef = blobRef then none else store.lookup key := by
  rw [deleteStream, lookup_eraseAll]
  by_cases hmem : key ∈ store
  · have hkey : key ∈ store.keys := AList.mem_keys.mp hmem
    simp [hkey]
  · have hnone : store.lookup key = none := AList.lookup_eq_none.mpr hmem
    rw [hnone, ite_self, ite_self]

lemma mem_deleteStream : key ∈ store.deleteStream blobRef ↔ key.blobRef ≠ blobRef ∧ key ∈ store := by
  rw [← AList.lookup_isSome, ← AList.lookup_isSome, lookup_deleteStream]
  by_cases href : key.blobRef = blobRef
  · simp [href]
  · simp [href]

end ChunkStore

/-! ## Calls -/

/-- The calls that a local store and a cold tier answer. -/
inductive StoreCall
  | putChunk (key : ChunkKey) (bytes : List UInt8)
  | getChunk (key : ChunkKey)
  | chunkCount (blobRef : String)
  | deleteStream (blobRef : String)
  | deleteChunk (key : ChunkKey)

namespace StoreCall

@[reducible] def Output : StoreCall → Type
  | putChunk _ _ => Unit
  | getChunk _ => Option (List UInt8)
  | chunkCount _ => ℕ
  | deleteStream _ => Unit
  | deleteChunk _ => Unit

/-- A successful call: what it returns, and the store after it. -/
def apply : (c : StoreCall) → ChunkStore → c.Output × ChunkStore
  | putChunk key bytes, store => ((), store.insert key bytes)
  | getChunk key, store => (store.lookup key, store)
  | chunkCount blobRef, store => (store.chunkCount blobRef, store)
  | deleteStream blobRef, store => ((), store.deleteStream blobRef)
  | deleteChunk key, store => ((), store.erase key)

end StoreCall

lemma StoreCall.streamKeys_apply {c : StoreCall} {store : ChunkStore} {blobRef : String}
    (hput : ∀ key bytes, c = .putChunk key bytes → key.blobRef ≠ blobRef)
    (h : store.streamKeys blobRef = ∅) : (c.apply store).2.streamKeys blobRef = ∅ := by
  rw [ChunkStore.streamKeys_eq_empty] at h ⊢
  intro k hk
  cases c with
  | putChunk key bytes =>
    obtain rfl | hold := (AList.mem_insert _).mp hk
    · exact hput k bytes rfl
    · exact h k hold
  | getChunk key => exact h k hk
  | chunkCount ref => exact h k hk
  | deleteStream ref => exact h k (ChunkStore.mem_deleteStream.mp hk).2
  | deleteChunk key => exact h k (AList.mem_erase.mp hk).2

/-! ## Pinned streams -/

/-- The decimal parser of `u8`: an optional plus sign, at least one digit, and a value in range. -/
def parseU8 (chars : List Char) : Option UInt8 :=
  let digits := if chars.head? = some '+' then chars.tail else chars
  if digits = [] ∨ digits.any (fun c => !c.isDigit) then none
  else
    let value := digits.foldl (fun n c => n * 10 + (c.toNat - '0'.toNat)) 0
    if value < 256 then some (UInt8.ofNat value) else none

/-- Thumbnails and previews stay on the local store: the stream type is the last component of the
stream's reference. -/
def isPinnedStream (blobRef : String) : Bool :=
  ((blobRef.toList.splitOn '/').getLast?.bind parseU8).any fun st =>
    st = StreamType.thumbnail.codepoint ∨ st = StreamType.preview.codepoint

example : isPinnedStream "ab/1/3" = true := by decide +kernel

end MaxSecu
