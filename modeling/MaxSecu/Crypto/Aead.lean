import MaxSecu.Framework.ExceptRules
import MaxSecu.Crypto.Primitives

/-!
# Chunked authenticated encryption

A stream is a list of chunks, each sealed with its index as the nonce and with its place in the
file, the version and the stream as associated data.  `openStream` opens a whole list at once and
`openStreamStreaming` fetches, opens and releases one chunk at a time; `streamChunks_eq_openChunks`
says that on the same chunks the two loops release the same plaintext.
-/

namespace MaxSecu

open ExceptRules

/-- Length of the tag at the end of a sealed chunk. -/
def TAG_LEN : ℕ := 16

/-- The chunk index as a 96-bit big-endian counter. -/
def nonceFor (chunkIndex : UInt64) : Bytes 12 :=
  ⟨List.replicate 4 0 ++ Writer.u64 chunkIndex, by simp⟩

/-- Open one chunk: any tamper, wrong key or wrong associated data fails. -/
def openChunk [Aes256Gcm] (ck : Bytes 32) (aad : ChunkAad) (ciphertext : List UInt8) :
    Except CryptoError (List UInt8) :=
  (Aes256Gcm.decrypt ck (nonceFor aad.chunkIndex) (encode aad) ciphertext).elim
    (throw .aead) pure

/-- The hash of the chunks' tags in order.  A chunk shorter than a tag counts whole. -/
def streamDigest [Sha256] (chunks : List (List UInt8)) : Bytes 32 :=
  sha256 (chunks.flatMap fun ct => ct.drop (ct.length - TAG_LEN))

section Open

variable [Aes256Gcm] (ck : Bytes 32) (aad : ℕ → ChunkAad)

/-- The whole-buffer loop, from chunk `i` with the plaintext so far. -/
def openChunks : ℕ → List UInt8 → List (List UInt8) → Except CryptoError (List UInt8)
  | _, out, [] => pure out
  | i, out, ct :: chunks => do
    let pt ← openChunk ck (aad i) ct
    openChunks (i + 1) (out ++ pt) chunks

/-- The streaming loop, with `n` chunks to go from chunk `i`.  Each chunk is verified before its
plaintext is released. -/
def streamChunks {σ : Type} (fetch : UInt64 → ExceptT CryptoError (StateM σ) (List UInt8))
    (sink : List UInt8 → ExceptT CryptoError (StateM σ) Unit) :
    ℕ → ℕ → ExceptT CryptoError (StateM σ) Unit
  | 0, _ => pure ()
  | n + 1, i => do
    let ct ← fetch (UInt64.ofNat i)
    let pt ← liftM (openChunk ck (aad i) ct)
    sink pt
    streamChunks fetch sink n (i + 1)

variable {ck aad}

/-- Where the fetches serve the chunks and the sink takes every frame, the streaming loop ends well
exactly when the whole-buffer loop does, and the sink has taken in the same plaintext.  `take` reads
what the sink has received off the caller's state. -/
lemma streamChunks_eq_openChunks {σ : Type} (take : σ → List UInt8 → σ)
    {fetch : UInt64 → ExceptT CryptoError (StateM σ) (List UInt8)}
    {sink : List UInt8 → ExceptT CryptoError (StateM σ) Unit}
    (hsink : ∀ frame s, runFrom (sink frame) s = (.ok (), take s frame))
    (htake : ∀ s f g, take (take s f) g = take s (f ++ g))
    {chunks : List (List UInt8)} {i : ℕ} {s₀ t : σ} {out : List UInt8}
    (hfetch : ∀ j ct, chunks[j]? = some ct →
      ∀ s, runFrom (fetch (UInt64.ofNat (i + j))) s = (.ok ct, s)) :
    runFrom (streamChunks ck aad fetch sink chunks.length i) (take s₀ out) = (.ok (), t) ↔
      ∃ out', openChunks ck aad i out chunks = .ok out' ∧ t = take s₀ out' := by
  induction chunks generalizing i out with
  | nil =>
    simp only [List.length_nil, streamChunks, openChunks, runFrom_pure, pure_eq_ok, Prod.mk.injEq,
      true_and, exists_eq_left']
    exact eq_comm
  | cons ct chunks ih =>
    have hct : ∀ s, runFrom (fetch (UInt64.ofNat i)) s = (.ok ct, s) := hfetch 0 ct rfl
    have hrest : ∀ j ct', chunks[j]? = some ct' →
        ∀ s, runFrom (fetch (UInt64.ofNat (i + 1 + j))) s = (.ok ct', s) := by
      intro j ct' hj s
      have hindex : i + 1 + j = i + (j + 1) := by omega
      rw [hindex]
      exact hfetch (j + 1) ct' hj s
    rw [List.length_cons, streamChunks, openChunks]
    simp only [bind_eq_ok, runFrom_bind_eq_ok, hct, runFrom_liftM, hsink, Prod.mk.injEq,
      Except.ok.injEq]
    constructor
    · rintro ⟨_, _, ⟨rfl, rfl⟩, pt, _, ⟨hpt, rfl⟩, _, _, ⟨-, rfl⟩, hloop⟩
      rw [htake] at hloop
      obtain ⟨out', hopen, ht⟩ := (ih hrest).mp hloop
      exact ⟨out', ⟨pt, hpt, hopen⟩, ht⟩
    · rintro ⟨out', ⟨pt, hpt, hopen⟩, ht⟩
      refine ⟨ct, take s₀ out, ⟨rfl, rfl⟩, pt, take s₀ out, ⟨hpt, rfl⟩, (), _, ⟨trivial, rfl⟩, ?_⟩
      rw [htake]
      exact (ih hrest).mpr ⟨out', hopen, ht⟩

end Open

section Streams

variable [Aes256Gcm] (ck : Bytes 32) (fileId : Id) (version : UInt64) (streamType : StreamType)

/-- Open and concatenate a stream's chunks: index `i` at position `i`, and `isLast` on the final
chunk only. -/
def openStream (chunks : List (List UInt8)) : Except CryptoError (List UInt8) :=
  if chunks.isEmpty then
    throw (.framing "empty stream")
  else
    openChunks ck
      (fun i => ⟨fileId, version, streamType, UInt64.ofNat i, i = chunks.length - 1⟩) 0 [] chunks

/-- Open a stream chunk by chunk.  The signed count and `isLast` catch truncation and extension. -/
def openStreamStreaming {σ : Type} (chunkCount : UInt64)
    (fetch : UInt64 → ExceptT CryptoError (StateM σ) (List UInt8))
    (sink : List UInt8 → ExceptT CryptoError (StateM σ) Unit) :
    ExceptT CryptoError (StateM σ) Unit :=
  if chunkCount = 0 then
    throw (.framing "empty stream")
  else
    streamChunks ck
      (fun i => ⟨fileId, version, streamType, UInt64.ofNat i, i = chunkCount.toNat - 1⟩)
      fetch sink chunkCount.toNat 0

variable {ck fileId version streamType}

lemma openStreamStreaming_eq_openStream {σ : Type} (take : σ → List UInt8 → σ) {chunkCount : UInt64}
    {fetch : UInt64 → ExceptT CryptoError (StateM σ) (List UInt8)}
    {sink : List UInt8 → ExceptT CryptoError (StateM σ) Unit}
    (hsink : ∀ frame s, runFrom (sink frame) s = (.ok (), take s frame))
    (htake : ∀ s f g, take (take s f) g = take s (f ++ g)) {s t : σ} (hnil : take s [] = s)
    {chunks : List (List UInt8)} (hlength : chunks.length = chunkCount.toNat)
    (hfetch : ∀ j ct, chunks[j]? = some ct →
      ∀ s, runFrom (fetch (UInt64.ofNat j)) s = (.ok ct, s)) :
    runFrom (openStreamStreaming ck fileId version streamType chunkCount fetch sink) s =
        (.ok (), t) ↔
      ∃ out, openStream ck fileId version streamType chunks = .ok out ∧ t = take s out := by
  unfold openStreamStreaming openStream
  by_cases hempty : chunks = []
  · subst hempty
    have hzero : chunkCount = 0 := UInt64.toNat_inj.mp hlength.symm
    rw [if_pos hzero, if_pos List.isEmpty_nil]
    constructor
    · intro h
      cases congrArg Prod.fst h
    · rintro ⟨out, h, -⟩
      cases h
  · have hzero : chunkCount ≠ 0 := by
      rintro rfl
      exact hempty (List.length_eq_zero_iff.mp hlength)
    rw [if_neg hzero, if_neg (by simpa using hempty), ← hlength]
    have hzeroth : ∀ j ct, chunks[j]? = some ct →
        ∀ s, runFrom (fetch (UInt64.ofNat (0 + j))) s = (.ok ct, s) := by
      simpa using hfetch
    conv_lhs => rw [← hnil]
    exact streamChunks_eq_openChunks take hsink htake hzeroth

end Streams

end MaxSecu
