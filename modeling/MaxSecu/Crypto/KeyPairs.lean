import MaxSecu.Crypto.Dek
import MaxSecu.Crypto.Sealing

/-!
# Keys that belong together

What the primitives promise when they are used with matching keys: a signature verifies, a sealed
chunk opens, and a wrapped key unwraps.  Nothing here is about an adversary.
-/

namespace MaxSecu

open ExceptRules

/-! ## Signatures -/

def SigningKey.verifyingKey [Ed25519] (key : SigningKey) : Bytes 32 := Ed25519.publicKey key.seed

/-- What the key signs is verified under its public half. -/
structure SigningKey.Verifies [Ed25519] (key : SigningKey) : Prop where
  valid : Ed25519.validKey key.verifyingKey = true
  verifies : ∀ msg, Ed25519.verifyStrict key.verifyingKey msg (key.signRaw msg) = true

lemma SigningKey.Verifies.anyKeyVerifies [Ed25519] {key : SigningKey} (hkey : key.Verifies)
    {pubs : List (Bytes 32)} (hpub : key.verifyingKey ∈ pubs) (msg : List UInt8) :
    anyKeyVerifies pubs msg (key.signRaw msg) = true := by
  unfold MaxSecu.anyKeyVerifies
  rw [List.any_eq_true]
  refine ⟨key.verifyingKey, hpub, ?_⟩
  simp [VerifyingKey.fromBytes, VerifyingKey.verifyRaw, hkey.valid, hkey.verifies msg, bind,
    Except.bind]

/-! ## Streams -/

/-- What is sealed opens under the same key, nonce and associated data, and is a tag longer. -/
structure AeadOpens [Aes256Gcm] [Aes256GcmSeal] : Prop where
  opens : ∀ key nonce aad pt,
    Aes256Gcm.decrypt key nonce aad (Aes256GcmSeal.encrypt key nonce aad pt) = some pt
  length : ∀ key nonce aad pt,
    (Aes256GcmSeal.encrypt key nonce aad pt).length = pt.length + TAG_LEN

section Streams

variable [Sha256] [Aes256Gcm] [Aes256GcmSeal] {ck : Bytes 32} {fileId : Id} {version : UInt64}
  {streamType : StreamType} {chunkSize : ℕ} {plaintext : List UInt8}

omit [Sha256] in
lemma AeadOpens.openChunks (haead : AeadOpens) {aad : ℕ → ChunkAad} {frames : List (List UInt8)}
    {i : ℕ} {out : List UInt8} :
    MaxSecu.openChunks ck aad i out
        (frames.mapIdx fun j frame => sealChunk ck (aad (i + j)) frame) =
      .ok (out ++ frames.flatten) := by
  induction frames generalizing i out with
  | nil => exact pure_eq_ok.mpr (List.append_nil out).symm
  | cons frame frames ih =>
    have hopen : openChunk ck (aad i) (sealChunk ck (aad i) frame) = .ok frame :=
      elim_eq_ok.mpr (haead.opens ck _ _ frame)
    have hrest : (fun j frame => sealChunk ck (aad (i + (j + 1))) frame) =
        fun j frame => sealChunk ck (aad (i + 1 + j)) frame := by
      funext j frame
      rw [Nat.add_right_comm, Nat.add_assoc]
    rw [List.mapIdx_cons, hrest]
    unfold MaxSecu.openChunks
    refine bind_eq_ok.mpr ⟨frame, hopen, ?_⟩
    rw [ih, List.flatten_cons, List.append_assoc]

omit [Aes256Gcm] in
lemma length_sealStream_chunks :
    (sealStream ck fileId version streamType chunkSize plaintext).chunks.length =
      (framesOf chunkSize plaintext).length :=
  List.length_mapIdx

lemma AeadOpens.openStream (haead : AeadOpens) (hsize : 0 < chunkSize) :
    MaxSecu.openStream ck fileId version streamType
        (sealStream ck fileId version streamType chunkSize plaintext).chunks =
      .ok plaintext := by
  have hlength : (sealStream ck fileId version streamType chunkSize plaintext).chunks.length =
      (framesOf chunkSize plaintext).length := length_sealStream_chunks
  have hpos : 0 < (framesOf chunkSize plaintext).length := List.length_pos_of_ne_nil framesOf_ne_nil
  have hne : (sealStream ck fileId version streamType chunkSize plaintext).chunks ≠ [] :=
    List.ne_nil_of_length_pos (hlength ▸ hpos)
  unfold MaxSecu.openStream
  rw [if_neg (by simpa using hne), hlength]
  have hopen := @AeadOpens.openChunks _ _ ck haead
    (fun i => ⟨fileId, version, streamType, UInt64.ofNat i,
      i = (framesOf chunkSize plaintext).length - 1⟩) (framesOf chunkSize plaintext) 0 []
  rw [flatten_framesOf hsize, List.nil_append] at hopen
  simp only [Nat.zero_add] at hopen
  exact hopen

end Streams

/-! ## Wraps -/

/-- What is sealed to the public key opens under the private key. -/
structure EncPair [Hpke] [HpkeSeal] (sk : EncSecretKey) (pk : EncPublicKey) : Prop where
  validPrivateKey : Hpke.validPrivateKey sk.bytes = true
  opens : ∀ rand info pt enc ct, HpkeSeal.singleShotSeal rand pk.bytes info pt = some (enc, ct) →
    Hpke.validEncappedKey enc = true ∧ Hpke.singleShotOpen sk.bytes enc info ct = some pt

/-- Both legs give the two sides the same shared secret. -/
structure HybridPair [X25519] [X25519Base] [MlKem768] [MlKem768Encaps] (sk : HybridEncSecretKey)
    (pk : HybridEncPublicKey) : Prop where
  agrees : ∀ ephemeral, X25519.diffieHellman ephemeral pk.x25519 =
    X25519.diffieHellman sk.x25519 (X25519Base.publicKey ephemeral)
  length : ∀ rand, (MlKem768Encaps.encapsulate pk.mlkem rand).1.length = MLKEM_CT_LEN
  decapsulates : ∀ rand, MlKem768.decapsulate sk.mlkemSeed
    (MlKem768Encaps.encapsulate pk.mlkem rand).1 = some (MlKem768Encaps.encapsulate pk.mlkem rand).2

section Wraps

variable {rand : WrapEntropy} {dek : Dek} {ctx : WrapContext}

lemma keyOfLength32_toList {e : CryptoError} : keyOfLength32 dek.bytes.toList e = .ok dek := by
  unfold keyOfLength32
  rw [dif_pos dek.bytes.toList_length]
  rfl

lemma EncPair.unwrapDek [Hpke] [HpkeSeal] {sk : EncSecretKey} {pk : EncPublicKey}
    (hpair : EncPair sk pk) {wrapped : WrappedDek} (hwrap : wrapDek rand pk dek ctx = .ok wrapped) :
    MaxSecu.unwrapDek sk wrapped ctx = .ok dek := by
  unfold wrapDek at hwrap
  obtain ⟨-, hwrap⟩ := guard_eq_ok.mp hwrap
  obtain ⟨⟨enc, ct⟩, hseal, hwrap⟩ := bind_eq_ok.mp hwrap
  obtain rfl := pure_eq_ok.mp hwrap
  obtain ⟨hvalid, hopen⟩ := hpair.opens _ _ _ _ _ (elim_eq_ok.mp hseal)
  unfold MaxSecu.unwrapDek
  rw [guard_eq_ok, guard_eq_ok, bind_eq_ok]
  exact ⟨not_not.mpr hpair.validPrivateKey, not_not.mpr hvalid, dek.bytes.toList,
    elim_eq_ok.mpr hopen, keyOfLength32_toList⟩

variable [Hkdf] [Aes256Gcm] [Aes256GcmSeal] [X25519] [X25519Base] [MlKem768] [MlKem768Encaps]
  {sk : HybridEncSecretKey} {pk : HybridEncPublicKey} {hybrid : HybridWrappedDek}

omit [Aes256Gcm] [MlKem768] in
lemma wrapDekHybrid_eq_ok : wrapDekHybrid rand pk dek ctx = .ok hybrid ↔
    MlKem768Encaps.validKey pk.mlkem = true ∧
      { ephXPub := X25519Base.publicKey rand.ephemeral
        ctPq := (MlKem768Encaps.encapsulate pk.mlkem rand.encaps).1
        aeadCt := sealOnce (deriveKek (X25519.diffieHellman rand.ephemeral pk.x25519)
          (MlKem768Encaps.encapsulate pk.mlkem rand.encaps).2 ctx
          (X25519Base.publicKey rand.ephemeral)
          (MlKem768Encaps.encapsulate pk.mlkem rand.encaps).1) ZERO_NONCE [] dek.bytes.toList } =
        hybrid := by
  unfold wrapDekHybrid
  rw [guard_eq_ok, not_not, pure_eq_ok]

/-- A hybrid wrap is opened by the recipient it was made to, and each of its parts has the length
that is stored. -/
lemma HybridPair.unwrapDekHybrid (haead : AeadOpens) (hpair : HybridPair sk pk)
    (hwrap : wrapDekHybrid rand pk dek ctx = .ok hybrid) :
    hybrid.ctPq.length = MLKEM_CT_LEN ∧ hybrid.aeadCt.length = AEAD_CT_LEN ∧
      MaxSecu.unwrapDekHybrid sk hybrid ctx = .ok dek := by
  obtain ⟨-, rfl⟩ := wrapDekHybrid_eq_ok.mp hwrap
  have hctPq := hpair.length rand.encaps
  have haeadCt : ∀ kek, (sealOnce kek ZERO_NONCE [] dek.bytes.toList).length = AEAD_CT_LEN := by
    intro kek
    unfold sealOnce
    rw [haead.length, dek.bytes.toList_length]
    rfl
  refine ⟨hctPq, haeadCt _, ?_⟩
  unfold MaxSecu.unwrapDekHybrid
  rw [guard_eq_ok, bind_eq_ok]
  refine ⟨?_, _, elim_eq_ok.mpr (hpair.decapsulates rand.encaps), ?_⟩
  · rw [not_or, not_not, not_not]
    exact ⟨hctPq, haeadCt _⟩
  rw [bind_eq_ok]
  refine ⟨dek.bytes.toList, mapError_eq_ok.mpr (elim_eq_ok.mpr ?_), keyOfLength32_toList⟩
  unfold sealOnce
  rw [← hpair.agrees]
  exact haead.opens _ _ _ _

end Wraps

/-- The private keys belong to the public ones.  Who published no ML-KEM key need not hold one. -/
structure HoldsKeys [Hpke] [HpkeSeal] [X25519] [X25519Base] [MlKem768] [MlKem768Encaps]
    (sk : EncSecretKey) (seed : Option (Bytes 64)) (encPub : EncPublicKey)
    (mlkemPub : Option (Bytes MLKEM768_PUB_LEN)) : Prop where
  classical : EncPair sk encPub
  hybrid : ∀ pk, mlkemPub = some pk → ∃ s, seed = some s ∧
    HybridPair ⟨sk.bytes, s⟩ ⟨encPub.bytes, pk⟩

lemma unpackHybridWrap_packHybridWrap {hybrid : HybridWrappedDek}
    (hctPq : hybrid.ctPq.length = MLKEM_CT_LEN) (haeadCt : hybrid.aeadCt.length = AEAD_CT_LEN) :
    unpackHybridWrap (packHybridWrap hybrid) = .ok hybrid := by
  have heph : hybrid.ephXPub.toList.length = X25519_LEN := hybrid.ephXPub.toList_length
  have hbytes : (packHybridWrap hybrid).enc.toList ++ (packHybridWrap hybrid).ct =
      hybrid.ephXPub.toList ++ (hybrid.ctPq ++ hybrid.aeadCt) := by
    unfold packHybridWrap serializeHybridWrap
    rw [List.append_assoc, List.drop_left' heph]
  have hlength : (hybrid.ephXPub.toList ++ (hybrid.ctPq ++ hybrid.aeadCt)).length =
      HYBRID_WRAP_LEN := by
    rw [List.length_append, List.length_append, heph, hctPq, haeadCt]
    rfl
  unfold unpackHybridWrap deserializeHybridWrap
  rw [hbytes, dif_pos hlength, pure_eq_ok]
  refine congr (congr (congrArg HybridWrappedDek.mk ?_) ?_) ?_
  · apply List.Vector.toList_injective
    exact List.take_left' heph
  · rw [List.drop_left' heph, List.take_left' hctPq]
  · rw [← List.append_assoc, List.drop_left' (by rw [List.length_append, heph, hctPq])]

/-! ## Closed runs -/

/-- Opening shows what is there. -/
abbrev showingHpke : Hpke where
  validPrivateKey _ := true
  validEncappedKey _ := true
  singleShotOpen _ _ _ ct := some ct

namespace ClosedRuns

scoped instance : Aes256Gcm := tagStrippingAead
scoped instance : Hpke := showingHpke
scoped instance : MlKem768 := constantMlKem768

lemma aeadOpens : AeadOpens where
  opens key nonce aad pt := by
    show (if 16 ≤ (pt ++ List.replicate 16 0).length then
      some ((pt ++ List.replicate 16 0).take ((pt ++ List.replicate 16 0).length - 16)) else none) =
        some pt
    simp
  length key nonce aad pt := by
    show (pt ++ List.replicate 16 0).length = pt.length + TAG_LEN
    simp [TAG_LEN]

lemma verifies (key : SigningKey) : key.Verifies := ⟨rfl, fun _ => rfl⟩

lemma holdsKeys {sk : EncSecretKey} {seed : Option (Bytes 64)} {encPub : EncPublicKey}
    {mlkemPub : Option (Bytes MLKEM768_PUB_LEN)} (hseed : seed = none → mlkemPub = none) :
    HoldsKeys sk seed encPub mlkemPub where
  classical := ⟨rfl, fun _ _ pt _ ct hseal => ⟨rfl, congrArg (some ·.2) (Option.some.inj hseal).symm⟩⟩
  hybrid pk hpk := by
    obtain ⟨s, rfl⟩ : ∃ s, seed = some s := by
      by_contra hnone
      rw [hseed (Option.eq_none_iff_forall_ne_some.mpr (not_exists.mp hnone))] at hpk
      cases hpk
    exact ⟨s, rfl, fun _ => rfl, fun _ => List.length_replicate, fun _ => rfl⟩

end ClosedRuns

end MaxSecu
