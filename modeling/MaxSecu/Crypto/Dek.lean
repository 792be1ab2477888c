import MaxSecu.Crypto.Aead

/-!
# The per-file key and its wraps

A file's key is only ever the root of a key derivation: the commitment and the stream subkeys are
derived from it under different labels.  It reaches a recipient wrapped, either classically with
HPKE or by the hybrid of X25519 and ML-KEM-768, and both wraps are bound to the file, the version
and the recipient.
-/

namespace MaxSecu

def labelBytes (label : String) : List UInt8 :=
  label.toByteArray.data.toList

def streamInfo : StreamType → List UInt8
  | .content => labelBytes "MaxSecu-content-v1"
  | .metadata => labelBytes "MaxSecu-metadata-v1"
  | .thumbnail => labelBytes "MaxSecu-thumbnail-v1"
  | .preview => labelBytes "MaxSecu-preview-v1"

/-- A 256-bit per-file key. -/
structure Dek where
  bytes : Bytes 32
  deriving DecidableEq

namespace Dek

variable [Hkdf]

def commit (dek : Dek) : Bytes 32 :=
  Hkdf.hkdfSha256_32 dek.bytes.toList (labelBytes "MaxSecu-dek-commit-v1")

/-- The subkey a stream's chunks are sealed under. -/
def streamSubkey (dek : Dek) (t : StreamType) : Bytes 32 :=
  Hkdf.hkdfSha256_32 dek.bytes.toList (streamInfo t)

end Dek

/-- What an identity's keys are confirmed by in person. -/
def fingerprint [Sha256] (encPub : X25519Pub) (sigPub : Ed25519Pub) : Bytes 32 :=
  sha256 (encode (⟨encPub, sigPub⟩ : FingerprintInput))

/-- A recipient's X25519 private key. -/
structure EncSecretKey where
  bytes : Bytes 32

/-- An HPKE-wrapped key: the encapsulated public key and the ciphertext. -/
structure WrappedDek where
  enc : Bytes 32
  ct : List UInt8

/-- A recipient's X25519 public key. -/
structure EncPublicKey where
  bytes : Bytes 32
  deriving DecidableEq

/-- What one wrap draws from the random source. -/
structure WrapEntropy where
  hpke : Bytes 32
  ephemeral : Bytes 32
  encaps : Bytes 32

/-- Wrap the key to a recipient, bound to the context. -/
def wrapDek [HpkeSeal] (rand : WrapEntropy) (recipient : EncPublicKey) (dek : Dek)
    (ctx : WrapContext) : Except CryptoError WrappedDek :=
  if ¬ HpkeSeal.validPublicKey recipient.bytes then
    throw .badPublicKey
  else do
    let (enc, ct) ← (HpkeSeal.singleShotSeal rand.hpke recipient.bytes (encode ctx)
      dek.bytes.toList).elim (throw .wrapOpen) pure
    pure ⟨enc, ct⟩

/-- The first 32 bytes as a key, when there are exactly 32. -/
def keyOfLength32 (pt : List UInt8) (e : CryptoError) : Except CryptoError Dek :=
  if h : pt.length = 32 then pure ⟨⟨pt, h⟩⟩ else throw e

/-- Unwrap with the recipient's private key; the context must be the wrap's. -/
def unwrapDek [Hpke] (recipient : EncSecretKey) (wrapped : WrappedDek) (ctx : WrapContext) :
    Except CryptoError Dek :=
  if ¬ Hpke.validPrivateKey recipient.bytes then
    throw .badPublicKey
  else if ¬ Hpke.validEncappedKey wrapped.enc then
    throw .wrapOpen
  else do
    let pt ← (Hpke.singleShotOpen recipient.bytes wrapped.enc (encode ctx) wrapped.ct).elim
      (throw .wrapOpen) pure
    keyOfLength32 pt .badLength

/-! ## The hybrid wrap -/

def X25519_LEN : ℕ := 32

def MLKEM_CT_LEN : ℕ := 1088

/-- The sealed key: 32 bytes and a tag. -/
def AEAD_CT_LEN : ℕ := 48

def HYBRID_WRAP_LEN : ℕ := X25519_LEN + MLKEM_CT_LEN + AEAD_CT_LEN

/-- The all-zero nonce; the wrapping key is used once. -/
def ZERO_NONCE : Bytes 12 := .replicate 12 0

structure HybridEncSecretKey where
  x25519 : Bytes 32
  mlkemSeed : Bytes 64

/-- The X25519 half and the ML-KEM half of a recipient's public key. -/
structure HybridEncPublicKey where
  x25519 : Bytes 32
  mlkem : Bytes MLKEM768_PUB_LEN

structure HybridWrappedDek where
  ephXPub : Bytes 32
  ctPq : List UInt8
  aeadCt : List UInt8

/-- The single-use wrapping key, bound to the context and to both ciphertexts. -/
def deriveKek [Hkdf] (ss1 ss2 : Bytes 32) (ctx : WrapContext) (ephXPub : Bytes 32)
    (ctPq : List UInt8) : Bytes 32 :=
  Hkdf.hkdfSha256_32 (ss1.toList ++ ss2.toList)
    (labelBytes "MaxSecu-hybrid-wrap-v2" ++ encode ctx ++ ephXPub.toList ++ ctPq)

/-- Seal a record that is not chunk-framed. -/
def sealOnce [Aes256GcmSeal] (key : Bytes 32) (nonce : Bytes 12) (aad plaintext : List UInt8) :
    List UInt8 :=
  Aes256GcmSeal.encrypt key nonce aad plaintext

/-- Wrap the key under both legs, bound to the context. -/
def wrapDekHybrid [Hkdf] [Aes256GcmSeal] [X25519] [X25519Base] [MlKem768Encaps]
    (rand : WrapEntropy) (recipient : HybridEncPublicKey) (dek : Dek) (ctx : WrapContext) :
    Except CryptoError HybridWrappedDek :=
  let ephXPub := X25519Base.publicKey rand.ephemeral
  let ss1 := X25519.diffieHellman rand.ephemeral recipient.x25519
  if ¬ MlKem768Encaps.validKey recipient.mlkem then
    throw .badPublicKey
  else
    let (ctPq, ss2) := MlKem768Encaps.encapsulate recipient.mlkem rand.encaps
    let kek := deriveKek ss1 ss2 ctx ephXPub ctPq
    pure
      { ephXPub := ephXPub
        ctPq := ctPq
        aeadCt := sealOnce kek ZERO_NONCE [] dek.bytes.toList }

/-- Open a ciphertext that is not chunk-framed. -/
def openOnce [Aes256Gcm] (key : Bytes 32) (nonce : Bytes 12) (aad ciphertext : List UInt8) :
    Except CryptoError (List UInt8) :=
  (Aes256Gcm.decrypt key nonce aad ciphertext).elim (throw .aead) pure

/-- Unwrap a hybrid wrap.  A wrong leg, context or ciphertext fails at the opening. -/
def unwrapDekHybrid [Hkdf] [Aes256Gcm] [X25519] [MlKem768] (recipient : HybridEncSecretKey)
    (wrapped : HybridWrappedDek) (ctx : WrapContext) : Except CryptoError Dek :=
  if wrapped.ctPq.length ≠ MLKEM_CT_LEN ∨ wrapped.aeadCt.length ≠ AEAD_CT_LEN then
    throw .wrapOpen
  else do
    let ss1 := X25519.diffieHellman recipient.x25519 wrapped.ephXPub
    let ss2 ← (MlKem768.decapsulate recipient.mlkemSeed wrapped.ctPq).elim (throw .wrapOpen) pure
    let kek := deriveKek ss1 ss2 ctx wrapped.ephXPub wrapped.ctPq
    let pt ← (openOnce kek ZERO_NONCE [] wrapped.aeadCt).mapError fun _ => .wrapOpen
    keyOfLength32 pt .wrapOpen

def serializeHybridWrap (w : HybridWrappedDek) : List UInt8 :=
  w.ephXPub.toList ++ w.ctPq ++ w.aeadCt

/-- Parse a hybrid wrap, rejecting any other total length. -/
def deserializeHybridWrap (b : List UInt8) : Except CryptoError HybridWrappedDek :=
  if h : b.length = HYBRID_WRAP_LEN then
    pure
      { ephXPub := ⟨b.take X25519_LEN, by rw [List.length_take, h]; rfl⟩
        ctPq := (b.drop X25519_LEN).take MLKEM_CT_LEN
        aeadCt := b.drop (X25519_LEN + MLKEM_CT_LEN) }
  else
    throw .badLength

/-- Store a hybrid wrap in the two fields of a classical one. -/
def packHybridWrap (h : HybridWrappedDek) : WrappedDek :=
  ⟨h.ephXPub, (serializeHybridWrap h).drop X25519_LEN⟩

/-- Read a hybrid wrap out of the two fields of a classical one. -/
def unpackHybridWrap (w : WrappedDek) : Except CryptoError HybridWrappedDek :=
  deserializeHybridWrap (w.enc.toList ++ w.ct)

end MaxSecu
