import MaxSecu.Encoding.SigningInput

/-!
# Third-party primitives

The cryptographic crates the program calls, as parameters: a class holds the functions and nothing
about their strength.  A result that needs a property of a primitive names it as a hypothesis.
-/

namespace MaxSecu

inductive CryptoError
  | aead
  | wrapOpen
  | signature
  | badPublicKey
  | dekCommitMismatch
  | framing (why : String)
  | belowArgonFloor
  | argon2
  | badLength
  | delegationExpired
  deriving DecidableEq, Repr

/-- The hash crate. -/
class Sha256 where
  sha256 : List UInt8 → Bytes 32

export Sha256 (sha256)

/-- The signature crate: which 32 bytes are a key, strict verification, and signing from a seed. -/
class Ed25519 where
  validKey : Bytes 32 → Bool
  verifyStrict : Bytes 32 → List UInt8 → Bytes 64 → Bool
  publicKey : Bytes 32 → Bytes 32
  sign : Bytes 32 → List UInt8 → Bytes 64

/-- The AEAD crate: open a ciphertext under a key, a nonce and associated data. -/
class Aes256Gcm where
  decrypt : Bytes 32 → Bytes 12 → List UInt8 → List UInt8 → Option (List UInt8)

/-- The sealing half of the AEAD crate, on a message within the cipher's length limit. -/
class Aes256GcmSeal where
  encrypt : Bytes 32 → Bytes 12 → List UInt8 → List UInt8 → List UInt8

/-- The key-derivation crate, with an empty salt and a 32-byte output: input key, then `info`. -/
class Hkdf where
  hkdfSha256_32 : List UInt8 → List UInt8 → Bytes 32

/-- The HPKE crate: which bytes are a private and an encapsulated key, and base-mode opening of a
ciphertext bound to `info`. -/
class Hpke where
  validPrivateKey : Bytes 32 → Bool
  validEncappedKey : Bytes 32 → Bool
  singleShotOpen : Bytes 32 → Bytes 32 → List UInt8 → List UInt8 → Option (List UInt8)

/-- The sealing half of the HPKE crate: which bytes are a public key, and base-mode sealing of a
message bound to `info`.  The first argument is the randomness it draws. -/
class HpkeSeal where
  validPublicKey : Bytes 32 → Bool
  singleShotSeal : Bytes 32 → Bytes 32 → List UInt8 → List UInt8 → Option (Bytes 32 × List UInt8)

/-- The X25519 crate: a secret and a public key give the shared secret. -/
class X25519 where
  diffieHellman : Bytes 32 → Bytes 32 → Bytes 32

/-- The public key of an X25519 secret. -/
class X25519Base where
  publicKey : Bytes 32 → Bytes 32

/-- The ML-KEM-768 crate: a seed and a ciphertext give the shared secret. -/
class MlKem768 where
  decapsulate : Bytes 64 → List UInt8 → Option (Bytes 32)

/-- The sealing half of the ML-KEM-768 crate: which bytes are a public key, and encapsulation to it,
from the randomness it draws. -/
class MlKem768Encaps where
  validKey : Bytes MLKEM768_PUB_LEN → Bool
  encapsulate : Bytes MLKEM768_PUB_LEN → Bytes 32 → List UInt8 × Bytes 32

section Signatures

variable [Ed25519]

/-- A public key that passed the point check. -/
structure VerifyingKey where
  bytes : Bytes 32
  valid : Ed25519.validKey bytes = true

def VerifyingKey.fromBytes (b : Bytes 32) : Except CryptoError VerifyingKey :=
  if h : Ed25519.validKey b = true then .ok ⟨b, h⟩ else .error .badPublicKey

/-- Strictly verify a raw-message signature. -/
def VerifyingKey.verifyRaw (vk : VerifyingKey) (msg : List UInt8) (sig : Bytes 64) :
    Except CryptoError Unit :=
  if Ed25519.verifyStrict vk.bytes msg sig then .ok () else .error .signature

/-- Strictly verify the signature of a structure under its label. -/
def VerifyingKey.verifyCanonical {T : Type} [Canonical T] (vk : VerifyingKey) (label : String)
    (v : T) (sig : Bytes 64) : Except CryptoError Unit :=
  vk.verifyRaw (signingMessage label v) sig

lemma VerifyingKey.verifyCanonical_eq_ok {T : Type} [Canonical T] {pk : Bytes 32} {label : String}
    {v : T} {sig : Bytes 64} :
    (VerifyingKey.fromBytes pk >>= fun vk => vk.verifyCanonical label v sig) = .ok () ↔
      Ed25519.validKey pk = true ∧ Ed25519.verifyStrict pk (signingMessage label v) sig = true := by
  unfold VerifyingKey.fromBytes
  by_cases hvalid : Ed25519.validKey pk = true
  · rw [dif_pos hvalid]
    simp [bind, Except.bind, verifyCanonical, verifyRaw, hvalid]
  · rw [dif_neg hvalid]
    simp [bind, Except.bind, hvalid]

/-- Does any pinned key verify the signature?  With no key pinned nothing does. -/
def anyKeyVerifies (pubs : List (Bytes 32)) (msg : List UInt8) (sig : Bytes 64) : Bool :=
  pubs.any fun pk =>
    match (do let vk ← VerifyingKey.fromBytes pk; vk.verifyRaw msg sig) with
    | .ok _ => true
    | .error _ => false

/-- A signing key, held as its seed. -/
structure SigningKey where
  seed : Bytes 32

def SigningKey.signRaw (key : SigningKey) (msg : List UInt8) : Bytes 64 :=
  Ed25519.sign key.seed msg

def SigningKey.signCanonical {T : Type} [Canonical T] (key : SigningKey) (label : String) (v : T) :
    Bytes 64 :=
  key.signRaw (signingMessage label v)

end Signatures

/-! ## Instances for closed runs -/

/-- A signature scheme under which everything verifies, so that every signer is the adversary. -/
abbrev acceptingEd25519 : Ed25519 where
  validKey _ := true
  verifyStrict _ _ _ := true
  publicKey seed := seed
  sign _ _ := List.Vector.replicate 64 0

/-- A hash that keeps the last 31 bytes of its input and is never zero. -/
abbrev tailSha256 : Sha256 where
  sha256 b := ⟨1 :: (b.reverse ++ List.replicate 31 0).take 31, by simp⟩

/-- A hash, a key derivation and a key encapsulation with one output, and an AEAD that strips the
tag. -/
abbrev constantSha256 : Sha256 := ⟨fun _ => .replicate 32 1⟩

abbrev constantHkdf : Hkdf := ⟨fun _ _ => .replicate 32 2⟩

abbrev tagStrippingAead : Aes256Gcm where
  decrypt _ _ _ ct := if 16 ≤ ct.length then some (ct.take (ct.length - 16)) else none

abbrev tagStrippingHpke : Hpke where
  validPrivateKey _ := true
  validEncappedKey _ := true
  singleShotOpen _ _ _ ct := some (ct.take 32)

/-- A wrap that shows what it wraps. -/
abbrev showingHpkeSeal : HpkeSeal where
  validPublicKey _ := true
  singleShotSeal _ _ _ pt := some (.replicate 32 0, pt)

abbrev constantX25519 : X25519 := ⟨fun _ _ => .replicate 32 3⟩

abbrev constantMlKem768 : MlKem768 := ⟨fun _ _ => some (.replicate 32 4)⟩

/-- Sealing that appends a tag of zeros. -/
abbrev tagAppendingAeadSeal : Aes256GcmSeal where
  encrypt _ _ _ pt := pt ++ List.replicate 16 0

abbrev constantX25519Base : X25519Base := ⟨fun _ => .replicate 32 5⟩

abbrev constantMlKem768Encaps : MlKem768Encaps where
  validKey _ := true
  encapsulate _ _ := (List.replicate 1088 0, .replicate 32 4)

namespace ClosedRuns

scoped instance : UnicodeNormalization := asciiNormalization
scoped instance : Sha256 := tailSha256
scoped instance : Ed25519 := acceptingEd25519
scoped instance : Hkdf := constantHkdf
scoped instance : Aes256GcmSeal := tagAppendingAeadSeal
scoped instance : HpkeSeal := showingHpkeSeal
scoped instance : X25519 := constantX25519
scoped instance : X25519Base := constantX25519Base
scoped instance : MlKem768Encaps := constantMlKem768Encaps

end ClosedRuns

end MaxSecu
