import MaxSecu.Client.Keyblob

/-!
# Sealed parts of a backup

A backup is sealed part by part under one key, which is hashed from a passphrase.  Every part begins
with the header of the backup: the parameters and the salt of the hash, and the base of the nonces.
The place of a part and whether it is the last one are bound into its nonce and its associated data.

The session that seals has a lower bound for the passphrase; the one that opens takes its parameters
from a header (`fromPart_sealPart`), and a part opens in its own place (`openPart_sealPart`).
-/

namespace MaxSecu

inductive MxbuError
  /-- Only when sealing. -/
  | passphraseTooShort (chars min : ℕ)
  | corruptPart
  | unsupportedVersion (version : UInt8)
  | belowArgonFloor
  | keyDerivation
  | unauthentic
  deriving DecidableEq

namespace Mxbu

open ExceptRules

def MAGIC : Bytes 4 := ⟨[0x4D, 0x58, 0x42, 0x55], rfl⟩

def VERSION_V1 : UInt8 := 1

def MAX_ARGON_M_KIB : UInt32 := 4 * 1024 * 1024

def MAX_ARGON_T : UInt32 := 64

def MAX_ARGON_P : UInt32 := 16

def MIN_PASSPHRASE_CHARS : ℕ := 12

abbrev Header := Bytes PasswordBlob.HEADER_LEN

def fromCrypto : CryptoError → MxbuError
  | .belowArgonFloor => .belowArgonFloor
  | _ => .keyDerivation

lemma length_header (magic : Bytes 4) (version : UInt8) (params : Argon2Params) (rand : SealEntropy) :
    (PasswordBlob.buildHeader magic version params rand).length = PasswordBlob.HEADER_LEN :=
  PasswordBlob.length_buildHeader

def buildHeader (params : Argon2Params) (rand : SealEntropy) : Header :=
  ⟨PasswordBlob.buildHeader MAGIC VERSION_V1 params rand, length_header _ _ _ _⟩

lemma header_long (header : Header) : 33 + 12 ≤ header.toList.length :=
  header.toList_length.ge

def nonceBase (header : Header) : Bytes 12 :=
  Delegation.slice header.toList 33 12 (header_long header)

lemma salt_within (header : Header) : 17 + 16 ≤ header.toList.length :=
  le_trans (by decide) (header_long header)

def saltOf (header : Header) : Bytes 16 :=
  Delegation.slice header.toList 17 16 (salt_within header)

lemma length_nonce (base : Bytes 12) (partIndex : UInt32) :
    (base.toList.take 8 ++ List.zipWith (· ^^^ ·) (base.toList.drop 8)
      (Writer.u32 partIndex)).length = 12 := by
  rw [List.length_append, List.length_take, List.length_zipWith, List.length_drop,
    base.toList_length, Writer.length_u32]
  rfl

/-- The place of the part is put into the last four bytes of the base. -/
def nonceFor (base : Bytes 12) (partIndex : UInt32) : Bytes 12 :=
  ⟨base.toList.take 8 ++ List.zipWith (· ^^^ ·) (base.toList.drop 8) (Writer.u32 partIndex),
    length_nonce base partIndex⟩

def partAad (header : Header) (partIndex : UInt32) (isLast : Bool) : List UInt8 :=
  header.toList ++ (Writer.u32 partIndex ++ [if isLast then 1 else 0])

structure MxbuSealer where
  header : Header
  key : Bytes 32

structure MxbuOpener where
  header : Header
  key : Bytes 32

def MxbuSealer.new [Argon2id] (passphrase : String) (params : Argon2Params) (rand : SealEntropy) :
    Except MxbuError MxbuSealer :=
  if passphrase.length < MIN_PASSPHRASE_CHARS then
    throw (.passphraseTooShort passphrase.length MIN_PASSPHRASE_CHARS)
  else do
    let key ← (deriveKey (passwordBytes passphrase) rand.salt params).mapError fromCrypto
    pure ⟨buildHeader params rand, key⟩

def MxbuSealer.sealPart [Aes256GcmSeal] (sealer : MxbuSealer) (partIndex : UInt32) (isLast : Bool)
    (plaintext : List UInt8) : List UInt8 :=
  sealer.header.toList ++ Aes256GcmSeal.encrypt sealer.key
    (nonceFor (nonceBase sealer.header) partIndex) (partAad sealer.header partIndex isLast) plaintext

def paramsOf (part : List UInt8) : Argon2Params :=
  let field (start : ℕ) : UInt32 := UInt32.ofNat (BigEndian.ofBytes ((part.drop start).take 4))
  ⟨field 5, field 9, field 13⟩

/-- The header of a part, with its parameters. -/
def parseHeader (part : List UInt8) : Except MxbuError (Header × Argon2Params) :=
  if h : part.length < PasswordBlob.HEADER_LEN + TAG_LEN then throw .corruptPart
  else if part.take 4 ≠ MAGIC.toList then throw .corruptPart
  else if part.getD 4 0 ≠ VERSION_V1 then throw (.unsupportedVersion (part.getD 4 0))
  else if (paramsOf part).mKib > MAX_ARGON_M_KIB ∨ (paramsOf part).t > MAX_ARGON_T ∨
      (paramsOf part).p > MAX_ARGON_P then
    throw .corruptPart
  else pure (Delegation.slice part 0 PasswordBlob.HEADER_LEN (by omega), paramsOf part)

/-- Derive the key of a backup from any of its parts. -/
def MxbuOpener.fromPart [Argon2id] (passphrase : String) (part : List UInt8) :
    Except MxbuError MxbuOpener := do
  let parsed ← parseHeader part
  let key ← (deriveKey (passwordBytes passphrase) (saltOf parsed.1) parsed.2).mapError fromCrypto
  pure ⟨parsed.1, key⟩

def MxbuOpener.openPart [Aes256Gcm] (opener : MxbuOpener) (partIndex : UInt32) (isLast : Bool)
    (part : List UInt8) : Except MxbuError (List UInt8) :=
  if part.length < PasswordBlob.HEADER_LEN + TAG_LEN ∨
      part.take PasswordBlob.HEADER_LEN ≠ opener.header.toList then
    throw .corruptPart
  else
    (Aes256Gcm.decrypt opener.key (nonceFor (nonceBase opener.header) partIndex)
      (partAad opener.header partIndex isLast) (part.drop PasswordBlob.HEADER_LEN)).elim
        (throw .unauthentic) pure

end Mxbu

open Mxbu in
/-- The parameters that a header may name. -/
def Argon2Params.BelowCeiling (params : Argon2Params) : Prop :=
  ¬ (params.mKib > MAX_ARGON_M_KIB ∨ params.t > MAX_ARGON_T ∨ params.p > MAX_ARGON_P)

namespace Mxbu

/-! ## What was sealed opens -/

open ExceptRules

variable [Argon2id] [Aes256Gcm] [Aes256GcmSeal]

def MxbuSealer.opener (sealer : MxbuSealer) : MxbuOpener := ⟨sealer.header, sealer.key⟩

omit [Argon2id] in
lemma length_sealPart (haead : AeadOpens) (sealer : MxbuSealer) (partIndex : UInt32) (isLast : Bool)
    (plaintext : List UInt8) : (sealer.sealPart partIndex isLast plaintext).length =
      PasswordBlob.HEADER_LEN + plaintext.length + TAG_LEN := by
  unfold MxbuSealer.sealPart
  rw [List.length_append, haead.length, sealer.header.toList_length, Nat.add_assoc]

omit [Argon2id] in
lemma openPart_sealPart (haead : AeadOpens) (sealer : MxbuSealer) (partIndex : UInt32) (isLast : Bool)
    (plaintext : List UInt8) :
    sealer.opener.openPart partIndex isLast (sealer.sealPart partIndex isLast plaintext) =
      .ok plaintext := by
  have hlength := length_sealPart haead sealer partIndex isLast plaintext
  have hheader : (sealer.sealPart partIndex isLast plaintext).take PasswordBlob.HEADER_LEN =
      sealer.header.toList := List.take_left' sealer.header.toList_length
  have hbody : (sealer.sealPart partIndex isLast plaintext).drop PasswordBlob.HEADER_LEN =
      Aes256GcmSeal.encrypt sealer.key (nonceFor (nonceBase sealer.header) partIndex)
        (partAad sealer.header partIndex isLast) plaintext :=
    List.drop_left' sealer.header.toList_length
  unfold MxbuOpener.openPart
  rw [if_neg (by
    rintro (hshort | hother)
    · omega
    · exact hother hheader), hbody]
  exact elim_eq_ok.mpr (haead.opens _ _ _ _)

omit [Argon2id] [Aes256Gcm] [Aes256GcmSeal] in
lemma parseHeader_append (params : Argon2Params) (rand : SealEntropy)
    (hparams : params.BelowCeiling) {ct : List UInt8} (hct : TAG_LEN ≤ ct.length) :
    parseHeader ((buildHeader params rand).toList ++ ct) = .ok (buildHeader params rand, params) := by
  have hlist : (buildHeader params rand).toList =
      PasswordBlob.buildHeader MAGIC VERSION_V1 params rand := rfl
  have hlength : ((buildHeader params rand).toList ++ ct).length =
      PasswordBlob.HEADER_LEN + ct.length := by
    rw [List.length_append, (buildHeader params rand).toList_length]
  have hmagic : MAGIC.toList.length = 4 := MAGIC.toList_length
  have hread : paramsOf ((buildHeader params rand).toList ++ ct) = params := by
    obtain ⟨hm, ht, hp⟩ := @PasswordBlob.params_buildHeader MAGIC VERSION_V1 params rand ct
    unfold paramsOf
    dsimp only
    rw [hlist, hm, ht, hp]
  have hheader : ∀ h, Delegation.slice ((buildHeader params rand).toList ++ ct) 0
      PasswordBlob.HEADER_LEN h = buildHeader params rand := by
    intro h
    apply List.Vector.toList_injective
    exact Delegation.toList_slice [] ct rfl rfl (buildHeader params rand).toList_length h
  have hstart : ((buildHeader params rand).toList ++ ct).take 4 = MAGIC.toList := by
    rw [hlist, PasswordBlob.buildHeader_append, List.take_left' hmagic]
  have hversion : ((buildHeader params rand).toList ++ ct).getD 4 0 = VERSION_V1 := by
    rw [hlist, PasswordBlob.buildHeader_append, List.getD_eq_getElem?_getD,
      List.getElem?_append_right (by omega), hmagic]
    rfl
  unfold parseHeader
  rw [dif_neg (by omega), if_neg (not_not.mpr hstart), if_neg (not_not.mpr hversion)]
  rw [hread, if_neg hparams, hheader]
  rfl

omit [Argon2id] [Aes256GcmSeal] [Aes256Gcm] in
lemma saltOf_buildHeader (params : Argon2Params) (rand : SealEntropy) :
    saltOf (buildHeader params rand) = rand.salt := by
  have hfirst := @PasswordBlob.salt_buildHeader MAGIC VERSION_V1 params rand []
  simp only [List.append_nil] at hfirst
  exact hfirst (salt_within (buildHeader params rand))

lemma fromPart_sealPart (haead : AeadOpens) {passphrase : String} {params : Argon2Params}
    {rand : SealEntropy} {sealer : MxbuSealer}
    (hsealer : MxbuSealer.new passphrase params rand = .ok sealer) (hparams : params.BelowCeiling)
    (partIndex : UInt32) (isLast : Bool) (plaintext : List UInt8) :
    MxbuOpener.fromPart passphrase (sealer.sealPart partIndex isLast plaintext) =
      .ok sealer.opener := by
  unfold MxbuSealer.new at hsealer
  rw [guard_eq_ok] at hsealer
  obtain ⟨-, hsealer⟩ := hsealer
  obtain ⟨key, hkey, hsealer⟩ := bind_eq_ok.mp hsealer
  obtain rfl := pure_eq_ok.mp hsealer
  have hct : TAG_LEN ≤ (Aes256GcmSeal.encrypt key
      (nonceFor (nonceBase (buildHeader params rand)) partIndex)
      (partAad (buildHeader params rand) partIndex isLast) plaintext).length := by
    rw [haead.length]
    exact Nat.le_add_left _ _
  unfold MxbuOpener.fromPart MxbuSealer.sealPart
  refine bind_eq_ok.mpr ⟨(buildHeader params rand, params),
    parseHeader_append params rand hparams hct, ?_⟩
  dsimp only
  rw [saltOf_buildHeader]
  exact bind_eq_ok.mpr ⟨key, hkey, rfl⟩

end Mxbu

end MaxSecu
