import MaxSecu.Client.Upload
import MaxSecu.Crypto.Delegation
import MaxSecu.Crypto.KeyPairs

/-!
# Keys sealed under a password

The private keys of an identity, and the seed of the directory key, are kept as blobs: a header with
the parameters and the salt of the password hash and with a nonce, and the secrets sealed under the
hashed password with the header as associated data.  The two kinds of blob differ in their magic.

A blob unlocks to what was sealed in it (`Keyblob.unlock_sealBlob`, `Seedblob.unsealSeed_sealSeed`), and
no shorter piece of it unlocks at all.
-/

namespace MaxSecu

open ExceptRules

structure Argon2Params where
  mKib : UInt32
  t : UInt32
  p : UInt32
  deriving DecidableEq

/-- The password-hashing crate.  It fails on parameters or a password that it does not take. -/
class Argon2id where
  hash : List UInt8 → Bytes 16 → Argon2Params → Option (Bytes 32)

/-- The key generation of the ML-KEM crate. -/
class MlKem768Keygen where
  publicFromSeed : Bytes 64 → Bytes MLKEM768_PUB_LEN

inductive ClientError
  | wrongPassword
  | corruptBlob
  | belowArgonFloor
  | unsupportedBlobVersion (version : UInt8)
  deriving DecidableEq

def ARGON2_FLOOR : Argon2Params := ⟨19 * 1024, 2, 1⟩

def ARGON2_DESKTOP_TARGET : Argon2Params := ⟨256 * 1024, 3, 1⟩

/-- The crate hashes passwords of a length that it takes under the parameters that the app uses. -/
structure ArgonDerives [Argon2id] : Prop where
  derives : ∀ password salt, password.length < 2 ^ 32 →
    (Argon2id.hash password salt ARGON2_DESKTOP_TARGET).isSome = true

def Argon2Params.meetsFloor (params : Argon2Params) : Bool :=
  ARGON2_FLOOR.mKib ≤ params.mKib ∧ ARGON2_FLOOR.t ≤ params.t ∧ 1 ≤ params.p

def deriveKey [Argon2id] (password : List UInt8) (salt : Bytes 16) (params : Argon2Params) :
    Except CryptoError (Bytes 32) :=
  if params.meetsFloor = false then throw .belowArgonFloor
  else (Argon2id.hash password salt params).elim (throw .argon2) pure

structure SealEntropy where
  salt : Bytes 16
  nonce : Bytes 12

def passwordBytes (password : String) : List UInt8 := password.toByteArray.data.toList

/-! ## Sealed secrets -/

namespace PasswordBlob

def HEADER_LEN : ℕ := 4 + 1 + 4 + 4 + 4 + 16 + 12

def buildHeader (magic : Bytes 4) (version : UInt8) (params : Argon2Params)
    (rand : SealEntropy) : List UInt8 :=
  magic.toList ++ (version :: (Writer.u32 params.mKib ++ (Writer.u32 params.t ++
    (Writer.u32 params.p ++ (rand.salt.toList ++ rand.nonce.toList)))))

def sealSecrets [Argon2id] [Aes256GcmSeal] (magic : Bytes 4) (version : UInt8) (password : String)
    (plaintext : List UInt8) (params : Argon2Params) (rand : SealEntropy) :
    Except ClientError (List UInt8) := do
  let pwKey ← (deriveKey (passwordBytes password) rand.salt params).mapError
    fun _ => ClientError.belowArgonFloor
  let header := buildHeader magic version params rand
  pure (header ++ Aes256GcmSeal.encrypt pwKey rand.nonce header plaintext)

lemma sealSecrets_target [Argon2id] [Aes256GcmSeal] (hargon : ArgonDerives) {password : String}
    (hpw : (passwordBytes password).length < 2 ^ 32) (magic : Bytes 4) (version : UInt8)
    (plaintext : List UInt8) (rand : SealEntropy) :
    ∃ blob, sealSecrets magic version password plaintext ARGON2_DESKTOP_TARGET rand =
      .ok blob := by
  obtain ⟨pwKey, hhash⟩ := Option.isSome_iff_exists.mp (hargon.derives _ rand.salt hpw)
  have hkey : deriveKey (passwordBytes password) rand.salt ARGON2_DESKTOP_TARGET = .ok pwKey := by
    unfold deriveKey
    rw [if_neg (by decide), hhash]
    rfl
  unfold sealSecrets
  exact ⟨_, bind_eq_ok.mpr ⟨pwKey, mapError_eq_ok.mpr hkey, rfl⟩⟩

/-- Open a blob whose magic, version and length were checked. -/
def openSecrets [Argon2id] [Aes256Gcm] (password : String) (blob : List UInt8)
    (hlen : HEADER_LEN ≤ blob.length) (plaintextLen : ℕ) : Except ClientError (List UInt8) := do
  have hlen' : 45 ≤ blob.length := hlen
  let field (start : ℕ) : UInt32 := UInt32.ofNat (BigEndian.ofBytes ((blob.drop start).take 4))
  let params : Argon2Params := ⟨field 5, field 9, field 13⟩
  let salt := Delegation.slice blob 17 16 (by omega)
  let nonce := Delegation.slice blob 33 12 (by omega)
  let pwKey ← (deriveKey (passwordBytes password) salt params).mapError
    fun _ => ClientError.belowArgonFloor
  let plaintext ← (Aes256Gcm.decrypt pwKey nonce (blob.take HEADER_LEN)
    (blob.drop HEADER_LEN)).elim (throw .wrongPassword) pure
  if plaintext.length ≠ plaintextLen then throw .corruptBlob else pure plaintext

section RoundTrip

variable [Argon2id] [Aes256Gcm] [Aes256GcmSeal] {magic : Bytes 4} {version : UInt8}
  {password : String} {plaintext blob : List UInt8} {params : Argon2Params} {rand : SealEntropy}

omit [Argon2id] [Aes256Gcm] [Aes256GcmSeal] in
@[simp] lemma length_buildHeader : (buildHeader magic version params rand).length = HEADER_LEN := by
  simp [buildHeader, HEADER_LEN]

omit [Aes256Gcm] in
lemma sealSecrets_eq_ok
    (h : sealSecrets magic version password plaintext params rand = .ok blob) :
    ∃ pwKey, deriveKey (passwordBytes password) rand.salt params = .ok pwKey ∧
      blob = buildHeader magic version params rand ++
        Aes256GcmSeal.encrypt pwKey rand.nonce (buildHeader magic version params rand)
          plaintext := by
  unfold sealSecrets at h
  obtain ⟨pwKey, hkey, hblob⟩ := bind_eq_ok.mp h
  exact ⟨pwKey, mapError_eq_ok.mp hkey, (pure_eq_ok.mp hblob).symm⟩

lemma length_of_sealSecrets (haead : AeadOpens)
    (h : sealSecrets magic version password plaintext params rand = .ok blob) :
    blob.length = HEADER_LEN + plaintext.length + TAG_LEN := by
  obtain ⟨pwKey, -, rfl⟩ := sealSecrets_eq_ok h
  rw [List.length_append, length_buildHeader, haead.length, Nat.add_assoc]

omit [Aes256Gcm] in
lemma prefix_of_sealSecrets
    (h : sealSecrets magic version password plaintext params rand = .ok blob) :
    blob.take 4 = magic.toList ∧ blob[4]? = some version := by
  obtain ⟨pwKey, -, rfl⟩ := sealSecrets_eq_ok h
  have hmagic : magic.toList.length = 4 := magic.toList_length
  unfold buildHeader
  constructor
  · rw [List.append_assoc, List.take_left' hmagic]
  · rw [List.append_assoc, List.getElem?_append_right (by omega), hmagic]
    rfl

omit [Argon2id] [Aes256Gcm] [Aes256GcmSeal] in
lemma field_eq (before after : List UInt8) {v : UInt32} {start : ℕ} (hstart : before.length = start)
    (hblob : blob = before ++ (Writer.u32 v ++ after)) :
    UInt32.ofNat (BigEndian.ofBytes ((blob.drop start).take 4)) = v := by
  rw [hblob, List.drop_left' hstart, List.take_left' (Writer.length_u32 v)]
  unfold Writer.u32
  rw [BigEndian.ofBytes_toBytes_of_lt v.toNat_lt, UInt32.ofNat_toNat]

omit [Argon2id] [Aes256Gcm] [Aes256GcmSeal] in
lemma buildHeader_append (ct : List UInt8) : buildHeader magic version params rand ++ ct =
    magic.toList ++ (version :: (Writer.u32 params.mKib ++ (Writer.u32 params.t ++
      (Writer.u32 params.p ++ (rand.salt.toList ++ (rand.nonce.toList ++ ct)))))) := by
  simp only [buildHeader, List.append_assoc, List.cons_append]

omit [Argon2id] [Aes256Gcm] [Aes256GcmSeal] in
lemma params_buildHeader (ct : List UInt8) :
    UInt32.ofNat (BigEndian.ofBytes
        (((buildHeader magic version params rand ++ ct).drop 5).take 4)) = params.mKib ∧
      UInt32.ofNat (BigEndian.ofBytes
        (((buildHeader magic version params rand ++ ct).drop 9).take 4)) = params.t ∧
      UInt32.ofNat (BigEndian.ofBytes
        (((buildHeader magic version params rand ++ ct).drop 13).take 4)) = params.p := by
  have hmagic : magic.toList.length = 4 := magic.toList_length
  have hbytes := @buildHeader_append magic version params rand ct
  refine ⟨?_, ?_, ?_⟩
  · exact field_eq (magic.toList ++ [version]) _ (by simp [hmagic]) (by
      rw [hbytes, List.append_assoc, List.singleton_append])
  · exact field_eq (magic.toList ++ (version :: Writer.u32 params.mKib)) _ (by simp [hmagic]) (by
      rw [hbytes, List.append_assoc, List.cons_append])
  · exact field_eq (magic.toList ++ (version :: (Writer.u32 params.mKib ++ Writer.u32 params.t))) _
      (by simp [hmagic]) (by
        rw [hbytes, List.append_assoc, List.cons_append, List.append_assoc])

omit [Argon2id] [Aes256Gcm] [Aes256GcmSeal] in
lemma salt_buildHeader (ct : List UInt8)
    (h : 17 + 16 ≤ (buildHeader magic version params rand ++ ct).length) :
    Delegation.slice (buildHeader magic version params rand ++ ct) 17 16 h = rand.salt := by
  have hmagic : magic.toList.length = 4 := magic.toList_length
  apply List.Vector.toList_injective
  refine Delegation.toList_slice (magic.toList ++ (version :: (Writer.u32 params.mKib ++
    (Writer.u32 params.t ++ Writer.u32 params.p)))) (rand.nonce.toList ++ ct) ?_
    (by simp [hmagic]) rand.salt.toList_length _
  rw [buildHeader_append]
  simp only [List.append_assoc, List.cons_append]

omit [Argon2id] [Aes256Gcm] [Aes256GcmSeal] in
lemma nonce_buildHeader (ct : List UInt8)
    (h : 33 + 12 ≤ (buildHeader magic version params rand ++ ct).length) :
    Delegation.slice (buildHeader magic version params rand ++ ct) 33 12 h = rand.nonce := by
  have hmagic : magic.toList.length = 4 := magic.toList_length
  apply List.Vector.toList_injective
  refine Delegation.toList_slice (magic.toList ++ (version :: (Writer.u32 params.mKib ++
    (Writer.u32 params.t ++ (Writer.u32 params.p ++ rand.salt.toList))))) ct ?_
    (by simp [hmagic]) rand.nonce.toList_length _
  rw [buildHeader_append]
  simp only [List.append_assoc, List.cons_append]

lemma openSecrets_sealSecrets (haead : AeadOpens)
    (h : sealSecrets magic version password plaintext params rand = .ok blob)
    (hlen : HEADER_LEN ≤ blob.length) :
    openSecrets password blob hlen plaintext.length = .ok plaintext := by
  obtain ⟨pwKey, hkey, hblob⟩ := sealSecrets_eq_ok h
  generalize hct : Aes256GcmSeal.encrypt pwKey rand.nonce (buildHeader magic version params rand)
    plaintext = ct at hblob
  subst hblob
  obtain ⟨hm, ht, hp⟩ := @params_buildHeader magic version params rand ct
  have hsalt : Delegation.slice (buildHeader magic version params rand ++ ct) 17 16
      (by unfold HEADER_LEN at hlen; omega) = rand.salt := salt_buildHeader ct _
  have hnonce : Delegation.slice (buildHeader magic version params rand ++ ct) 33 12
      (by unfold HEADER_LEN at hlen; omega) = rand.nonce := nonce_buildHeader ct _
  unfold openSecrets
  dsimp only
  rw [hm, ht, hp, hsalt, hnonce, List.take_left' length_buildHeader,
    List.drop_left' length_buildHeader, ← hct]
  refine bind_eq_ok.mpr ⟨pwKey, mapError_eq_ok.mpr hkey, ?_⟩
  refine bind_eq_ok.mpr ⟨plaintext, elim_eq_ok.mpr (haead.opens _ _ _ _), ?_⟩
  rw [if_neg (by simp)]
  rfl

end RoundTrip

end PasswordBlob

/-! ## Identities -/

namespace Keyblob

def MAGIC : Bytes 4 := ⟨[0x4D, 0x58, 0x4B, 0x42], rfl⟩

def VERSION_V1 : UInt8 := 1

def VERSION_V2 : UInt8 := 2

def PLAINTEXT_V1_LEN : ℕ := 32 + 32 + 32

def PLAINTEXT_V2_LEN : ℕ := PLAINTEXT_V1_LEN + 64

def BLOB_V1_LEN : ℕ := PasswordBlob.HEADER_LEN + PLAINTEXT_V1_LEN + TAG_LEN

def BLOB_V2_LEN : ℕ := PasswordBlob.HEADER_LEN + PLAINTEXT_V2_LEN + TAG_LEN

/-- An identity from its secret bytes; the ML-KEM key is derived from its seed. -/
def fromSecretBytes [MlKem768Keygen] (encSk encPk sigSeed : Bytes 32)
    (mlkemSeed : Option (Bytes 64)) : Identity where
  encSk := ⟨encSk⟩
  encPk := ⟨encPk⟩
  sig := ⟨sigSeed⟩
  mlkem := mlkemSeed.map fun seed => ⟨seed, MlKem768Keygen.publicFromSeed seed⟩

/-- The secrets in the order of the blob, and the version they are sealed as. -/
def secrets (identity : Identity) : UInt8 × List UInt8 :=
  let classical := identity.encSk.bytes.toList ++ (identity.encPk.bytes.toList ++
    identity.sig.seed.toList)
  match identity.mlkemSeed with
  | some seed => (VERSION_V2, classical ++ seed.toList)
  | none => (VERSION_V1, classical)

def sealBlob [Argon2id] [Aes256GcmSeal] (password : String) (identity : Identity)
    (params : Argon2Params) (rand : SealEntropy) : Except ClientError (List UInt8) :=
  PasswordBlob.sealSecrets MAGIC (secrets identity).1 password (secrets identity).2 params rand

/-- The lengths of the blob and of its plaintext, by the version. -/
def lengths (version : UInt8) : Except ClientError (ℕ × ℕ) :=
  if version = VERSION_V1 then .ok (BLOB_V1_LEN, PLAINTEXT_V1_LEN)
  else if version = VERSION_V2 then .ok (BLOB_V2_LEN, PLAINTEXT_V2_LEN)
  else .error (.unsupportedBlobVersion version)

def fromPlaintext [MlKem768Keygen] (version : UInt8) (plaintext : List UInt8) :
    Except ClientError Identity :=
  if h : PLAINTEXT_V1_LEN ≤ plaintext.length then
    have h' : 96 ≤ plaintext.length := h
    let encSk := Delegation.slice plaintext 0 32 (by omega)
    let encPk := Delegation.slice plaintext 32 32 (by omega)
    let sigSeed := Delegation.slice plaintext 64 32 (by omega)
    if version = VERSION_V2 then
      if h2 : 160 ≤ plaintext.length then
        .ok (fromSecretBytes encSk encPk sigSeed
          (some (Delegation.slice plaintext 96 64 (by omega))))
      else .error .corruptBlob
    else .ok (fromSecretBytes encSk encPk sigSeed none)
  else .error .corruptBlob

def unlock [Argon2id] [Aes256Gcm] [MlKem768Keygen] (password : String) (blob : List UInt8) :
    Except ClientError Identity :=
  if hlen : PasswordBlob.HEADER_LEN ≤ blob.length then
    if blob.take 4 ≠ MAGIC.toList then throw .corruptBlob
    else do
      let version := blob.getD 4 0
      let lens ← lengths version
      if blob.length ≠ lens.1 then throw .corruptBlob
      else do
        let plaintext ← PasswordBlob.openSecrets password blob hlen lens.2
        fromPlaintext version plaintext
  else .error .corruptBlob

/-- The ML-KEM key of the identity is the one of its seed. -/
def WellFormed [MlKem768Keygen] (identity : Identity) : Prop :=
  ∀ keys, identity.mlkem = some keys → keys.publicKey = MlKem768Keygen.publicFromSeed keys.seed

section RoundTrip

variable [Argon2id] [Aes256Gcm] [Aes256GcmSeal] [MlKem768Keygen] {password : String}
  {identity : Identity} {params : Argon2Params} {rand : SealEntropy} {blob : List UInt8}

omit [Argon2id] [Aes256Gcm] [Aes256GcmSeal] [MlKem768Keygen] in
lemma lengths_secrets (identity : Identity) : lengths (secrets identity).1 =
    .ok (PasswordBlob.HEADER_LEN + (secrets identity).2.length + TAG_LEN,
      (secrets identity).2.length) := by
  unfold secrets
  cases identity.mlkemSeed with
  | none =>
    simp [lengths, BLOB_V1_LEN, PLAINTEXT_V1_LEN]
  | some seed =>
    simp [lengths, BLOB_V2_LEN, PLAINTEXT_V2_LEN, PLAINTEXT_V1_LEN, VERSION_V2, VERSION_V1]

omit [Argon2id] [Aes256Gcm] [Aes256GcmSeal] in
lemma fromPlaintext_secrets (hidentity : WellFormed identity) :
    fromPlaintext (secrets identity).1 (secrets identity).2 = .ok identity := by
  obtain ⟨⟨encSk⟩, ⟨encPk⟩, ⟨sigSeed⟩, mlkem⟩ := identity
  have hsk : encSk.toList.length = 32 := encSk.toList_length
  have hpk : encPk.toList.length = 32 := encPk.toList_length
  have hsig : sigSeed.toList.length = 32 := sigSeed.toList_length
  cases mlkem with
  | none =>
    have hlen : (encSk.toList ++ (encPk.toList ++ sigSeed.toList)).length = 96 := by
      simp
    show fromPlaintext VERSION_V1 (encSk.toList ++ (encPk.toList ++ sigSeed.toList)) = _
    unfold fromPlaintext
    rw [dif_pos (by rw [hlen]; decide), if_neg (by decide)]
    have hsk' : Delegation.slice (encSk.toList ++ (encPk.toList ++ sigSeed.toList)) 0 32
        (by omega) = encSk :=
      List.Vector.toList_injective (Delegation.toList_slice [] _ rfl rfl hsk _)
    have hpk' : Delegation.slice (encSk.toList ++ (encPk.toList ++ sigSeed.toList)) 32 32
        (by omega) = encPk :=
      List.Vector.toList_injective (Delegation.toList_slice encSk.toList _ rfl hsk hpk _)
    have hsig' : Delegation.slice (encSk.toList ++ (encPk.toList ++ sigSeed.toList)) 64 32
        (by omega) = sigSeed :=
      List.Vector.toList_injective (Delegation.toList_slice (encSk.toList ++ encPk.toList) []
        (by simp) (by simp) hsig _)
    simp only [hsk', hpk', hsig']
    rfl
  | some keys =>
    obtain ⟨seed, publicKey⟩ := keys
    obtain rfl : publicKey = MlKem768Keygen.publicFromSeed seed := hidentity _ rfl
    have hseed : seed.toList.length = 64 := seed.toList_length
    let plaintext := (encSk.toList ++ (encPk.toList ++ sigSeed.toList)) ++ seed.toList
    have hlen : plaintext.length = 160 := by
      simp [plaintext]
    show fromPlaintext VERSION_V2 plaintext = _
    unfold fromPlaintext
    have h96 : PLAINTEXT_V1_LEN ≤ plaintext.length := by
      rw [hlen]
      decide
    rw [dif_pos h96, if_pos rfl, dif_pos (by omega)]
    have hsk' : Delegation.slice plaintext 0 32 (by omega) = encSk :=
      List.Vector.toList_injective (Delegation.toList_slice []
        (encPk.toList ++ (sigSeed.toList ++ seed.toList)) (by simp [plaintext]) rfl hsk _)
    have hpk' : Delegation.slice plaintext 32 32 (by omega) = encPk :=
      List.Vector.toList_injective (Delegation.toList_slice encSk.toList
        (sigSeed.toList ++ seed.toList) (by simp [plaintext]) hsk hpk _)
    have hsig' : Delegation.slice plaintext 64 32 (by omega) = sigSeed :=
      List.Vector.toList_injective (Delegation.toList_slice (encSk.toList ++ encPk.toList)
        seed.toList (by simp [plaintext]) (by simp) hsig _)
    have hseed' : Delegation.slice plaintext 96 64 (by omega) = seed :=
      List.Vector.toList_injective (Delegation.toList_slice
        (encSk.toList ++ (encPk.toList ++ sigSeed.toList)) [] (by simp [plaintext]) (by simp)
        hseed _)
    simp only [hsk', hpk', hsig', hseed']
    rfl

omit [MlKem768Keygen] in
lemma sealBlob_shape (haead : AeadOpens) (h : sealBlob password identity params rand = .ok blob) :
    blob.take 4 = MAGIC.toList ∧ blob.getD 4 0 = (secrets identity).1 ∧
      blob.length = PasswordBlob.HEADER_LEN + (secrets identity).2.length + TAG_LEN := by
  obtain ⟨hmagic, hversion⟩ := PasswordBlob.prefix_of_sealSecrets h
  refine ⟨hmagic, ?_, PasswordBlob.length_of_sealSecrets haead h⟩
  rw [List.getD_eq_getElem?_getD, hversion]
  rfl

theorem unlock_sealBlob (haead : AeadOpens) (hidentity : WellFormed identity)
    (h : sealBlob password identity params rand = .ok blob) :
    unlock password blob = .ok identity := by
  obtain ⟨hmagic, hversion, hlength⟩ := sealBlob_shape haead h
  have hlen : PasswordBlob.HEADER_LEN ≤ blob.length := by omega
  unfold unlock
  rw [dif_pos hlen, if_neg (not_not.mpr hmagic)]
  dsimp only
  rw [hversion]
  refine bind_eq_ok.mpr ⟨_, lengths_secrets identity, ?_⟩
  dsimp only
  rw [if_neg (not_not.mpr hlength)]
  exact bind_eq_ok.mpr ⟨_, PasswordBlob.openSecrets_sealSecrets haead h hlen,
    fromPlaintext_secrets hidentity⟩

omit [Argon2id] [Aes256Gcm] [Aes256GcmSeal] in
lemma wellFormed_fromSecretBytes (encSk encPk sigSeed : Bytes 32) (seed : Option (Bytes 64)) :
    WellFormed (fromSecretBytes encSk encPk sigSeed seed) := by
  intro keys hkeys
  obtain ⟨seed', -, rfl⟩ := Option.map_eq_some_iff.mp hkeys
  rfl

omit [Aes256GcmSeal] in
lemma wellFormed_of_unlock (h : unlock password blob = .ok identity) : WellFormed identity := by
  unfold unlock at h
  split at h
  · split at h
    · exact absurd h (by simp [throw, throwThe, MonadExceptOf.throw])
    · obtain ⟨lens, -, h⟩ := bind_eq_ok.mp h
      obtain ⟨-, h⟩ := guard_eq_ok.mp h
      obtain ⟨plaintext, -, h⟩ := bind_eq_ok.mp h
      unfold fromPlaintext at h
      split at h
      · dsimp only at h
        split at h
        · split at h
          · obtain rfl := Except.ok.inj h
            exact wellFormed_fromSecretBytes _ _ _ _
          · exact absurd h (by simp)
        · obtain rfl := Except.ok.inj h
          exact wellFormed_fromSecretBytes _ _ _ _
      · exact absurd h (by simp)
  · exact absurd h (by simp)

def blobLength (identity : Identity) : ℕ :=
  PasswordBlob.HEADER_LEN + (secrets identity).2.length + TAG_LEN

/-- A piece of a sealed blob unlocks under no password. -/
theorem unlock_take (haead : AeadOpens) (h : sealBlob password identity params rand = .ok blob)
    {n : ℕ} (hn : n < blob.length) (password' : String) :
    unlock password' (blob.take n) = .error .corruptBlob := by
  obtain ⟨hmagic, hversion, hlength⟩ := sealBlob_shape haead h
  have hshort : (blob.take n).length = n := List.length_take_of_le hn.le
  unfold unlock
  by_cases hlen : PasswordBlob.HEADER_LEN ≤ (blob.take n).length
  · have hn' : 45 ≤ n := by
      rw [hshort] at hlen
      exact hlen
    have hmagic' : (blob.take n).take 4 = MAGIC.toList := by
      rw [List.take_take, min_eq_left (by omega), hmagic]
    have hversion' : (blob.take n).getD 4 0 = (secrets identity).1 := by
      rw [← hversion, List.getD_eq_getElem?_getD, List.getD_eq_getElem?_getD,
        List.getElem?_take_of_lt (by omega)]
    rw [dif_pos hlen, if_neg (not_not.mpr hmagic')]
    dsimp only
    rw [hversion', lengths_secrets]
    show (if (blob.take n).length ≠ _ then _ else _) = _
    rw [if_pos (by rw [hshort]; omega)]
    rfl
  · rw [dif_neg hlen]

end RoundTrip

end Keyblob

/-! ## Seeds of the directory key -/

namespace Seedblob

def MAGIC : Bytes 4 := ⟨[0x4D, 0x58, 0x44, 0x35], rfl⟩

def VERSION_V1 : UInt8 := 1

def SEED_LEN : ℕ := 32

def SEEDBLOB_V1_LEN : ℕ := PasswordBlob.HEADER_LEN + SEED_LEN + TAG_LEN

def sealSeed [Argon2id] [Aes256GcmSeal] (password : String) (seed : Bytes 32)
    (params : Argon2Params) (rand : SealEntropy) : Except ClientError (List UInt8) :=
  PasswordBlob.sealSecrets MAGIC VERSION_V1 password seed.toList params rand

/-- Open a sealed seed; its length is checked before all else. -/
def unsealSeed [Argon2id] [Aes256Gcm] (password : String) (blob : List UInt8) :
    Except ClientError (Bytes 32) :=
  if hlen : blob.length = SEEDBLOB_V1_LEN then
    if blob.take 4 ≠ MAGIC.toList then throw .corruptBlob
    else if blob.getD 4 0 ≠ VERSION_V1 then throw (.unsupportedBlobVersion (blob.getD 4 0))
    else do
      let plaintext ← PasswordBlob.openSecrets password blob
        (by rw [hlen]; unfold SEEDBLOB_V1_LEN; omega) SEED_LEN
      if h : plaintext.length = 32 then pure ⟨plaintext, h⟩ else throw .corruptBlob
  else throw .corruptBlob

variable [Argon2id] [Aes256Gcm] [Aes256GcmSeal] {password : String} {seed : Bytes 32}
  {params : Argon2Params} {rand : SealEntropy} {blob : List UInt8}

theorem unsealSeed_sealSeed (haead : AeadOpens)
    (h : sealSeed password seed params rand = .ok blob) :
    unsealSeed password blob = .ok seed := by
  obtain ⟨hmagic, hversion⟩ := PasswordBlob.prefix_of_sealSecrets h
  have hversion' : blob.getD 4 0 = VERSION_V1 := by
    rw [List.getD_eq_getElem?_getD, hversion]
    rfl
  have hlength : blob.length = SEEDBLOB_V1_LEN := by
    rw [PasswordBlob.length_of_sealSecrets haead h, seed.toList_length]
    rfl
  have hopen := PasswordBlob.openSecrets_sealSecrets haead h
    (by rw [hlength]; unfold SEEDBLOB_V1_LEN; omega)
  rw [seed.toList_length] at hopen
  unfold unsealSeed
  rw [dif_pos hlength, if_neg (not_not.mpr hmagic), if_neg (not_not.mpr hversion')]
  refine bind_eq_ok.mpr ⟨seed.toList, hopen, ?_⟩
  rw [dif_pos seed.toList_length]
  rfl

end Seedblob

/-! ## Closed runs -/

abbrev constantArgon2id : Argon2id := ⟨fun _ _ _ => some (.replicate 32 6)⟩

abbrev constantMlKem768Keygen : MlKem768Keygen := ⟨fun _ => .replicate MLKEM768_PUB_LEN 0⟩

namespace ClosedRuns

scoped instance : Argon2id := constantArgon2id
scoped instance : MlKem768Keygen := constantMlKem768Keygen

lemma argonDerives : ArgonDerives := ⟨fun _ _ _ => rfl⟩

end ClosedRuns

end MaxSecu
