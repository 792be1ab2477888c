import MaxSecu.Crypto.Sealing
import MaxSecu.Client.Download

/-!
# Building a version's records

The parts of an upload that a rotation shares: sealing the plaintext streams, and wrapping the key
to one recipient beside a grant that the author signs.  What the wraps draw from the random source
is an argument.
-/

namespace MaxSecu

open ExceptRules

/-- The ML-KEM half of an identity: the seed and the public key derived from it. -/
structure MlKemKeypair where
  seed : Bytes 64
  publicKey : Bytes MLKEM768_PUB_LEN

/-- An unlocked identity.  One that predates the post-quantum enrolment has no ML-KEM half. -/
structure Identity where
  encSk : EncSecretKey
  encPk : EncPublicKey
  sig : SigningKey
  mlkem : Option MlKemKeypair

namespace Identity

def encPubBytes (identity : Identity) : Bytes 32 := identity.encPk.bytes

def mlkemPubBytes (identity : Identity) : Option (Bytes MLKEM768_PUB_LEN) :=
  identity.mlkem.map (·.publicKey)

def mlkemSeed (identity : Identity) : Option (Bytes 64) := identity.mlkem.map (·.seed)

end Identity

inductive UploadError
  | chunkSizeOutOfRange (chunkSize : UInt32)
  | crypto (e : CryptoError)
  | wrapSelfCheckFailed
  deriving DecidableEq

/-- The streams to seal; only the content is always there. -/
structure PlaintextStreams where
  content : List UInt8
  metadata : Option (List UInt8)
  thumbnail : Option (List UInt8)
  preview : Option (List UInt8)

structure SealedStreamOut where
  streamType : StreamType
  compression : Compression
  chunkSize : UInt32
  chunkCount : UInt64
  digest : Bytes 32
  totalBytes : UInt64
  chunks : List (List UInt8)

/-- A recipient's wrap and its grant. -/
structure WrapOut where
  recipientId : Id
  recipientType : RecipientType
  wrappedDek : WrappedDek
  grantedBy : Id
  grant : Grant
  grantSig : Bytes 64

section Streams

variable [Sha256] [Hkdf] [Aes256GcmSeal]

/-- Seal one stream: its manifest entry and what is uploaded. -/
def sealInput (dek : Dek) (fileId : Id) (version : UInt64) (chunkSize : UInt32)
    (input : StreamType × List UInt8) : Stream × SealedStreamOut :=
  let st := input.1
  let sealed := sealStream (dek.streamSubkey st) fileId version st chunkSize.toNat input.2
  ({ streamType := st
     compression := .none
     chunkCount := sealed.chunkCount
     digest := ⟨sealed.digest⟩ },
   { streamType := st
     compression := .none
     chunkSize := chunkSize
     chunkCount := sealed.chunkCount
     digest := sealed.digest
     totalBytes := sealed.chunks.foldl (fun total c => total + UInt64.ofNat c.length) 0
     chunks := sealed.chunks })

def sealInputs (dek : Dek) (fileId : Id) (version : UInt64) (chunkSize : UInt32)
    (inputs : List (StreamType × List UInt8)) : List Stream × List SealedStreamOut :=
  (inputs.map (sealInput dek fileId version chunkSize)).unzip

/-- Seal the streams that are there, the content first. -/
def sealStreams (dek : Dek) (fileId : Id) (version : UInt64) (chunkSize : UInt32)
    (streams : PlaintextStreams) : List Stream × List SealedStreamOut :=
  sealInputs dek fileId version chunkSize
    ((.content, streams.content) ::
      (streams.metadata.map (StreamType.metadata, ·)).toList ++
      (streams.thumbnail.map (StreamType.thumbnail, ·)).toList ++
      (streams.preview.map (StreamType.preview, ·)).toList)

end Streams

section Wraps

variable [Ed25519] [Hkdf]

/-- A wrap of the version's key to one recipient, with everything its grant binds. -/
structure WrapRequest where
  fileId : Id
  version : UInt64
  recipientId : Id
  recipientType : RecipientType
  dek : Dek
  dekCommit : Bytes 32
  grantedBy : Id
  createdAt : Timestamp

namespace WrapRequest

variable (req : WrapRequest)

def context : WrapContext := ⟨req.fileId, req.version, req.recipientId⟩

/-- The grant that binds the recipient, the version and the key commitment. -/
def grant : Grant :=
  { fileId := req.fileId
    fileVersion := req.version
    recipientId := req.recipientId
    recipientType := req.recipientType
    dekCommit := ⟨req.dekCommit⟩
    grantedBy := req.grantedBy
    createdAt := req.createdAt }

end WrapRequest

def buildGrant (signer : SigningKey) (req : WrapRequest) : Grant × Bytes 64 :=
  (req.grant, signer.signCanonical Label.grant.text req.grant)

def wrapOut (signer : SigningKey) (req : WrapRequest) (wrappedDek : WrappedDek) : WrapOut :=
  let (grant, grantSig) := buildGrant signer req
  { recipientId := req.recipientId
    recipientType := req.recipientType
    wrappedDek := wrappedDek
    grantedBy := req.grantedBy
    grant := grant
    grantSig := grantSig }

/-- Wrap classically and grant.  A wrap to oneself is opened again before it is used. -/
def wrapAndGrant [Hpke] [HpkeSeal] (rand : WrapEntropy) (signer : SigningKey) (req : WrapRequest)
    (recipientPub : EncPublicKey) (selfSecret : Option EncSecretKey) :
    Except UploadError WrapOut := do
  let wrappedDek ← (wrapDek rand recipientPub req.dek req.context).mapError .crypto
  match selfSecret with
  | none => pure (wrapOut signer req wrappedDek)
  | some sk =>
    let reopened ← (unwrapDek sk wrappedDek req.context).mapError .crypto
    if reopened.commit ≠ req.dekCommit then
      throw .wrapSelfCheckFailed
    else
      pure (wrapOut signer req wrappedDek)

def wrapAndGrantHybrid [Aes256Gcm] [Aes256GcmSeal] [X25519] [X25519Base] [MlKem768]
    [MlKem768Encaps] (rand : WrapEntropy) (signer : SigningKey) (req : WrapRequest)
    (recipientPub : HybridEncPublicKey) (selfSecret : Option HybridEncSecretKey) :
    Except UploadError WrapOut := do
  let hybrid ← (wrapDekHybrid rand recipientPub req.dek req.context).mapError .crypto
  match selfSecret with
  | none => pure (wrapOut signer req (packHybridWrap hybrid))
  | some sk =>
    let reopened ← (unwrapDekHybrid sk hybrid req.context).mapError .crypto
    if reopened.commit ≠ req.dekCommit then
      throw .wrapSelfCheckFailed
    else
      pure (wrapOut signer req (packHybridWrap hybrid))

/-- A wrap is for the requested recipient, and its grant is the requested one under the signer's
signature. -/
structure WrapOut.Answers (w : WrapOut) (signer : SigningKey) (req : WrapRequest) : Prop where
  recipientId : w.recipientId = req.recipientId
  grant : w.grant = req.grant
  grantSig : w.grantSig = signer.signCanonical Label.grant.text req.grant

omit [Hkdf] in
lemma wrapOut_answers {signer : SigningKey} {req : WrapRequest} {wrappedDek : WrappedDek} :
    (wrapOut signer req wrappedDek).Answers signer req :=
  ⟨rfl, rfl, rfl⟩

lemma wrapAndGrant_answers [Hpke] [HpkeSeal] {rand : WrapEntropy} {signer : SigningKey}
    {req : WrapRequest} {recipientPub : EncPublicKey} {selfSecret : Option EncSecretKey}
    {w : WrapOut} (h : wrapAndGrant rand signer req recipientPub selfSecret = .ok w) :
    w.Answers signer req := by
  unfold wrapAndGrant at h
  obtain ⟨wrappedDek, -, h⟩ := bind_eq_ok.mp h
  cases selfSecret with
  | none =>
    obtain rfl := pure_eq_ok.mp h
    exact wrapOut_answers
  | some sk =>
    obtain ⟨reopened, -, h⟩ := bind_eq_ok.mp h
    obtain rfl := pure_eq_ok.mp (guard_eq_ok.mp h).2
    exact wrapOut_answers

lemma wrapAndGrantHybrid_answers [Aes256Gcm] [Aes256GcmSeal] [X25519] [X25519Base] [MlKem768]
    [MlKem768Encaps] {rand : WrapEntropy} {signer : SigningKey} {req : WrapRequest}
    {recipientPub : HybridEncPublicKey} {selfSecret : Option HybridEncSecretKey} {w : WrapOut}
    (h : wrapAndGrantHybrid rand signer req recipientPub selfSecret = .ok w) :
    w.Answers signer req := by
  unfold wrapAndGrantHybrid at h
  obtain ⟨hybrid, -, h⟩ := bind_eq_ok.mp h
  cases selfSecret with
  | none =>
    obtain rfl := pure_eq_ok.mp h
    exact wrapOut_answers
  | some sk =>
    obtain ⟨reopened, -, h⟩ := bind_eq_ok.mp h
    obtain rfl := pure_eq_ok.mp (guard_eq_ok.mp h).2
    exact wrapOut_answers

omit [Hkdf] in
lemma answers_recipients {signer : SigningKey} {requests : List WrapRequest} {wraps : List WrapOut}
    (h : List.Forall₂ (fun req w => w.Answers signer req) requests wraps) :
    wraps.map (·.recipientId) = requests.map (·.recipientId) := by
  induction h with
  | nil => rfl
  | cons hanswer _ ih => rw [List.map_cons, List.map_cons, hanswer.recipientId, ih]

omit [Hkdf] in
lemma exists_answered {signer : SigningKey} {requests : List WrapRequest} {wraps : List WrapOut}
    (h : List.Forall₂ (fun req w => w.Answers signer req) requests wraps) {w : WrapOut}
    (hw : w ∈ wraps) : ∃ req ∈ requests, w.Answers signer req := by
  induction h with
  | nil => cases hw
  | cons hanswer _ ih =>
    rcases List.mem_cons.mp hw with rfl | hw
    · exact ⟨_, List.mem_cons_self .., hanswer⟩
    · obtain ⟨req, hreq, hanswer⟩ := ih hw
      exact ⟨req, List.mem_cons_of_mem _ hreq, hanswer⟩

end Wraps

end MaxSecu
