import Mathlib.Logic.Function.Basic
import MaxSecu.Crypto.Dek
import MaxSecu.Client.Revocation

/-!
# Verifying and opening a downloaded file version

`verifyHeader` checks the signed records of a version in a fixed order and unwraps its key.  Four
openers run it and then treat the declared streams in their own way: `verifyAndOpen` opens all of
them whole, `verifyAndStreamContent` opens the small ones whole and streams the content,
`verifyAndOpenHeaders` stops after the small ones, and `openContentDecryptor` opens none.
-/

namespace MaxSecu

open ExceptRules

/-! ## Limits -/

def CHUNK_SIZE_MIN : UInt32 := 4 * 1024

def CHUNK_SIZE_MAX : UInt32 := 8 * 1024 * 1024

/-- Cap on the framing fields: 256 GiB. -/
def MAX_ADDRESSABLE_BYTES : UInt64 := 256 * 1024 * 1024 * 1024

/-- Ceiling on the version of a file seen for the first time. -/
def FIRST_CONTACT_VERSION_CEILING : UInt64 := 1000000

/-- Cap on the depth of a re-share chain. -/
def MAX_GRANT_CHAIN_DEPTH : ℕ := 32

inductive DownloadError
  | badManifest
  | badGenesis
  | badGrant
  | manifestSignature
  | genesisSignature
  | grantSignature
  | authorNotOwner
  | fileIdMismatch
  | versionRollback (seenMax served : UInt64)
  | versionTooHigh (seenMax served : UInt64)
  | firstContactCeiling (served : UInt64)
  | versionForked (version : UInt64)
  | grantMismatch (field : String)
  | grantChainBroken
  | grantChainTooDeep
  | grantChainCycle
  | granterKeyUnknown
  | dekUnwrap
  | pqKeyMissing
  | dekCommitMismatch
  | streamMissing (t : StreamType)
  | streamFraming (t : StreamType)
  | streamDigestMismatch (t : StreamType)
  | framingBoundsExceeded (why : String)
  | compressionUnsupported
  | authorRevoked
  | recipientRevoked
  | genesisAfterCompromise
  /-- Not an error value: the addition `seen + 1` overflowed, which stops the program. -/
  | versionOverflow
  deriving DecidableEq

/-! ## What is served, and what the caller has resolved -/

/-- One stream's ciphertext chunks in order. -/
structure StreamChunks where
  streamType : StreamType
  chunks : List (List UInt8)

/-- The signed records of one file version and the caller's wrapped key. -/
structure VersionRecords where
  manifestBytes : List UInt8
  manifestSig : Bytes 64
  genesisBytes : List UInt8
  genesisSig : Bytes 64
  wrappedDek : WrappedDek
  grantBytes : List UInt8
  grantSig : Bytes 64
  /-- The re-share grants that chain the caller's grant to the author. -/
  ancestorGrants : List (List UInt8 × Bytes 64)
  recoveryGrantBytes : List UInt8
  recoveryGrantSig : Bytes 64

structure DownloadBundle extends VersionRecords where
  streams : List StreamChunks

/-- The records with every stream except the content. -/
structure StreamHeader extends VersionRecords where
  smallStreams : List StreamChunks

/-- The compromise cutoff for the genesis.  Both positions are sink positions. -/
structure CompromiseCheck where
  genesisSinkPos : Option UInt64
  cutoff : Id → UInt64 → Option UInt64

structure VerifyContext where
  fileId : Id
  authorSigPub : Bytes 32
  ownerSigPub : Bytes 32
  recipientId : Id
  recipientType : RecipientType
  recipientSecret : EncSecretKey
  recipientMlkemSeed : Option (Bytes 64)
  /-- Highest version accepted for the file, or `none` at first contact. -/
  seenMaxVersion : Option UInt64
  granterSigPub : Id → Option (Bytes 32)
  adminSigPub : Id → Option (Bytes 32)
  /-- `none` skips the tombstone gate. -/
  tombstones : Option TombstoneSet
  compromise : Option CompromiseCheck

structure OpenedStream where
  streamType : StreamType
  plaintext : List UInt8
  deriving DecidableEq

structure OpenedFile where
  version : UInt64
  fileType : FileType
  contentDigest : Bytes 32
  /-- `false` is an anomaly to report, not a rejection. -/
  recoveryGrantOk : Bool
  streams : List OpenedStream
  deriving DecidableEq

structure OpenedHeader where
  version : UInt64
  fileType : FileType
  contentDigest : Bytes 32
  recoveryGrantOk : Bool
  contentChunkCount : UInt64
  smallStreams : List OpenedStream
  deriving DecidableEq

/-- What opens single ranges of the content later. -/
structure ContentDecryptor where
  contentSubkey : Bytes 32
  fileId : Id
  version : UInt64
  contentChunkCount : UInt64
  deriving DecidableEq

/-! ## The header checks -/

/-- Reject a version older than the highest seen or more than one above it. -/
def versionAcceptable (served : UInt64) (seenMax : Option UInt64) : Except DownloadError Unit :=
  match seenMax with
  | none =>
    if served > FIRST_CONTACT_VERSION_CEILING then
      throw (.firstContactCeiling served)
    else
      pure ()
  | some seen =>
    if served < seen then
      throw (.versionRollback seen served)
    else if seen = 0xFFFFFFFFFFFFFFFF then
      throw .versionOverflow
    else if served > seen + 1 then
      throw (.versionTooHigh seen served)
    else
      pure ()

section Signatures

variable [Ed25519]

/-- Strictly verify a record under its label. -/
def verify {T : Type} [Canonical T] (pubkey : Bytes 32) (label : String) (v : T) (sig : Bytes 64) :
    Bool :=
  (VerifyingKey.fromBytes pubkey >>= fun vk => vk.verifyCanonical label v sig).isOk

/-- The caller's grant must be for this file, version, recipient and key. -/
def checkGrantFields (g : Grant) (m : Manifest) (ctx : VerifyContext) : Except DownloadError Unit :=
  if g.fileId ≠ ctx.fileId then
    throw (.grantMismatch "file_id")
  else if g.fileVersion ≠ m.version then
    throw (.grantMismatch "file_version")
  else if g.recipientId ≠ ctx.recipientId then
    throw (.grantMismatch "recipient_id")
  else if g.recipientType ≠ ctx.recipientType then
    throw (.grantMismatch "recipient_type")
  else if g.dekCommit ≠ m.dekCommit then
    throw (.grantMismatch "dek_commit")
  else
    pure ()

/-- A re-share grant must be for this file, version and key, and to a user. -/
def checkAncestorFields (g : Grant) (fileId : Id) (version : UInt64) (dekCommit : Hash) :
    Except DownloadError Unit :=
  if g.fileId ≠ fileId then
    throw (.grantMismatch "ancestor file_id")
  else if g.fileVersion ≠ version then
    throw (.grantMismatch "ancestor file_version")
  else if g.dekCommit ≠ dekCommit then
    throw (.grantMismatch "ancestor dek_commit")
  else if g.recipientType ≠ .user then
    throw (.grantMismatch "ancestor recipient_type")
  else
    pure ()

/-- Decode the re-share grants and index them by recipient; a later one replaces an earlier one. -/
def ancestorsByRecipient (ancestors : List (List UInt8 × Bytes 64)) (fileId : Id) (version : UInt64)
    (dekCommit : Hash) : Except DownloadError (Id → Option (Grant × Bytes 64)) :=
  ancestors.foldlM (fun byRecipient (bytes, sig) => do
    let g ← (decode Grant bytes).mapError fun _ => .badGrant
    checkAncestorFields g fileId version dekCommit
    pure (Function.update byRecipient g.recipientId (some (g, sig)))) (fun _ => none)

/-- Walk from a grant towards the author, with `depth` re-share edges still allowed. -/
def walkGrantChain (byRecipient : Id → Option (Grant × Bytes 64)) (authorId : Id)
    (authorSigPub : Bytes 32) (granterSigPub : Id → Option (Bytes 32))
    (adminSigPub : Option (Id → Option (Bytes 32))) :
    ℕ → List Id → Grant → Bytes 64 → Except DownloadError Unit :=
  fun depth visited current currentSig =>
    let granter := current.grantedBy
    if granter = authorId then
      if ¬ verify authorSigPub Label.grant.text current currentSig then
        throw .grantSignature
      else
        pure ()
    else
      match byRecipient granter with
      | none =>
        -- a recovery operator, or a broken chain
        match adminSigPub.bind (· granter) with
        | some adminPub =>
          if ¬ verify adminPub Label.grant.text current currentSig then
            throw .grantSignature
          else
            pure ()
        | none => throw .grantChainBroken
      | some (next, nextSig) =>
        match depth with
        | 0 => throw .grantChainTooDeep
        | depth + 1 => do
          let granterPub ← (granterSigPub granter).elim (throw .granterKeyUnknown) pure
          if ¬ verify granterPub Label.grant.text current currentSig then
            throw .grantSignature
          else if granter ∈ visited then
            throw .grantChainCycle
          else
            walkGrantChain byRecipient authorId authorSigPub granterSigPub adminSigPub depth
              (granter :: visited) next nextSig

/-- The grant chains to the author, directly or through re-shares, or was made by an admin. -/
def verifyGrantChain (leaf : Grant) (leafSig : Bytes 64) (ancestors : List (List UInt8 × Bytes 64))
    (fileId : Id) (version : UInt64) (dekCommit : Hash) (authorId : Id) (authorSigPub : Bytes 32)
    (granterSigPub : Id → Option (Bytes 32)) (adminSigPub : Option (Id → Option (Bytes 32))) :
    Except DownloadError Unit := do
  let byRecipient ← ancestorsByRecipient ancestors fileId version dekCommit
  walkGrantChain byRecipient authorId authorSigPub granterSigPub adminSigPub MAX_GRANT_CHAIN_DEPTH
    [] leaf leafSig

/-- Did the author grant this version to the recovery recipient? -/
def recoveryGrantValid (recoveryGrantBytes : List UInt8) (recoveryGrantSig : Bytes 64)
    (m : Manifest) (authorPub : Bytes 32) (ownerId : Id) : Bool :=
  match decode Grant recoveryGrantBytes with
  | .error _ => false
  | .ok g =>
    verify authorPub Label.grant.text g recoveryGrantSig ∧ g.recipientType = .recovery ∧
      g.recipientId = RECOVERY_ID ∧ g.fileId = m.fileId ∧ g.fileVersion = m.version ∧
      g.dekCommit = m.dekCommit ∧ g.grantedBy = ownerId

end Signatures

/-- A genesis under a compromised key is honoured only at a sink position before the compromise. -/
def checkCompromise (compromise : Option CompromiseCheck) (genesis : Genesis) :
    Except DownloadError Unit :=
  match compromise with
  | none => pure ()
  | some chk =>
    match chk.cutoff genesis.ownerId genesis.ownerKeyVersion with
    | none => pure ()
    | some cutoffPos =>
      if ¬ chk.genesisSinkPos.any (· < cutoffPos) then
        throw .genesisAfterCompromise
      else
        pure ()

/-- The author must not be revoked, nor the downloader from this file at this version. -/
def checkTombstones (tombstones : Option TombstoneSet) (manifest : Manifest) (ctx : VerifyContext) :
    Except DownloadError Unit :=
  match tombstones with
  | none => pure ()
  | some ts =>
    if ts.isAccountRevoked manifest.authorId then
      throw .authorRevoked
    else if ts.isRevoked ctx.recipientId ctx.fileId manifest.version then
      throw .recipientRevoked
    else
      pure ()

section Header

variable [Ed25519] [Hkdf] [Aes256Gcm] [Hpke] [X25519] [MlKem768]

/-- Unwrap the key; the suite of the manifest selects the layout of the wrap. -/
def unwrapForSuite (ctx : VerifyContext) (alg : Suite) (wrappedDek : WrappedDek)
    (wrapCtx : WrapContext) : Except DownloadError Dek :=
  match alg with
  | .v1 => (unwrapDek ctx.recipientSecret wrappedDek wrapCtx).mapError fun _ => .dekUnwrap
  | .v2 => do
    let seed ← ctx.recipientMlkemSeed.elim (throw .pqKeyMissing) pure
    let hybrid ← (unpackHybridWrap wrappedDek).mapError fun _ => .dekUnwrap
    (unwrapDekHybrid ⟨ctx.recipientSecret.bytes, seed⟩ hybrid wrapCtx).mapError fun _ => .dekUnwrap

/-- The checks shared by every opener.  Returns the manifest, the key, and whether a valid recovery
grant was present. -/
def verifyHeader (ctx : VerifyContext) (records : VersionRecords) :
    Except DownloadError (Manifest × Dek × Bool) := do
  let manifest ← (decode Manifest records.manifestBytes).mapError fun _ => .badManifest
  if manifest.fileId ≠ ctx.fileId then
    throw .fileIdMismatch
  else if manifest.chunkSize < CHUNK_SIZE_MIN ∨ manifest.chunkSize > CHUNK_SIZE_MAX then
    throw (.framingBoundsExceeded "chunk_size out of range")
  else if ¬ verify ctx.authorSigPub Label.manifest.text manifest records.manifestSig then
    throw .manifestSignature
  else
    let genesis ← (decode Genesis records.genesisBytes).mapError fun _ => .badGenesis
    if genesis.fileId ≠ ctx.fileId then
      throw .fileIdMismatch
    else if ¬ verify ctx.ownerSigPub Label.genesis.text genesis records.genesisSig then
      throw .genesisSignature
    else
      checkCompromise ctx.compromise genesis
      if manifest.authorId ≠ genesis.ownerId then
        throw .authorNotOwner
      else
        checkTombstones ctx.tombstones manifest ctx
        versionAcceptable manifest.version ctx.seenMaxVersion
        let grant ← (decode Grant records.grantBytes).mapError fun _ => .badGrant
        checkGrantFields grant manifest ctx
        verifyGrantChain grant records.grantSig records.ancestorGrants manifest.fileId
          manifest.version manifest.dekCommit manifest.authorId ctx.authorSigPub ctx.granterSigPub
          (some ctx.adminSigPub)
        let recoveryGrantOk := recoveryGrantValid records.recoveryGrantBytes
          records.recoveryGrantSig manifest ctx.authorSigPub genesis.ownerId
        let dek ← unwrapForSuite ctx manifest.alg records.wrappedDek
          ⟨ctx.fileId, manifest.version, ctx.recipientId⟩
        if dek.commit ≠ manifest.dekCommit.bytes then
          throw .dekCommitMismatch
        else
          pure (manifest, dek, recoveryGrantOk)

end Header

/-! ## The openers -/

def checkedMul (a b : UInt64) : Option UInt64 :=
  if a.toNat * b.toNat < 2 ^ 64 then some (a * b) else none

/-- The framing fields stay under the cap. -/
def addressable (chunkCount : UInt64) (chunkSize : UInt32) : Bool :=
  match checkedMul chunkCount chunkSize.toUInt64 with
  | some b => b ≤ MAX_ADDRESSABLE_BYTES
  | none => false

section Openers

variable [Sha256] [Ed25519] [Hkdf] [Aes256Gcm] [Hpke] [X25519] [MlKem768]

/-- One round of the whole-buffer loop over the declared streams. -/
def openDeclared (ctx : VerifyContext) (manifest : Manifest) (dek : Dek)
    (served : List StreamChunks) :
    Bytes 32 × List OpenedStream → Stream → Except DownloadError (Bytes 32 × List OpenedStream) :=
  fun (contentDigest, streams) ms =>
    if ms.compression ≠ .none then
      throw .compressionUnsupported
    else do
      let provided ← (served.find? (·.streamType = ms.streamType)).elim
        (throw (.streamMissing ms.streamType)) pure
      if provided.chunks.length ≠ ms.chunkCount.toNat then
        throw (.framingBoundsExceeded "chunk_count mismatch")
      else if ¬ addressable ms.chunkCount manifest.chunkSize then
        throw (.framingBoundsExceeded "addressable size")
      else if streamDigest provided.chunks ≠ ms.digest.bytes then
        throw (.streamDigestMismatch ms.streamType)
      else
        let plaintext ← (openStream (dek.streamSubkey ms.streamType) ctx.fileId manifest.version
          ms.streamType provided.chunks).mapError fun _ => .streamFraming ms.streamType
        pure (if ms.streamType = .content then ms.digest.bytes else contentDigest,
          streams ++ [⟨ms.streamType, plaintext⟩])

/-- Verify, and decrypt every stream whole. -/
def verifyAndOpen (ctx : VerifyContext) (bundle : DownloadBundle) :
    Except DownloadError OpenedFile := do
  let (manifest, dek, recoveryGrantOk) ← verifyHeader ctx bundle.toVersionRecords
  let (contentDigest, streams) ← manifest.streams.foldlM
    (openDeclared ctx manifest dek bundle.streams) (.replicate 32 0, [])
  pure
    { version := manifest.version
      fileType := manifest.fileType
      contentDigest := contentDigest
      recoveryGrantOk := recoveryGrantOk
      streams := streams }

/-- One round of the loop over the declared streams that leaves the content alone. -/
def openSmall (ctx : VerifyContext) (manifest : Manifest) (dek : Dek)
    (smallStreams : List StreamChunks) :
    Option Stream × List OpenedStream → Stream →
      Except DownloadError (Option Stream × List OpenedStream) :=
  fun (contentMs, small) ms =>
    if ms.compression ≠ .none then
      throw .compressionUnsupported
    else if ms.streamType = .content then
      pure (some ms, small)
    else do
      let provided ← (smallStreams.find? (·.streamType = ms.streamType)).elim
        (throw (.streamMissing ms.streamType)) pure
      if provided.chunks.length ≠ ms.chunkCount.toNat then
        throw (.framingBoundsExceeded "chunk_count mismatch")
      else if streamDigest provided.chunks ≠ ms.digest.bytes then
        throw (.streamDigestMismatch ms.streamType)
      else
        let plaintext ← (openStream (dek.streamSubkey ms.streamType) ctx.fileId manifest.version
          ms.streamType provided.chunks).mapError fun _ => .streamFraming ms.streamType
        pure (contentMs, small ++ [⟨ms.streamType, plaintext⟩])

/-- Decrypt the small streams, and find and bound the content stream. -/
def openSmallStreams (ctx : VerifyContext) (manifest : Manifest) (dek : Dek)
    (smallStreams : List StreamChunks) : Except DownloadError (List OpenedStream × Stream) := do
  let (contentMs?, small) ← manifest.streams.foldlM (openSmall ctx manifest dek smallStreams)
    (none, [])
  let contentMs ← contentMs?.elim (throw (.streamMissing .content)) pure
  if ¬ addressable contentMs.chunkCount manifest.chunkSize then
    throw (.framingBoundsExceeded "addressable size")
  else
    pure (small, contentMs)

/-- A caller's closure inside the crypto layer: its error is put aside, and `why` stands in. -/
def stashError {σ α : Type} (why : String) (x : ExceptT DownloadError (StateM σ) α) :
    ExceptT CryptoError (StateM (σ × Option DownloadError)) α :=
  ExceptT.mk fun (s, userErr) =>
    match runFrom x s with
    | (.ok a, t) => (.ok a, (t, userErr))
    | (.error e, t) => (.error (.framing why), (t, some e))

/-- Run the crypto layer with an empty cell.  On failure the caller's error comes out if one was put
aside, and `fallback` otherwise. -/
def withErrorCell {σ α : Type} (fallback : DownloadError)
    (x : ExceptT CryptoError (StateM (σ × Option DownloadError)) α) :
    ExceptT DownloadError (StateM σ) α :=
  ExceptT.mk fun s =>
    match runFrom x (s, none) with
    | (.ok a, (t, _)) => (.ok a, t)
    | (.error _, (t, userErr)) => (.error (userErr.getD fallback), t)

/-- Verify, decrypt the small streams, and stream the content: `fetch` supplies a chunk and `sink`
takes a frame, both over the caller's state `σ`. -/
def verifyAndStreamContent {σ : Type} (ctx : VerifyContext) (header : StreamHeader)
    (fetch : UInt64 → ExceptT DownloadError (StateM σ) (List UInt8))
    (sink : List UInt8 → ExceptT DownloadError (StateM σ) Unit) :
    ExceptT DownloadError (StateM σ) OpenedHeader := do
  let (manifest, dek, recoveryGrantOk) ← liftM (verifyHeader ctx header.toVersionRecords)
  let (small, contentMs) ← liftM (openSmallStreams ctx manifest dek header.smallStreams)
  let ck := dek.streamSubkey .content
  withErrorCell (.streamFraming .content) (openStreamStreaming ck ctx.fileId manifest.version
    .content contentMs.chunkCount (fun i => stashError "fetch" (fetch i))
    (fun frame => stashError "sink" (sink frame)))
  pure
    { version := manifest.version
      fileType := manifest.fileType
      contentDigest := contentMs.digest.bytes
      recoveryGrantOk := recoveryGrantOk
      contentChunkCount := contentMs.chunkCount
      smallStreams := small }

/-- Verify, and decrypt the small streams only. -/
def verifyAndOpenHeaders (ctx : VerifyContext) (header : StreamHeader) :
    Except DownloadError OpenedHeader := do
  let (manifest, dek, recoveryGrantOk) ← verifyHeader ctx header.toVersionRecords
  let (small, contentMs) ← openSmallStreams ctx manifest dek header.smallStreams
  pure
    { version := manifest.version
      fileType := manifest.fileType
      contentDigest := contentMs.digest.bytes
      recoveryGrantOk := recoveryGrantOk
      contentChunkCount := contentMs.chunkCount
      smallStreams := small }

/-- Verify, and return what opens ranges of the content.  Only the content's compression is looked
at, since no other stream is ever opened with it. -/
def openContentDecryptor (ctx : VerifyContext) (header : StreamHeader) :
    Except DownloadError ContentDecryptor := do
  let (manifest, dek, _) ← verifyHeader ctx header.toVersionRecords
  let contentMs ← (manifest.streams.find? (·.streamType = .content)).elim
    (throw (.streamMissing .content)) pure
  if contentMs.compression ≠ .none then
    throw .compressionUnsupported
  else if contentMs.chunkCount = 0 then
    throw (.streamFraming .content)
  else if ¬ addressable contentMs.chunkCount manifest.chunkSize then
    throw (.framingBoundsExceeded "addressable size")
  else
    pure
      { contentSubkey := dek.streamSubkey .content
        fileId := ctx.fileId
        version := manifest.version
        contentChunkCount := contentMs.chunkCount }

end Openers

end MaxSecu
