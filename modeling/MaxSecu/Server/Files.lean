import MaxSecu.Framework.ExceptRules
import MaxSecu.Encoding.RoundTrip

/-!
# Staging requests

What a client posts to stage a version of a file, and the server's own checks of it: the manifest
and the genesis decode canonically, the framing is within bounds, the caller is the author and the
owner, and the escrow has a wrap.  No signature is verified; the bytes are stored as they came.
-/

namespace MaxSecu

open ExceptRules

/-- One recipient's key wrap and signed read grant, as posted. -/
structure WrapInput where
  recipientId : Id
  /-- 1 for a user, 2 for the recovery recipient. -/
  recipientType : Int16
  wrappedDek : List UInt8
  wrapAlg : Int32
  grantedBy : Id
  grantBytes : List UInt8
  grantSig : Bytes 64
  deriving DecidableEq

/-- The genesis half of a stage of version 1. -/
structure GenesisInput where
  genesisBytes : List UInt8
  genesisSig : Bytes 64
  deriving DecidableEq

/-- A staging request.  A stage of version 1 creates the file and carries its genesis. -/
structure StageInput where
  fileId : Id
  callerId : Id
  fileTypeAdvisory : Int16
  genesis : Option GenesisInput
  manifestBytes : List UInt8
  manifestSig : Bytes 64
  wraps : List WrapInput
  /-- The ciphertext size of each stream, by stream type. -/
  streamTotals : List (Int16 × UInt64)
  proposedVersion : UInt64
  listed : Bool
  bundleId : Option Id

structure StreamRow where
  streamType : Int16
  compression : Int16
  chunkSize : UInt32
  chunkCount : UInt64
  totalBytes : UInt64
  digest : Bytes 32
  blobRef : String
  deriving DecidableEq

structure GenesisRow where
  ownerId : Id
  ownerKeyVersion : UInt64
  genesisBytes : List UInt8
  genesisSig : Bytes 64
  deriving DecidableEq

/-- A decoded and checked stage, ready to persist. -/
structure ParsedStage where
  fileId : Id
  fileType : Int16
  version : UInt64
  authorId : Id
  alg : Int32
  manifestBytes : List UInt8
  manifestSig : Bytes 64
  genesis : Option GenesisRow
  streams : List StreamRow
  wraps : List WrapInput
  recoveryPresent : Bool
  listed : Bool
  bundleId : Option Id

inductive StageError
  | badManifest
  | badGenesis
  | fileIdMismatch
  | notOwner
  | chunkSizeOutOfRange
  | sizeBoundExceeded
  | missingRecoveryWrap
  | mismatchedRecoveryWrap
  | versionMismatch
  | genesisRequired
  | genesisUnexpected
  | noSuchFile
  | alreadyFinalized
  deriving DecidableEq

namespace WrapInput

/-- The wrap names the recovery recipient, by type and by id. -/
def isRecovery (w : WrapInput) : Bool := w.recipientType = 2 ∧ w.recipientId = RECOVERY_ID

/-- The wrap names the recovery recipient by exactly one of the two. -/
def isHalfShape (w : WrapInput) : Bool :=
  decide (w.recipientType = 2) != decide (w.recipientId = RECOVERY_ID)

lemma isHalfShape_eq_false {w : WrapInput} :
    w.isHalfShape = false ↔ (w.recipientType = 2 ↔ w.recipientId = RECOVERY_ID) := by
  by_cases htype : w.recipientType = 2 <;> by_cases hid : w.recipientId = RECOVERY_ID <;>
    simp [isHalfShape, htype, hid]

lemma isRecovery_iff {w : WrapInput} (h : w.isHalfShape = false) :
    w.isRecovery = true ↔ w.recipientId = RECOVERY_ID := by
  have hiff := isHalfShape_eq_false.mp h
  simp [isRecovery, hiff]

end WrapInput

namespace Files

def CHUNK_SIZE_MIN : UInt32 := 4 * 1024

def CHUNK_SIZE_MAX : UInt32 := 8 * 1024 * 1024

def MAX_ADDRESSABLE_BYTES : ℕ := 256 * 1024 * 1024 * 1024

def hexDigit (n : ℕ) : Char := "0123456789abcdef".toList.getD n '0'

/-- Two lower-case hexadecimal digits. -/
def hexByte (b : UInt8) : List Char := [hexDigit (b.toNat / 16), hexDigit (b.toNat % 16)]

/-- The stream's slot in the blob tier, the same for every stage of the version. -/
def blobRef (fileId : Id) (version : UInt64) (streamType : UInt8) : String :=
  String.ofList (fileId.bytes.toList.flatMap hexByte) ++ "/" ++ toString version ++ "/" ++
    toString streamType

/-- The product of the framing fields overflows or is over the cap. -/
def oversized (chunkSize : UInt32) (s : Stream) : Bool :=
  2 ^ 64 ≤ s.chunkCount.toNat * chunkSize.toNat ∨
    MAX_ADDRESSABLE_BYTES < s.chunkCount.toNat * chunkSize.toNat

def column (b : UInt8) : Int16 := Int16.ofNat b.toNat

def suiteColumn : Suite → Int32
  | .v1 => 1
  | .v2 => 2

def streamRow (input : StageInput) (manifest : Manifest) (s : Stream) : StreamRow where
  streamType := column s.streamType.codepoint
  compression := column s.compression.codepoint
  chunkSize := manifest.chunkSize
  chunkCount := s.chunkCount
  totalBytes := ((input.streamTotals.find? fun t => t.1 = column s.streamType.codepoint).map
    Prod.snd).getD 0
  digest := s.digest.bytes
  blobRef := blobRef input.fileId manifest.version s.streamType.codepoint

/-- A genesis is present exactly on version 1. -/
def parseGenesis (input : StageInput) (version : UInt64) :
    Except StageError (Option GenesisRow) :=
  input.genesis.elim
    (if version = 1 then throw .genesisRequired else pure none)
    fun g =>
      if version ≠ 1 then
        throw .genesisUnexpected
      else do
        let decoded ← (decode Genesis g.genesisBytes).mapError fun _ => .badGenesis
        if decoded.fileId ≠ input.fileId then
          throw .fileIdMismatch
        else if decoded.ownerId ≠ input.callerId then
          throw .notOwner
        else
          pure (some ⟨decoded.ownerId, decoded.ownerKeyVersion, g.genesisBytes, g.genesisSig⟩)

/-- Decode and check a staging request.  What needs stored state is left to the store. -/
def parseStage (input : StageInput) : Except StageError ParsedStage := do
  let manifest ← (decode Manifest input.manifestBytes).mapError fun _ => .badManifest
  if manifest.fileId ≠ input.fileId then
    throw .fileIdMismatch
  else if manifest.chunkSize < CHUNK_SIZE_MIN ∨ manifest.chunkSize > CHUNK_SIZE_MAX then
    throw .chunkSizeOutOfRange
  else if manifest.streams.any (oversized manifest.chunkSize) then
    throw .sizeBoundExceeded
  else if manifest.authorId ≠ input.callerId then
    throw .notOwner
  else if input.wraps.any WrapInput.isHalfShape then
    throw .mismatchedRecoveryWrap
  else if ¬ input.wraps.any WrapInput.isRecovery then
    throw .missingRecoveryWrap
  else if input.proposedVersion ≠ manifest.version then
    throw .versionMismatch
  else
    let genesis ← parseGenesis input manifest.version
    pure
      { fileId := input.fileId
        fileType := column manifest.fileType.codepoint
        version := manifest.version
        authorId := manifest.authorId
        alg := suiteColumn manifest.alg
        manifestBytes := input.manifestBytes
        manifestSig := input.manifestSig
        genesis := genesis
        streams := manifest.streams.map (streamRow input manifest)
        wraps := input.wraps
        recoveryPresent := manifest.recoveryPresent
        listed := input.listed
        bundleId := input.bundleId }

/-! ## What a parsed stage satisfies -/

/-- What the checks of a stage establish for the store. -/
structure WellParsed (input : StageInput) (p : ParsedStage) : Prop where
  fileId : p.fileId = input.fileId
  author : p.authorId = input.callerId
  posted : p.wraps = input.wraps
  wraps : ∀ w ∈ p.wraps, w.isHalfShape = false
  recovery : ∃ w ∈ p.wraps, w.isRecovery = true
  genesis : p.version = 1 ↔ ∃ g, p.genesis = some g
  owner : ∀ g, p.genesis = some g → g.ownerId = input.callerId

lemma parseGenesis_spec {input : StageInput} {version : UInt64} {genesis : Option GenesisRow}
    (h : parseGenesis input version = .ok genesis) :
    (version = 1 ↔ ∃ g, genesis = some g) ∧
      ∀ g, genesis = some g → g.ownerId = input.callerId := by
  unfold parseGenesis at h
  cases hinput : input.genesis with
  | none =>
    rw [hinput, Option.elim_none, guard_eq_ok, pure_eq_ok] at h
    obtain ⟨hversion, rfl⟩ := h
    exact ⟨⟨fun hone => absurd hone hversion, fun ⟨g, hg⟩ => absurd hg (by simp)⟩,
      fun g hg => absurd hg (by simp)⟩
  | some g =>
    rw [hinput, Option.elim_some] at h
    simp only [guard_eq_ok, bind_eq_ok, pure_eq_ok, not_not] at h
    obtain ⟨hversion, decoded, -, -, howner, rfl⟩ := h
    refine ⟨⟨fun _ => ⟨_, rfl⟩, fun _ => hversion⟩, ?_⟩
    rintro g' ⟨⟩
    exact howner

lemma parseStage_spec {input : StageInput} {p : ParsedStage} (h : parseStage input = .ok p) :
    WellParsed input p := by
  unfold parseStage at h
  simp only [bind_eq_ok, guard_eq_ok, pure_eq_ok, not_not] at h
  obtain ⟨manifest, -, -, -, -, hauthor, hhalf, hrecovery, -, genesis, hgenesis, rfl⟩ := h
  obtain ⟨hversion, howner⟩ := parseGenesis_spec hgenesis
  refine ⟨rfl, hauthor, rfl, ?_, by simpa using hrecovery, hversion, howner⟩
  intro w hw
  by_contra hbad
  exact hhalf (List.any_eq_true.mpr ⟨w, hw, by simpa using hbad⟩)

end Files

end MaxSecu
