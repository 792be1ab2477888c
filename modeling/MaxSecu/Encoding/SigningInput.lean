import MaxSecu.Encoding.RoundTrip

/-!
# Signing inputs and domain separation

The bytes an Ed25519 signature covers are a length-prefixed role label and a payload.  The payload
is the encoding of a structure, except for an anchored head and the two log checkpoints, which sign
a raw 40-byte form: a `u64` and a 32-byte hash.

Equal bytes have equal labels (`SigningMessage.label_eq_of_bytes_eq`).  Under one label the payloads
are equal too, with one exception: a `BackupIndex` of exactly 40 bytes is also a raw form, so under
a label of the raw forms the two spell the same bytes.
-/

namespace MaxSecu

open PrefixReader

/-- Domain-separation labels, one for every Ed25519 signature role. -/
inductive Label
  | dirbinding
  | manifest
  | grant
  | genesis
  | revocation
  | reinstatement
  | keyCompromise
  | auth
  | sinkHead
  | sinkCheckpoint
  | ktCheckpoint
  | updateManifest
  | directoryDelegation
  deriving DecidableEq

namespace Label

def text : Label → String
  | .dirbinding => "MaxSecu-dirbinding-v1"
  | .manifest => "MaxSecu-manifest-v1"
  | .grant => "MaxSecu-grant-v1"
  | .genesis => "MaxSecu-genesis-v1"
  | .revocation => "MaxSecu-revocation-v1"
  | .reinstatement => "MaxSecu-reinstatement-v1"
  | .keyCompromise => "MaxSecu-key-compromise-v1"
  | .auth => "MaxSecu-auth-v1"
  | .sinkHead => "MaxSecu-sink-head-v1"
  | .sinkCheckpoint => "MaxSecu-sink-checkpoint-v1"
  | .ktCheckpoint => "MaxSecu-kt-checkpoint-v1"
  | .updateManifest => "MaxSecu-update-v1"
  | .directoryDelegation => "maxsecu/directory-delegation/v1"

lemma text_injective : Function.Injective text := by
  intro l l' h
  cases l <;> cases l' <;> first | rfl | exact absurd h (by decide)

lemma length_text_lt (l : Label) : l.text.utf8ByteSize < 2 ^ 32 := by
  cases l <;> decide

end Label

/-! ## The four constructions -/

/-- The length-prefixed label, then the payload. -/
def signingInput (label : String) (canonicalBytes : List UInt8) : List UInt8 :=
  Writer.var label.toByteArray.data.toList ++ Writer.fixed canonicalBytes

def signingMessage {T : Type} [Canonical T] (label : String) (v : T) : List UInt8 :=
  signingInput label (encode v)

/-- The 40-byte payload of a head or a checkpoint: a big-endian `u64`, then a hash. -/
def rawPayload (n : UInt64) (hash : Bytes 32) : List UInt8 :=
  BigEndian.toBytes 8 n.toNat ++ hash.toList

def sinkHeadSigningInput (chainSeq : UInt64) (head : Bytes 32) : List UInt8 :=
  signingInput Label.sinkHead.text (rawPayload chainSeq head)

def sinkCheckpointSigningInput (treeSize : UInt64) (root : Bytes 32) : List UInt8 :=
  signingInput Label.sinkCheckpoint.text (rawPayload treeSize root)

def ktCheckpointSigningInput (treeSize : UInt64) (root : Bytes 32) : List UInt8 :=
  signingInput Label.ktCheckpoint.text (rawPayload treeSize root)

lemma signingInput_inj {l l' : Label} {p p' : List UInt8}
    (h : signingInput l.text p = signingInput l'.text p') : l = l' ∧ p = p' := by
  have hlt : ∀ l : Label, l.text.toByteArray.data.toList.length < 2 ^ 32 := by
    intro l
    simpa using l.length_text_lt
  obtain ⟨htext, hp⟩ := Reader.var_reads.put_append_inj (hlt l) (hlt l') h
  refine ⟨Label.text_injective ?_, hp⟩
  rw [← String.toByteArray_inj]
  exact ByteArray.ext (Array.ext' htext)

lemma length_rawPayload (n : UInt64) (hash : Bytes 32) : (rawPayload n hash).length = 40 := by
  simp [rawPayload]

lemma rawPayload_inj {n n' : UInt64} {hash hash' : Bytes 32}
    (h : rawPayload n hash = rawPayload n' hash') : n = n' ∧ hash = hash' := by
  obtain ⟨hn, hhash⟩ := Reader.u64_reads.put_append_inj trivial trivial h
  exact ⟨hn, List.Vector.eq _ _ hhash⟩

/-! ## Which encodings are 40 bytes long -/

section Sizes

@[simp] lemma length_put_u32 (v : UInt32) : (Field.put v).length = 4 := Writer.length_u32 v

@[simp] lemma length_put_u64 (v : UInt64) : (Field.put v).length = 8 := Writer.length_u64 v

@[simp] lemma length_put_bool (v : Bool) : (Field.put v).length = 1 := Writer.length_bool v

@[simp] lemma length_put_id (v : Id) : (Field.put v).length = 16 := v.bytes.toList_length

@[simp] lemma length_put_bytes32 (v : Bytes32) : (Field.put v).length = 32 := v.bytes.toList_length

@[simp] lemma length_put_timestamp (v : Timestamp) : (Field.put v).length = 8 :=
  Writer.length_u64 v.millis

@[simp] lemma length_put_text [UnicodeNormalization] (v : Text) :
    (Field.put v).length = 4 + v.str.utf8ByteSize := Writer.length_text v.str

@[simp] lemma length_put_suite (v : Suite) : (Field.put v).length = 2 := Writer.length_u16 _

@[simp] lemma length_put_recipientType (v : RecipientType) : (Field.put v).length = 1 := rfl

@[simp] lemma length_put_streamType (v : StreamType) : (Field.put v).length = 1 := rfl

@[simp] lemma length_put_compression (v : Compression) : (Field.put v).length = 1 := rfl

@[simp] lemma length_put_fileType (v : FileType) : (Field.put v).length = 1 := rfl

@[simp] lemma length_put_bundleMember (v : BundleMember) : (Field.put v).length = 17 := by
  change [Field.put v.fileId, Field.put v.fileType].flatten.length = 17
  simp

lemma length_encode {T : Type} [Canonical T] (v : T) :
    (encode v).length = 2 + (Canonical.encodeBody v).length := by
  simp [encode]

/-- Only a backup index can be as long as a raw payload.  Most structures are longer; `ChunkAad` is
36 bytes, and a bundle body is 4 bytes and a multiple of 17. -/
lemma length_encode_ne_forty [UnicodeNormalization] {k : Registry} (hk : k ≠ .backupIndex)
    (v : k.Ty) : (encode v).length ≠ 40 := by
  rw [length_encode]
  cases k with
  | backupIndex => exact absurd rfl hk
  | dirBinding => simp [Canonical.encodeBody]; omega
  | manifest => simp [Canonical.encodeBody]; omega
  | grant => simp [Canonical.encodeBody]
  | genesis => simp [Canonical.encodeBody]
  | revocation => simp [Canonical.encodeBody]; omega
  | reinstatement => simp [Canonical.encodeBody]; omega
  | keyCompromise => simp [Canonical.encodeBody]
  | authProofContext => simp [Canonical.encodeBody]; omega
  | wrapContext => simp [Canonical.encodeBody]
  | chunkAad => simp [Canonical.encodeBody]
  | fingerprintInput => simp [Canonical.encodeBody]
  | stream => simp [Canonical.encodeBody]
  | bundleBody => simp [Canonical.encodeBody]; omega

end Sizes

/-! ## Signing messages -/

section SigningMessage

variable [UnicodeNormalization]

/-- What one of the four constructions is applied to. -/
inductive SigningMessage
  | message (label : Label) (k : Registry) (v : k.Ty)
  | sinkHead (chainSeq : UInt64) (head : Bytes 32)
  | sinkCheckpoint (treeSize : UInt64) (root : Bytes 32)
  | ktCheckpoint (treeSize : UInt64) (root : Bytes 32)

namespace SigningMessage

def bytes : SigningMessage → List UInt8
  | message label _ v => signingMessage label.text v
  | sinkHead chainSeq head => sinkHeadSigningInput chainSeq head
  | sinkCheckpoint treeSize root => sinkCheckpointSigningInput treeSize root
  | ktCheckpoint treeSize root => ktCheckpointSigningInput treeSize root

def label : SigningMessage → Label
  | message label _ _ => label
  | sinkHead _ _ => .sinkHead
  | sinkCheckpoint _ _ => .sinkCheckpoint
  | ktCheckpoint _ _ => .ktCheckpoint

/-- The bytes after the label. -/
def payload : SigningMessage → List UInt8
  | message _ _ v => encode v
  | sinkHead chainSeq head => rawPayload chainSeq head
  | sinkCheckpoint treeSize root => rawPayload treeSize root
  | ktCheckpoint treeSize root => rawPayload treeSize root

def WellFormed : SigningMessage → Prop
  | message _ _ v => CanonicalForm.WellFormed v
  | _ => True

/-- A head or a checkpoint, signed in the raw 40-byte form. -/
def IsRaw : SigningMessage → Prop
  | message _ _ _ => False
  | _ => True

/-- A signed backup index whose encoding has the length of the raw form. -/
def IsShortBackupIndex (m : SigningMessage) : Prop :=
  ∃ label, ∃ v : BackupIndex, m = message label .backupIndex v ∧ (encode v).length = 40

lemma bytes_eq_signingInput (m : SigningMessage) :
    m.bytes = signingInput m.label.text m.payload := by
  cases m <;> rfl

lemma label_eq_of_bytes_eq {m m' : SigningMessage} (h : m.bytes = m'.bytes) :
    m.label = m'.label ∧ m.payload = m'.payload := by
  rw [bytes_eq_signingInput, bytes_eq_signingInput] at h
  exact signingInput_inj h

lemma message_eq_of_encode_eq {k k' : Registry} {v : k.Ty} {v' : k'.Ty} (label : Label)
    (hv : CanonicalForm.WellFormed v) (hv' : CanonicalForm.WellFormed v')
    (h : encode v = encode v') : message label k v = message label k' v' := by
  obtain ⟨htype, -⟩ := Reader.u16_reads.put_append_inj trivial trivial h
  obtain rfl : k = k' := Registry.typeId_injective (by simpa using htype)
  rw [encode_inj hv hv' h]

lemma raw_eq_of_payload_eq {m m' : SigningMessage} (hm : m.IsRaw) (hm' : m'.IsRaw)
    (hlabel : m.label = m'.label) (hpayload : m.payload = m'.payload) : m = m' := by
  cases m <;> cases m' <;> simp only [IsRaw, label, reduceCtorEq] at hm hm' hlabel
  all_goals
    obtain ⟨rfl, rfl⟩ := rawPayload_inj hpayload
    rfl

lemma isShortBackupIndex_of_payload_eq {label : Label} {k : Registry} {v : k.Ty}
    {m : SigningMessage} (hm : m.IsRaw) (h : encode v = m.payload) :
    (message label k v).IsShortBackupIndex := by
  have hlen : (encode v).length = 40 := by
    rw [h]
    cases m with
    | message label k v => exact hm.elim
    | sinkHead n hash | sinkCheckpoint n hash | ktCheckpoint n hash =>
      exact length_rawPayload n hash
  by_cases hk : k = .backupIndex
  · subst hk
    exact ⟨label, v, rfl, hlen⟩
  · exact absurd hlen (length_encode_ne_forty hk v)

end SigningMessage

/-- **Domain separation.**  Equal signing inputs have the same label, and the same payload value
unless one of them is a 40-byte backup index signed under the label of a raw form that it spells. -/
theorem signingMessage_separated (m m' : SigningMessage) (hm : m.WellFormed) (hm' : m'.WellFormed)
    (h : m.bytes = m'.bytes) :
    m.label = m'.label ∧
      (m = m' ∨ m.IsShortBackupIndex ∧ m'.IsRaw ∨ m.IsRaw ∧ m'.IsShortBackupIndex) := by
  obtain ⟨hlabel, hpayload⟩ := SigningMessage.label_eq_of_bytes_eq h
  refine ⟨hlabel, ?_⟩
  by_cases hraw : m.IsRaw <;> by_cases hraw' : m'.IsRaw
  · exact .inl (SigningMessage.raw_eq_of_payload_eq hraw hraw' hlabel hpayload)
  · cases m' with
    | message label k v =>
      exact .inr (.inr ⟨hraw, SigningMessage.isShortBackupIndex_of_payload_eq hraw hpayload.symm⟩)
    | sinkHead | sinkCheckpoint | ktCheckpoint => exact absurd trivial hraw'
  · cases m with
    | message label k v =>
      exact .inr (.inl ⟨SigningMessage.isShortBackupIndex_of_payload_eq hraw' hpayload, hraw'⟩)
    | sinkHead | sinkCheckpoint | ktCheckpoint => exact absurd trivial hraw
  · cases m with
    | message label k v =>
      cases m' with
      | message label' k' v' =>
        obtain rfl : label = label' := hlabel
        exact .inl (SigningMessage.message_eq_of_encode_eq label hm hm' hpayload)
      | sinkHead | sinkCheckpoint | ktCheckpoint => exact absurd trivial hraw'
    | sinkHead | sinkCheckpoint | ktCheckpoint => exact absurd trivial hraw

end SigningMessage

/-! ## The exception is real -/

/-- NFC restricted to ASCII, where every string is its own normal form. -/
abbrev asciiNormalization : UnicodeNormalization where
  isNfc s := s.toList.all fun c => c.toNat < 128
  nfc s := if s.toList.all fun c => c.toNat < 128 then s else ""
  isNfc_nfc s := by
    split
    · assumption
    · rfl

/-- A backup index over an 18-digit abbreviated commit id, with no files and no parts. -/
def shortBackupIndex : @BackupIndex asciiNormalization :=
  letI := asciiNormalization
  ⟨⟨"0123456789abcdef01", by decide, by decide⟩, [], [], ⟨0⟩⟩

/-- The head whose raw form continues the first bytes of `shortBackupIndex` after the `u64`. -/
def shortBackupIndexHead : Bytes 32 :=
  ⟨"23456789abcdef01".toByteArray.data.toList ++ List.replicate 16 0, by decide⟩

/-- `shortBackupIndex`, signed under the label of an anchored head. -/
def backupIndexMessage : @SigningMessage asciiNormalization :=
  letI := asciiNormalization
  .message .sinkHead .backupIndex shortBackupIndex

/-- The anchored head with the same bytes. -/
def headMessage : @SigningMessage asciiNormalization :=
  letI := asciiNormalization
  .sinkHead 0x000F000000123031 shortBackupIndexHead

/-- Without the exception the separation fails. -/
theorem signingMessage_not_injective :
    letI := asciiNormalization
    ¬ ∀ m m' : SigningMessage, m.WellFormed → m'.WellFormed → m.bytes = m'.bytes → m = m' := by
  intro hinj
  have heq := hinj backupIndexMessage headMessage ⟨by decide, by decide⟩ trivial (by decide)
  cases heq

/-- The colliding pair, as an instance of the separation theorem. -/
theorem signingMessage_separated_shortBackupIndex :
    letI := asciiNormalization
    backupIndexMessage.label = headMessage.label ∧
      (backupIndexMessage = headMessage ∨
        backupIndexMessage.IsShortBackupIndex ∧ headMessage.IsRaw ∨
        backupIndexMessage.IsRaw ∧ headMessage.IsShortBackupIndex) :=
  letI := asciiNormalization
  signingMessage_separated backupIndexMessage headMessage ⟨by decide, by decide⟩ trivial
    (by decide)

end MaxSecu
