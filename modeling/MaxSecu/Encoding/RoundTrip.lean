import MaxSecu.Encoding.Structs

/-!
# The codec of every structure is exact

`CanonicalForm T` says which values of a structure the format carries and that its body codec is
exact on them: the reader accepts exactly the encodings of well-formed values.  From it the
top-level codec inherits both directions of the round trip, and the re-encode guard of `decode`
turns out to reject nothing that the field rules let through.

`Registry` names the 14 structures, so that one statement covers them all.
-/

namespace MaxSecu

open PrefixReader AscendingList

/-- The values of a structure the format carries, and the law its body codec satisfies on them. -/
class CanonicalForm (T : Type) [Canonical T] where
  WellFormed : T → Prop
  exact : Exact (Canonical.decodeBody : Reader T) WellFormed Canonical.encodeBody
    (· ≠ .nonCanonical)

/-! ## From the body to the whole byte string -/

section Codec

variable {T : Type} [Canonical T] [CanonicalForm T]

lemma readStruct_exact :
    Exact (readStruct T) CanonicalForm.WellFormed encode (· ≠ .nonCanonical) := by
  refine Exact.seq (fun _ => Canonical.TYPE_ID T) ⟨Reader.u16_reads, Reader.u16_rejectsWithin⟩
    (fun id _ => ?_) fun _ _ => trivial
  refine .guard (fun hid => ?_) (by split <;> simp) fun v hv => not_not.mpr hv.2.symm
  rw [not_not] at hid
  subst hid
  exact CanonicalForm.exact.of_iff fun v => by simp

lemma run_readWhole_eq_ok {b rest : List UInt8} {v : T} :
    (readWhole T).run b = .ok (v, rest) ↔
      (CanonicalForm.WellFormed v ∧ b = encode v) ∧ rest = [] := by
  simp only [readWhole, run_bind_eq_ok, run_pure_eq_ok, readStruct_exact.reads _ _ _,
    Reader.run_finish_eq_ok]
  constructor
  · rintro ⟨w, _, ⟨hw, rfl⟩, -, _, ⟨rfl, rfl⟩, rfl, rfl⟩
    exact ⟨⟨hw, List.append_nil _⟩, rfl⟩
  · rintro ⟨⟨hv, rfl⟩, rfl⟩
    exact ⟨v, [], ⟨hv, (List.append_nil _).symm⟩, (), [], ⟨rfl, rfl⟩, rfl, rfl⟩

lemma decode_eq_ok_iff {b : List UInt8} {v : T} :
    decode T b = .ok v ↔ CanonicalForm.WellFormed v ∧ encode v = b := by
  constructor
  · intro h
    rw [decode] at h
    cases hrun : (readWhole T).run b with
    | error e =>
      rw [hrun] at h
      cases h
    | ok p =>
      obtain ⟨⟨hwf, hb⟩, -⟩ := run_readWhole_eq_ok.mp hrun
      rw [hrun] at h
      change (if encode p.1 ≠ b then throw _ else pure p.1) = Except.ok v at h
      rw [if_neg (not_not.mpr hb.symm)] at h
      cases h
      exact ⟨hwf, hb.symm⟩
  · rintro ⟨hv, rfl⟩
    have hrun : (readWhole T).run (encode v) = .ok (v, []) :=
      run_readWhole_eq_ok.mpr ⟨⟨hv, rfl⟩, rfl⟩
    rw [decode, hrun]
    change (if encode v ≠ encode v then throw _ else pure v) = Except.ok v
    rw [if_neg (not_not.mpr rfl)]
    rfl

lemma decode_encode {v : T} (hv : CanonicalForm.WellFormed v) : decode T (encode v) = .ok v :=
  decode_eq_ok_iff.mpr ⟨hv, rfl⟩

lemma encode_inj {v w : T} (hv : CanonicalForm.WellFormed v) (hw : CanonicalForm.WellFormed w)
    (h : encode v = encode w) : v = w :=
  readStruct_exact.reads.put_inj hv hw h

lemma readWhole_rejectsWithin : RejectsWithin (readWhole T) (· ≠ .nonCanonical) :=
  readStruct_exact.rejects.bind fun _ => Reader.finish_rejectsWithin.bind fun _ => .pure _

lemma decode_ne_nonCanonical (b : List UInt8) : decode T b ≠ .error .nonCanonical := by
  intro h
  rw [decode] at h
  cases hrun : (readWhole T).run b with
  | error e =>
    rw [hrun] at h
    cases h
    exact readWhole_rejectsWithin _ _ hrun rfl
  | ok p =>
    obtain ⟨⟨-, hb⟩, -⟩ := run_readWhole_eq_ok.mp hrun
    rw [hrun] at h
    change (if encode p.1 ≠ b then throw _ else pure p.1) = Except.error _ at h
    rw [if_neg (not_not.mpr hb.symm)] at h
    cases h

end Codec

/-! ## Flat structures

The body of a flat structure is its list of fields and nothing else, so every value is well
formed. -/

instance [UnicodeNormalization] : CanonicalForm DirBinding where
  WellFormed _ := True
  exact := by
    simp only [Canonical.encodeBody, List.flatten_cons, List.flatten_nil]
    refine Field.exact_seq fun username => Field.exact_seq fun userId =>
      Field.exact_seq fun encPub => Field.exact_seq fun sigPub => Field.exact_seq fun keyVersion =>
      Field.exact_seq fun roles => Field.exact_seq fun notBefore => Field.exact_seq fun notAfter =>
      Field.exact_seq fun mlkemPub => .pure ?_
    rintro ⟨⟩
    simp [and_assoc]

instance : CanonicalForm Stream where
  WellFormed _ := True
  exact := by
    simp only [Canonical.encodeBody, List.flatten_cons, List.flatten_nil]
    refine Field.exact_seq fun streamType => Field.exact_seq fun compression =>
      Field.exact_seq fun chunkCount => Field.exact_seq fun digest => .pure ?_
    rintro ⟨⟩
    simp [and_assoc]

instance : CanonicalForm Genesis where
  WellFormed _ := True
  exact := by
    simp only [Canonical.encodeBody, List.flatten_cons, List.flatten_nil]
    refine Field.exact_seq fun fileId => Field.exact_seq fun ownerId =>
      Field.exact_seq fun ownerKeyVersion => Field.exact_seq fun createdAt => .pure ?_
    rintro ⟨⟩
    simp [and_assoc]

instance : CanonicalForm Revocation where
  WellFormed _ := True
  exact := by
    simp only [Canonical.encodeBody, List.flatten_cons, List.flatten_nil]
    refine Field.exact_seq fun scope => Field.exact_seq fun revokedUserId =>
      Field.exact_seq fun revokedCapability => Field.exact_seq fun fromVersion =>
      Field.exact_seq fun revocationEpoch => Field.exact_seq fun prevHead =>
      Field.exact_seq fun issuedBy => Field.exact_seq fun coSignedBy =>
      Field.exact_seq fun createdAt => .pure ?_
    rintro ⟨⟩
    simp [and_assoc]

instance : CanonicalForm Reinstatement where
  WellFormed _ := True
  exact := by
    simp only [Canonical.encodeBody, List.flatten_cons, List.flatten_nil]
    refine Field.exact_seq fun scope => Field.exact_seq fun reinstatedUserId =>
      Field.exact_seq fun supersedesEpoch => Field.exact_seq fun reinstatementEpoch =>
      Field.exact_seq fun prevHead => Field.exact_seq fun issuedBy =>
      Field.exact_seq fun coSignedBy => Field.exact_seq fun createdAt => .pure ?_
    rintro ⟨⟩
    simp [and_assoc]

instance : CanonicalForm KeyCompromise where
  WellFormed _ := True
  exact := by
    simp only [Canonical.encodeBody, List.flatten_cons, List.flatten_nil]
    refine Field.exact_seq fun userId => Field.exact_seq fun keyVersion =>
      Field.exact_seq fun effectiveFrom => Field.exact_seq fun prevHead =>
      Field.exact_seq fun issuedBy => Field.exact_seq fun coSignedBy =>
      Field.exact_seq fun createdAt => .pure ?_
    rintro ⟨⟩
    simp [and_assoc]

instance [UnicodeNormalization] : CanonicalForm AuthProofContext where
  WellFormed _ := True
  exact := by
    simp only [Canonical.encodeBody, List.flatten_cons, List.flatten_nil]
    refine Field.exact_seq fun serverId => Field.exact_seq fun tlsExporter =>
      Field.exact_seq fun nonce => Field.exact_seq fun timestamp => .pure ?_
    rintro ⟨⟩
    simp [and_assoc]

instance : CanonicalForm WrapContext where
  WellFormed _ := True
  exact := by
    simp only [Canonical.encodeBody, List.flatten_cons, List.flatten_nil]
    refine Field.exact_seq fun fileId => Field.exact_seq fun version =>
      Field.exact_seq fun recipientId => .pure ?_
    rintro ⟨⟩
    simp [and_assoc]

instance : CanonicalForm ChunkAad where
  WellFormed _ := True
  exact := by
    simp only [Canonical.encodeBody, List.flatten_cons, List.flatten_nil]
    refine Field.exact_seq fun fileId => Field.exact_seq fun version =>
      Field.exact_seq fun streamType => Field.exact_seq fun chunkIndex =>
      Field.exact_seq fun isLast => .pure ?_
    rintro ⟨⟩
    simp [and_assoc]

instance : CanonicalForm FingerprintInput where
  WellFormed _ := True
  exact := by
    simp only [Canonical.encodeBody, List.flatten_cons, List.flatten_nil]
    refine Field.exact_seq fun encPub => Field.exact_seq fun sigPub => .pure ?_
    rintro ⟨⟩
    simp

/-! ## Structures with a rule of their own -/

/-- A grant to the recovery recipient carries the recovery id. -/
def Grant.WellFormed (g : Grant) : Prop :=
  g.recipientType = .recovery → g.recipientId = RECOVERY_ID

instance : CanonicalForm Grant where
  WellFormed := Grant.WellFormed
  exact := by
    simp only [Canonical.encodeBody, List.flatten_cons, List.flatten_nil]
    refine Field.exact_seq fun fileId => Field.exact_seq fun fileVersion =>
      Field.exact_seq fun recipientId => Field.exact_seq fun recipientType => .guard (fun hid => ?_)
        (by simp) ?_
    · refine Field.exact_seq fun dekCommit => Field.exact_seq fun grantedBy =>
        Field.exact_seq fun createdAt => .pure ?_
      rintro ⟨⟩
      simp only [Grant.WellFormed, Grant.mk.injEq]
      grind
    · rintro g ⟨⟨⟨⟨hwf, -⟩, -⟩, rfl⟩, rfl⟩ ⟨hrecovery, hid⟩
      exact hid (hwf hrecovery)

/-- The streams ascend by stream type, so each type is declared at most once. -/
def Manifest.WellFormed (m : Manifest) : Prop :=
  Ascending (fun s : Stream => s.streamType.codepoint.toNat) m.streams

lemma Manifest.length_streams_le {l : List Stream}
    (h : Ascending (fun s : Stream => s.streamType.codepoint.toNat) l) : l.length ≤ 4 := by
  have htypes : Ascending (fun t : StreamType => t.codepoint.toNat) (l.map Stream.streamType) :=
    List.pairwise_map.mpr h
  have hcard : Fintype.card StreamType = 4 := rfl
  simpa [hcard] using length_le_card_of_ascending htypes

lemma Manifest.getStreams_exact (count : ℕ) :
    Exact (Manifest.getStreams count)
      (fun l => l.length = count ∧ Ascending (fun s : Stream => s.streamType.codepoint.toNat) l)
      (fun l => l.flatMap encode) (· ≠ .nonCanonical) where
  reads := by
    intro buf l rest
    rw [Manifest.getStreams, readAscending_reads readStruct_exact.reads _ _ _ _ _ _ _]
    simp [AscendsFrom, CanonicalForm.WellFormed]
  rejects := readAscending_rejectsWithin readStruct_exact.rejects (by simp) _ _

lemma Manifest.sortDedupBy_of_getStreams {count : ℕ} {buf rest : List UInt8} {l : List Stream}
    (h : (Manifest.getStreams count).run buf = .ok (l, rest)) :
    sortDedupBy (fun s => s.streamType.codepoint.toNat) l = l :=
  sortDedupBy_of_ascending (((Manifest.getStreams_exact count).reads _ _ _).mp h).1.2

instance : CanonicalForm Manifest where
  WellFormed := Manifest.WellFormed
  exact := by
    simp only [Canonical.encodeBody, List.flatten_cons, List.flatten_nil]
    refine Field.exact_seq fun fileId => Field.exact_seq fun version =>
      Field.exact_seq fun fileType => Field.exact_seq fun alg => Field.exact_seq fun chunkSize =>
      Field.exact_seq fun dekCommit => Exact.counted ⟨Reader.u8_reads, Reader.u8_rejectsWithin⟩
        Manifest.getStreams_exact (fun k => UInt8.ofNat_toNat) (fun k accepted _ hasc => ?_) ?_
    · refine Field.exact_seq fun recoveryPresent => Field.exact_seq fun authorId =>
        Field.exact_seq fun createdAt => .pure ?_
      rintro ⟨⟩
      rw [sortDedupBy_of_ascending hasc]
      simp only [Manifest.WellFormed, Manifest.mk.injEq]
      grind
    · rintro m ⟨⟨⟨⟨⟨⟨hwf, -⟩, -⟩, -⟩, -⟩, -⟩, -⟩
      have hlen : m.streams.length < 2 ^ 8 := (Manifest.length_streams_le hwf).trans_lt (by decide)
      exact ⟨UInt8.toNat_ofNat_of_lt' hlen, hwf⟩

/-- The member count fits its `u16`. -/
def BundleBody.WellFormed (v : BundleBody) : Prop :=
  v.members.length ≤ 65535

instance : LawfulField BundleMember := by
  have h : Exact (Field.get : Reader BundleMember) (fun _ => True) Field.put
      (· ≠ .nonCanonical) := by
    simp only [Field.put, List.flatten_cons, List.flatten_nil]
    refine Field.exact_seq fun fileId => Field.exact_seq fun fileType => .pure ?_
    rintro ⟨⟩
    simp
  exact ⟨h.reads, h.rejects⟩

instance [UnicodeNormalization] : LawfulField BackupEntry := by
  have h : Exact (Field.get : Reader BackupEntry) (fun _ => True) Field.put
      (· ≠ .nonCanonical) := by
    simp only [Field.put, List.flatten_cons, List.flatten_nil]
    refine Field.exact_seq fun path => Field.exact_seq fun len => Field.exact_seq fun digest =>
      .pure ?_
    rintro ⟨⟩
    simp [and_assoc]
  exact ⟨h.reads, h.rejects⟩

instance : LawfulField BackupPart := by
  have h : Exact (Field.get : Reader BackupPart) (fun _ => True) Field.put
      (· ≠ .nonCanonical) := by
    simp only [Field.put, List.flatten_cons, List.flatten_nil]
    refine Field.exact_seq fun len => Field.exact_seq fun digest => .pure ?_
    rintro ⟨⟩
    simp
  exact ⟨h.reads, h.rejects⟩

lemma readMany_exact {α : Type} [Field α] [LawfulField α] (n : ℕ) :
    Exact (readMany (Field.get : Reader α) n) (fun l => l.length = n ∧ True)
      (fun l => l.flatMap Field.put) (· ≠ .nonCanonical) where
  reads := by
    intro buf l rest
    rw [readMany_reads LawfulField.get_reads n _ _ _]
    simp
  rejects := readMany_rejectsWithin LawfulField.get_rejectsWithin n

instance : CanonicalForm BundleBody where
  WellFormed := BundleBody.WellFormed
  exact := by
    simp only [Canonical.encodeBody, List.flatten_cons, List.flatten_nil]
    refine Exact.counted ⟨Reader.u16_reads, Reader.u16_rejectsWithin⟩ readMany_exact
      (fun k => UInt16.ofNat_toNat) (fun k members hlen _ => .pure ?_) ?_
    · have hmax : members.length ≤ 65535 := hlen ▸ Nat.le_of_lt_succ k.toNat_lt
      rintro ⟨⟩
      simp only [BundleBody.WellFormed, BundleBody.mk.injEq]
      grind
    · intro v hwf
      exact ⟨UInt16.toNat_ofNat_of_lt' (Nat.lt_succ_of_le hwf), trivial⟩

/-- Both counts fit their `u32`. -/
def BackupIndex.WellFormed [UnicodeNormalization] (v : BackupIndex) : Prop :=
  v.entries.length < 2 ^ 32 ∧ v.parts.length < 2 ^ 32

instance [UnicodeNormalization] : CanonicalForm BackupIndex where
  WellFormed := BackupIndex.WellFormed
  exact := by
    simp only [Canonical.encodeBody, List.flatten_cons, List.flatten_nil]
    refine Field.exact_seq fun gitSha => ?_
    refine Exact.counted ⟨Reader.u32_reads, Reader.u32_rejectsWithin⟩ readMany_exact
      (fun k => UInt32.ofNat_toNat) (fun k entries hentries _ => ?_) ?_
    · refine Exact.counted ⟨Reader.u32_reads, Reader.u32_rejectsWithin⟩ readMany_exact
        (fun k => UInt32.ofNat_toNat) (fun k' parts hparts _ => ?_) ?_
      · refine Field.exact_seq fun createdAt => .pure ?_
        have hentriesMax : entries.length < 2 ^ 32 := hentries ▸ k.toNat_lt
        have hpartsMax : parts.length < 2 ^ 32 := hparts ▸ k'.toNat_lt
        rintro ⟨⟩
        simp only [BackupIndex.WellFormed, BackupIndex.mk.injEq]
        grind
      · rintro v ⟨⟨hwf, -⟩, -⟩
        exact ⟨UInt32.toNat_ofNat_of_lt' hwf.2, trivial⟩
    · rintro v ⟨hwf, -⟩
      exact ⟨UInt32.toNat_ofNat_of_lt' hwf.1, trivial⟩

/-! ## The registry

One name for each structure, so that a statement about all of them has one quantifier. -/

/-- The 14 canonical structures. -/
inductive Registry
  | dirBinding
  | manifest
  | grant
  | genesis
  | revocation
  | reinstatement
  | keyCompromise
  | authProofContext
  | wrapContext
  | chunkAad
  | fingerprintInput
  | stream
  | bundleBody
  | backupIndex
  deriving DecidableEq

namespace Registry

def typeId : Registry → UInt16
  | .dirBinding => 0x0001
  | .manifest => 0x0002
  | .grant => 0x0003
  | .genesis => 0x0005
  | .revocation => 0x0006
  | .reinstatement => 0x0007
  | .keyCompromise => 0x0008
  | .authProofContext => 0x0009
  | .wrapContext => 0x000A
  | .chunkAad => 0x000B
  | .fingerprintInput => 0x000C
  | .stream => 0x000D
  | .bundleBody => 0x000E
  | .backupIndex => 0x000F

lemma typeId_injective : Function.Injective typeId := by
  intro k k' h
  cases k <;> cases k' <;> first | rfl | exact absurd h (by decide)

variable [UnicodeNormalization]

/-- The structure a registry entry names. -/
def Ty : Registry → Type
  | .dirBinding => DirBinding
  | .manifest => Manifest
  | .grant => Grant
  | .genesis => Genesis
  | .revocation => Revocation
  | .reinstatement => Reinstatement
  | .keyCompromise => KeyCompromise
  | .authProofContext => AuthProofContext
  | .wrapContext => WrapContext
  | .chunkAad => ChunkAad
  | .fingerprintInput => FingerprintInput
  | .stream => Stream
  | .bundleBody => BundleBody
  | .backupIndex => BackupIndex

instance instCanonical : (k : Registry) → Canonical k.Ty
  | .dirBinding => (inferInstance : Canonical DirBinding)
  | .manifest => (inferInstance : Canonical Manifest)
  | .grant => (inferInstance : Canonical Grant)
  | .genesis => (inferInstance : Canonical Genesis)
  | .revocation => (inferInstance : Canonical Revocation)
  | .reinstatement => (inferInstance : Canonical Reinstatement)
  | .keyCompromise => (inferInstance : Canonical KeyCompromise)
  | .authProofContext => (inferInstance : Canonical AuthProofContext)
  | .wrapContext => (inferInstance : Canonical WrapContext)
  | .chunkAad => (inferInstance : Canonical ChunkAad)
  | .fingerprintInput => (inferInstance : Canonical FingerprintInput)
  | .stream => (inferInstance : Canonical Stream)
  | .bundleBody => (inferInstance : Canonical BundleBody)
  | .backupIndex => (inferInstance : Canonical BackupIndex)

instance instCanonicalForm : (k : Registry) → CanonicalForm k.Ty
  | .dirBinding => (inferInstance : CanonicalForm DirBinding)
  | .manifest => (inferInstance : CanonicalForm Manifest)
  | .grant => (inferInstance : CanonicalForm Grant)
  | .genesis => (inferInstance : CanonicalForm Genesis)
  | .revocation => (inferInstance : CanonicalForm Revocation)
  | .reinstatement => (inferInstance : CanonicalForm Reinstatement)
  | .keyCompromise => (inferInstance : CanonicalForm KeyCompromise)
  | .authProofContext => (inferInstance : CanonicalForm AuthProofContext)
  | .wrapContext => (inferInstance : CanonicalForm WrapContext)
  | .chunkAad => (inferInstance : CanonicalForm ChunkAad)
  | .fingerprintInput => (inferInstance : CanonicalForm FingerprintInput)
  | .stream => (inferInstance : CanonicalForm Stream)
  | .bundleBody => (inferInstance : CanonicalForm BundleBody)
  | .backupIndex => (inferInstance : CanonicalForm BackupIndex)

@[simp] lemma TYPE_ID_eq (k : Registry) : Canonical.TYPE_ID k.Ty = k.typeId := by
  cases k <;> rfl

end Registry

/-! ## Main results -/

variable [UnicodeNormalization]

/-- **Canonical round trip.**  For each structure, encoding and decoding are mutually inverse
between the well-formed values and the accepted byte strings. -/
theorem codec_roundTrip (k : Registry) :
    (∀ v : k.Ty, CanonicalForm.WellFormed v → decode k.Ty (encode v) = .ok v) ∧
    (∀ b (v : k.Ty), decode k.Ty b = .ok v → encode v = b ∧ CanonicalForm.WellFormed v) ∧
    (∀ v w : k.Ty, CanonicalForm.WellFormed v → CanonicalForm.WellFormed w →
      encode v = encode w → v = w) ∧
    (∀ b (v : k.Ty), decode k.Ty b = .ok v →
      ∃! w : k.Ty, CanonicalForm.WellFormed w ∧ encode w = b) := by
  refine ⟨fun v hv => decode_encode hv, fun b v h => (decode_eq_ok_iff.mp h).symm,
    fun v w hv hw h => encode_inj hv hw h, fun b v h => ?_⟩
  obtain ⟨hv, rfl⟩ := decode_eq_ok_iff.mp h
  exact ⟨v, ⟨hv, rfl⟩, fun w ⟨hw, hwv⟩ => encode_inj hw hv hwv⟩

/-- **The re-encode guard is a backstop.**  What the field rules accept without trailing bytes
re-encodes to the input, `decode` never reports `nonCanonical`, and the two sorts in the readers
return the list they are given. -/
theorem fieldRules_canonical :
    (∀ (k : Registry) (b rest rest' : List UInt8) (v : k.Ty),
      (readStruct k.Ty).run b = .ok (v, rest) → Reader.finish.run rest = .ok ((), rest') →
        encode v = b) ∧
    (∀ (k : Registry) (b : List UInt8), decode k.Ty b ≠ .error .nonCanonical) ∧
    (∀ (count : ℕ) (buf rest : List UInt8) (l : List Role),
      (RoleSet.getRoles count).run buf = .ok (l, rest) → (RoleSet.new l).roles = l) ∧
    (∀ (count : ℕ) (buf rest : List UInt8) (l : List Stream),
      (Manifest.getStreams count).run buf = .ok (l, rest) →
        sortDedupBy (fun s => s.streamType.codepoint.toNat) l = l) := by
  refine ⟨fun k b rest rest' v hread hfinish => ?_, fun k b => decode_ne_nonCanonical b,
    fun count buf rest l => RoleSet.roles_new_of_getRoles,
    fun count buf rest l => Manifest.sortDedupBy_of_getStreams⟩
  obtain ⟨-, rfl⟩ := (readStruct_exact.reads _ _ _).mp hread
  obtain ⟨rfl, -⟩ := Reader.run_finish_eq_ok.mp hfinish
  exact (List.append_nil _).symm

/-- **Records end where they end.**  A sequence of records of any of the structures, one after
another with nothing between them, has no second reading. -/
theorem records_uniquelyDecodable :
    Function.Injective fun records : List (Σ k : Registry, {v : k.Ty // CanonicalForm.WellFormed v}) =>
      records.flatMap fun r => encode r.2.1 := by
  have hne : ∀ (r : Σ k : Registry, {v : k.Ty // CanonicalForm.WellFormed v}) (rest : List UInt8),
      encode r.2.1 ++ rest ≠ [] := by
    intro r rest hnil
    simpa [encode] using congrArg List.length hnil
  intro l
  induction l with
  | nil =>
    rintro (_ | ⟨r, m⟩) h
    · rfl
    · exact absurd h.symm (hne r _)
  | cons r l ih =>
    rintro (_ | ⟨r', m⟩) h
    · exact absurd h (hne r _)
    obtain ⟨k, v, hv⟩ := r
    obtain ⟨k', v', hv'⟩ := r'
    have h : encode v ++ l.flatMap (fun r => encode r.2.1) =
      encode v' ++ m.flatMap fun r => encode r.2.1 := h
    -- The type ids say that the first two are of one structure.
    have hid : Canonical.TYPE_ID k.Ty = Canonical.TYPE_ID k'.Ty := by
      rw [encode, encode, List.append_assoc, List.append_assoc] at h
      exact (Reader.u16_reads.put_append_inj trivial trivial h).1
    obtain rfl : k = k' := Registry.typeId_injective (by simpa using hid)
    obtain ⟨rfl, hrest⟩ := readStruct_exact.reads.put_append_inj hv hv' h
    rw [ih hrest]

end MaxSecu
