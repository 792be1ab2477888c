import MaxSecu.App.FileViews
import MaxSecu.Client.DownloadAgreement
import MaxSecu.Client.HeaderChecks
import MaxSecu.Server.Restage

/-!
# What is uploaded is what is read

An upload is posted, committed and served, and the owner and the recovery recipient open it to the
plaintext that went in.  The three sides keep bounds of their own.  The sealing side takes any
length, the readers and the server take 256 GiB of frames a stream; and the server knows the
recovery recipient by his id, so no owner can have it.
-/

namespace MaxSecu

open ExceptRules AssociationList

/-! ## Sealed streams as they are fetched -/

section Streams

variable [Sha256] [Hkdf] [Aes256GcmSeal] {dek : Dek} {fileId : Id} {version : UInt64}
  {chunkSize : UInt32} {inputs : List (StreamType × List UInt8)}

lemma sealInputs_eq : sealInputs dek fileId version chunkSize inputs =
    (inputs.map fun input => (sealInput dek fileId version chunkSize input).1,
      inputs.map fun input => (sealInput dek fileId version chunkSize input).2) := by
  unfold sealInputs
  rw [List.unzip_eq_map, List.map_map, List.map_map]
  rfl

variable (params : UploadParams) (dek) (streams : PlaintextStreams) (wraps : List WrapOut) in
lemma UploadParams.bundle_declared [Ed25519] :
    (params.bundle dek streams wraps).manifest.streams = streams.inputs.map fun input =>
      (sealInput dek params.fileId FIRST_VERSION params.chunkSize input).1 := by
  show (sealStreams dek params.fileId FIRST_VERSION params.chunkSize streams).1 = _
  rw [sealStreams_eq, sealInputs_eq]

variable (params : UploadParams) (dek) (streams : PlaintextStreams) (wraps : List WrapOut) in
lemma UploadParams.bundle_sealed [Ed25519] :
    (params.bundle dek streams wraps).streams = streams.inputs.map fun input =>
      (sealInput dek params.fileId FIRST_VERSION params.chunkSize input).2 := by
  show (sealStreams dek params.fileId FIRST_VERSION params.chunkSize streams).2 = _
  rw [sealStreams_eq, sealInputs_eq]

lemma length_sealInput_chunks {input : StreamType × List UInt8}
    (hcount : (framesOf chunkSize.toNat input.2).length < 2 ^ 64) :
    (sealInput dek fileId version chunkSize input).2.chunks.length =
      (sealInput dek fileId version chunkSize input).1.chunkCount.toNat := by
  have hlength : (sealInput dek fileId version chunkSize input).2.chunks.length =
      (framesOf chunkSize.toNat input.2).length := length_sealStream_chunks
  have hdeclared : (sealInput dek fileId version chunkSize input).1.chunkCount =
      UInt64.ofNat (framesOf chunkSize.toNat input.2).length := rfl
  rw [hlength, hdeclared, UInt64.toNat_ofNat', Nat.mod_eq_of_lt hcount]

end Streams

/-- The frames of each stream, at full size, are at most what a reader takes. -/
def PlaintextStreams.Within (streams : PlaintextStreams) (chunkSize : UInt32) : Prop :=
  ∀ input ∈ streams.inputs,
    (framesOf chunkSize.toNat input.2).length * chunkSize.toNat ≤ Files.MAX_ADDRESSABLE_BYTES

lemma chunkSize_pos {chunkSize : UInt32}
    (h : ¬ (chunkSize < CHUNK_SIZE_MIN ∨ chunkSize > CHUNK_SIZE_MAX)) : 0 < chunkSize.toNat := by
  rw [not_or, UInt32.not_lt, UInt32.le_iff_toNat_le] at h
  have hmin : CHUNK_SIZE_MIN.toNat = 4096 := by decide
  omega

section Bounds

variable [Sha256] [Hkdf] [Aes256GcmSeal] {dek : Dek} {fileId : Id} {version : UInt64}
  {chunkSize : UInt32} {streams : PlaintextStreams}

omit [Sha256] [Hkdf] [Aes256GcmSeal] in
lemma PlaintextStreams.Within.length_lt (hcap : streams.Within chunkSize)
    (hsize : 0 < chunkSize.toNat) {input : StreamType × List UInt8} (hinput : input ∈ streams.inputs) :
    (framesOf chunkSize.toNat input.2).length < 2 ^ 64 := by
  have hframes := hcap input hinput
  have hmax : Files.MAX_ADDRESSABLE_BYTES = 2 ^ 38 := by decide
  have hle : (framesOf chunkSize.toNat input.2).length ≤
      (framesOf chunkSize.toNat input.2).length * chunkSize.toNat := Nat.le_mul_of_pos_right _ hsize
  omega

lemma PlaintextStreams.Within.declared (hcap : streams.Within chunkSize)
    (hsize : 0 < chunkSize.toNat) {ms : Stream}
    (hms : ms ∈ (sealStreams dek fileId version chunkSize streams).1) :
    ms.chunkCount.toNat * chunkSize.toNat ≤ 2 ^ 38 := by
  rw [sealStreams_eq, sealInputs_eq] at hms
  obtain ⟨input, hinput, rfl⟩ := List.mem_map.mp hms
  have hlt := hcap.length_lt hsize hinput
  have hdeclared : (sealInput dek fileId version chunkSize input).1.chunkCount =
      UInt64.ofNat (framesOf chunkSize.toNat input.2).length := rfl
  have hmax : Files.MAX_ADDRESSABLE_BYTES = 2 ^ 38 := by decide
  rw [hdeclared, UInt64.toNat_ofNat', Nat.mod_eq_of_lt hlt, ← hmax]
  exact hcap input hinput

lemma PlaintextStreams.Within.not_oversized (hcap : streams.Within chunkSize)
    (hsize : 0 < chunkSize.toNat) :
    (sealStreams dek fileId version chunkSize streams).1.any (Files.oversized chunkSize) =
      false := by
  rw [List.any_eq_false]
  intro ms hms
  have hframes := hcap.declared hsize hms
  have hmax : Files.MAX_ADDRESSABLE_BYTES = 2 ^ 38 := by decide
  unfold Files.oversized
  rw [hmax]
  simp only [decide_eq_true_eq, Bool.decide_or, Bool.or_eq_true, not_or]
  omega

end Bounds

/-! ## The readers -/

/-- A reader asks for the file.  He has resolved the owner's key, has not seen a later version of the
file, and knows of no revocation and no compromise that concerns it. -/
structure UploadParams.Reads [Ed25519] (params : UploadParams) (ctx : VerifyContext) : Prop where
  fileId : ctx.fileId = params.fileId
  authorKey : ctx.authorSigPub = params.owner.sig.verifyingKey
  ownerKey : ctx.ownerSigPub = params.owner.sig.verifyingKey
  current : versionAcceptable FIRST_VERSION ctx.seenMaxVersion = .ok ()
  unrevoked : ∀ ts, ctx.tombstones = some ts → ts.isAccountRevoked params.ownerId = false ∧
    ts.isRevoked ctx.recipientId params.fileId FIRST_VERSION = false
  uncompromised : ∀ chk, ctx.compromise = some chk → ∀ cutoff,
    chk.cutoff params.ownerId params.ownerKeyVersion = some cutoff →
      chk.genesisSinkPos.any (· < cutoff) = true

section Reading

variable [Ed25519] {params : UploadParams} {ctx : VerifyContext} {dekCommit : Bytes 32}
  {streams : List Stream}

lemma UploadParams.Reads.checkTombstones (hreads : params.Reads ctx) :
    MaxSecu.checkTombstones ctx.tombstones (params.manifest dekCommit streams) ctx = .ok () := by
  unfold MaxSecu.checkTombstones
  cases htombstones : ctx.tombstones with
  | none => rfl
  | some ts =>
    obtain ⟨haccount, hfile⟩ := hreads.unrevoked ts htombstones
    have hauthor : (params.manifest dekCommit streams).authorId = params.ownerId := rfl
    have hversion : (params.manifest dekCommit streams).version = FIRST_VERSION := rfl
    simp only [hauthor, hversion, hreads.fileId, haccount, hfile]
    rfl

lemma UploadParams.Reads.checkCompromise (hreads : params.Reads ctx) :
    MaxSecu.checkCompromise ctx.compromise params.genesis = .ok () := by
  unfold MaxSecu.checkCompromise
  cases hcompromise : ctx.compromise with
  | none => rfl
  | some chk =>
    have howner : params.genesis.ownerId = params.ownerId := rfl
    have hkeyVersion : params.genesis.ownerKeyVersion = params.ownerKeyVersion := rfl
    simp only [howner, hkeyVersion]
    cases hcutoff : chk.cutoff params.ownerId params.ownerKeyVersion with
    | none => rfl
    | some cutoff =>
      have hbefore := hreads.uncompromised chk hcompromise cutoff hcutoff
      exact guard_eq_ok.mpr ⟨not_not.mpr hbefore, rfl⟩

end Reading

section Records

variable [Sha256] [Ed25519] [Hkdf] [Aes256Gcm] [Aes256GcmSeal] [Hpke] [HpkeSeal] [X25519]
  [X25519Base] [MlKem768] [MlKem768Encaps] {params : UploadParams} {dek : Dek}
  {streams : PlaintextStreams} {wraps : List WrapOut} {ctx : VerifyContext}
  {records : VersionRecords} {grant : Grant}

omit [Aes256Gcm] [Hpke] [HpkeSeal] [X25519] [X25519Base] [MlKem768] [MlKem768Encaps] in
lemma UploadParams.bundle_wellFormed (params : UploadParams) (dek : Dek)
    (streams : PlaintextStreams) (wraps : List WrapOut) :
    (params.bundle dek streams wraps).manifest.WellFormed := by
  unfold Manifest.WellFormed AscendingList.Ascending
  rw [params.bundle_declared, List.pairwise_map]
  refine streams.pairwise_inputs.imp fun hlt => ?_
  exact UInt8.lt_iff_toNat_lt.mp hlt

omit [HpkeSeal] [X25519Base] [MlKem768Encaps] in
lemma UploadParams.Reads.accepts (hreads : params.Reads ctx) (hsigner : params.owner.sig.Verifies)
    (hsize : ¬ (params.chunkSize < CHUNK_SIZE_MIN ∨ params.chunkSize > CHUNK_SIZE_MAX))
    {w : WrapOut} {ancestors : List (List UInt8 × Bytes 64)}
    (hsigned : (params.bundle dek streams wraps).Signed w ancestors records)
    (hgrant : w.grant.WellFormed)
    (hfields : checkGrantFields w.grant (params.bundle dek streams wraps).manifest ctx = .ok ())
    (hchain : verifyGrantChain w.grant w.grantSig ancestors params.fileId FIRST_VERSION
      ⟨dek.commit⟩ params.ownerId ctx.authorSigPub ctx.granterSigPub (some ctx.adminSigPub) =
        .ok ())
    (hunwrap : unwrapForSuite ctx params.suite w.wrappedDek
      ⟨params.fileId, FIRST_VERSION, ctx.recipientId⟩ = .ok dek) :
    ctx.Accepts records (params.bundle dek streams wraps).manifest params.genesis w.grant dek where
  decodesManifest := by
    rw [hsigned.manifestBytes]
    exact decode_encode (params.bundle_wellFormed dek streams wraps)
  manifestFile := hreads.fileId.symm
  chunkSize := hsize
  manifestSig := by
    rw [hsigned.manifestSig, hreads.authorKey]
    exact hsigner.verify _ _
  decodesGenesis := by
    rw [hsigned.genesisBytes]
    exact decode_encode trivial
  genesisFile := hreads.fileId.symm
  genesisSig := by
    rw [hsigned.genesisSig, hreads.ownerKey]
    exact hsigner.verify _ _
  compromise := hreads.checkCompromise
  author := rfl
  tombstones := hreads.checkTombstones
  version := hreads.current
  decodesGrant := by
    rw [hsigned.grantBytes]
    exact decode_encode hgrant
  grantFields := hfields
  chain := by
    rw [hsigned.grantSig, hsigned.ancestorGrants]
    exact hchain
  unwraps := by
    rw [hsigned.wrappedDek, hreads.fileId]
    exact hunwrap
  commit := rfl

omit [HpkeSeal] [X25519Base] [MlKem768Encaps] [Ed25519] [Hpke] [X25519] [MlKem768] in
lemma openedAll_sealed [Ed25519] (haead : AeadOpens) (hcap : streams.Within params.chunkSize)
    (hsize : 0 < params.chunkSize.toNat) (hfile : ctx.fileId = params.fileId) :
    OpenedAll ctx (params.bundle dek streams wraps).manifest dek
      ((params.bundle dek streams wraps).streams.map fun s => ⟨s.streamType, s.chunks⟩)
      (params.bundle dek streams wraps).manifest.streams
      (streams.inputs.map fun input => ⟨input.1, input.2⟩) := by
  have hsealed := params.bundle_declared dek streams wraps
  have hserved := params.bundle_sealed dek streams wraps
  set served := (params.bundle dek streams wraps).streams.map
    fun s => (⟨s.streamType, s.chunks⟩ : StreamChunks) with hdef
  have htypes : (served.map StreamChunks.streamType).Nodup := by
    rw [hdef, hserved, List.map_map, List.map_map]
    refine List.pairwise_map.mpr (streams.pairwise_inputs.imp fun hlt heq => ?_)
    have hcode := congrArg StreamType.codepoint heq
    exact absurd hcode (UInt8.ne_of_lt hlt)
  rw [hsealed]
  refine List.forall₂_map_left_iff.mpr (List.forall₂_map_right_iff.mpr ?_)
  refine List.forall₂_same.mpr fun input hinput => ⟨rfl, rfl, ?_⟩
  set sealed := sealInput dek params.fileId FIRST_VERSION params.chunkSize input with hsealedInput
  have hmem : (⟨sealed.2.streamType, sealed.2.chunks⟩ : StreamChunks) ∈ served := by
    rw [hdef, hserved, List.map_map]
    exact List.mem_map.mpr ⟨input, hinput, rfl⟩
  refine ⟨⟨sealed.2.streamType, sealed.2.chunks⟩, find?_of_nodup_map htypes hmem,
    length_sealInput_chunks (hcap.length_lt hsize hinput), rfl, ?_⟩
  rw [hfile]
  exact haead.openStream hsize

omit [HpkeSeal] [X25519Base] [MlKem768Encaps] in
lemma VerifyContext.Accepts.opens (haead : AeadOpens) (hcap : streams.Within params.chunkSize)
    {genesis : Genesis} {download : DownloadBundle}
    (haccepts : ctx.Accepts download.toVersionRecords (params.bundle dek streams wraps).manifest
      genesis grant dek)
    (hstreams : download.streams =
      (params.bundle dek streams wraps).streams.map fun s => ⟨s.streamType, s.chunks⟩) :
    ∃ file, verifyAndOpen ctx download = .ok file ∧ file.version = FIRST_VERSION ∧
      file.fileType = params.fileType ∧
      file.streams = streams.inputs.map fun input => ⟨input.1, input.2⟩ := by
  have hsize : 0 < params.chunkSize.toNat := chunkSize_pos haccepts.chunkSize
  have hfile : ctx.fileId = params.fileId := haccepts.manifestFile.symm
  set m := (params.bundle dek streams wraps).manifest with hm
  obtain ⟨rok, hheader⟩ : ∃ rok, verifyHeader ctx download.toVersionRecords = .ok (m, dek, rok) :=
    ⟨_, verifyHeader_eq_ok.mpr ⟨genesis, grant, haccepts, rfl⟩⟩
  have hopened : OpenedAll ctx m dek _ m.streams _ := openedAll_sealed haead hcap hsize hfile
  rw [← hstreams] at hopened
  have haddr : ∀ ms ∈ m.streams, addressable ms.chunkCount m.chunkSize = true := by
    intro ms hms
    exact addressable_iff.mpr (hcap.declared hsize hms)
  exact ⟨⟨m.version, m.fileType, contentDigestOf (.replicate 32 0) m.streams, rok, _⟩,
    verifyAndOpen_eq_ok.mpr ⟨m, dek, rok, hheader, hopened, haddr, rfl, rfl, rfl, rfl⟩, rfl, rfl,
    rfl⟩

end Records

/-! ## What the server takes and serves -/

section Serving

variable [Sha256] [Ed25519] [Hkdf] [Aes256GcmSeal] (params : UploadParams) (dek : Dek)
  (streams : PlaintextStreams) (own recovery : WrappedDek) (flags : StageFlags)

/-- The wraps of an upload, with these two sealed keys. -/
def UploadParams.wraps : List WrapOut :=
  [wrapOut params.owner.sig (params.request dek dek.commit params.ownerId .user) own,
    wrapOut params.owner.sig (params.request dek dek.commit RECOVERY_ID .recovery) recovery]

def UploadParams.parsed : ParsedStage :=
  let bundle := params.bundle dek streams (params.wraps dek own recovery)
  let input := bundle.stageInput flags params.ownerId
  { fileId := params.fileId
    fileType := Files.column params.fileType.codepoint
    version := FIRST_VERSION
    authorId := params.ownerId
    alg := Files.suiteColumn params.suite
    manifestBytes := encode bundle.manifest
    manifestSig := bundle.manifestSig
    genesis := some
      ⟨params.ownerId, params.ownerKeyVersion, encode params.genesis, bundle.genesisSig⟩
    streams := bundle.manifest.streams.map (Files.streamRow input bundle.manifest)
    wraps := (params.wraps dek own recovery).map WrapOut.input
    recoveryPresent := true
    listed := flags.listed
    bundleId := flags.bundleId }

variable {params dek streams own recovery}

omit [Sha256] [Aes256GcmSeal] in
lemma UploadParams.isHalfShape_wraps (hid : params.ownerId ≠ RECOVERY_ID) :
    ((params.wraps dek own recovery).map WrapOut.input).any WrapInput.isHalfShape = false := by
  have huser : recipientTypeColumn .user ≠ 2 := by decide
  have howner : (wrapOut params.owner.sig (params.request dek dek.commit params.ownerId .user)
      own).input.isHalfShape = false := WrapInput.isHalfShape_eq_false.mpr
    ⟨fun htype => absurd htype huser, fun hrecovery => absurd hrecovery hid⟩
  have hrecovery : (wrapOut params.owner.sig (params.request dek dek.commit RECOVERY_ID .recovery)
      recovery).input.isHalfShape = false := WrapInput.isHalfShape_eq_false.mpr
    ⟨fun _ => rfl, fun _ => rfl⟩
  unfold UploadParams.wraps
  rw [List.map_cons, List.map_cons, List.map_nil, List.any_cons, List.any_cons, List.any_nil,
    howner, hrecovery]
  rfl

lemma UploadParams.parseStage
    (hsize : ¬ (params.chunkSize < CHUNK_SIZE_MIN ∨ params.chunkSize > CHUNK_SIZE_MAX))
    (hid : params.ownerId ≠ RECOVERY_ID) (hcap : streams.Within params.chunkSize) :
    Files.parseStage ((params.bundle dek streams (params.wraps dek own recovery)).stageInput flags
      params.ownerId) = .ok (params.parsed dek streams own recovery flags) := by
  set bundle := params.bundle dek streams (params.wraps dek own recovery) with hbundle
  have hmanifest : decode Manifest (encode bundle.manifest) = .ok bundle.manifest :=
    decode_encode (params.bundle_wellFormed dek streams _)
  have hgenesis : decode Genesis (encode params.genesis) = .ok params.genesis :=
    decode_encode trivial
  have hparsed : Files.parseGenesis (bundle.stageInput flags params.ownerId) FIRST_VERSION = .ok
      (some ⟨params.ownerId, params.ownerKeyVersion, encode params.genesis, bundle.genesisSig⟩) := by
    have hinput : (bundle.stageInput flags params.ownerId).genesis =
        some ⟨encode params.genesis, bundle.genesisSig⟩ := rfl
    unfold Files.parseGenesis
    rw [hinput, Option.elim_some]
    simp only [guard_eq_ok, bind_eq_ok, mapError_eq_ok, pure_eq_ok, not_not]
    exact ⟨rfl, _, hgenesis, rfl, rfl, rfl⟩
  have hbound : bundle.manifest.streams.any (Files.oversized bundle.manifest.chunkSize) = false :=
    hcap.not_oversized (chunkSize_pos hsize)
  have hwhole : (bundle.stageInput flags params.ownerId).wraps.any WrapInput.isHalfShape = false :=
    UploadParams.isHalfShape_wraps hid
  have hrecovery : (bundle.stageInput flags params.ownerId).wraps.any WrapInput.isRecovery =
      true := by
    refine List.any_eq_true.mpr ⟨_, List.mem_map_of_mem (List.mem_cons_of_mem _
      (List.mem_singleton_self _)), ?_⟩
    exact decide_eq_true ⟨rfl, rfl⟩
  unfold Files.parseStage
  simp only [bind_eq_ok, guard_eq_ok, pure_eq_ok, mapError_eq_ok, not_not, Bool.not_eq_true]
  exact ⟨bundle.manifest, hmanifest, rfl, hsize, hbound, rfl, hwhole, by rw [hrecovery]; simp, rfl,
    _, hparsed, rfl⟩

end Serving

/-! ## There and back -/

section RoundTrip

variable [Sha256] [Ed25519] [Hkdf] [Aes256Gcm] [Aes256GcmSeal] [Hpke] [HpkeSeal] [X25519]
  [X25519Base] [MlKem768] [MlKem768Encaps]

/-- The two recipients of an upload, each with private keys to the public keys it was made to. -/
inductive UploadParams.Addressee (params : UploadParams) :
    Id → RecipientType → EncSecretKey → Option (Bytes 64) → Prop
  | owner {sk : EncSecretKey} {seed : Option (Bytes 64)} :
      HoldsKeys sk seed params.owner.encPk params.owner.mlkemPubBytes →
      params.Addressee params.ownerId .user sk seed
  | recovery {sk : EncSecretKey} {seed : Option (Bytes 64)} :
      HoldsKeys sk seed params.recoveryPub params.recoveryMlkemPub →
      params.Addressee RECOVERY_ID .recovery sk seed

/-- The chunks of the upload are there to be fetched. -/
def UploadBundle.Stored (bundle : UploadBundle) (source : ChunkSource) : Prop :=
  ∀ s ∈ bundle.streams, ∀ i c, s.chunks[i]? = some c →
    source s.streamType (UInt64.ofNat i) = .ok c

/-- What a server that kept the chunks answers. -/
def UploadBundle.source (bundle : UploadBundle) : ChunkSource := fun type i =>
  (bundle.streams.find? fun s => s.streamType = type).elim (throw badRecord) fun s =>
    s.chunks[i.toNat]?.elim (throw badRecord) pure

/-- The reader is served the file, and opens it to what was uploaded. -/
def UploadParams.OpensFor (params : UploadParams) (streams : PlaintextStreams) (files : FileStore)
    (source : ChunkSource) (ctx : VerifyContext) : Prop :=
  ∃ view parsed download file,
    files.getFile params.fileId .latest ctx.recipientId = some view ∧
      parseFileView view = .ok parsed ∧ buildDownloadBundle source parsed = .ok download ∧
      verifyAndOpen ctx download = .ok file ∧ file.version = FIRST_VERSION ∧
      file.fileType = params.fileType ∧
      file.streams = streams.inputs.map fun input => ⟨input.1, input.2⟩

/-- The server stages the upload, and once it is committed both recipients open it. -/
def UploadParams.RoundTrips (params : UploadParams) (streams : PlaintextStreams)
    (bundle : UploadBundle) : Prop :=
  ∀ flags, ∃ p, Files.parseStage (bundle.stageInput flags params.ownerId) = .ok p ∧
    ∀ (files : FileStore) stagedMs finalizedMs, files.lookup params.fileId = none →
      ∃ staged committed,
        runFrom (FileStore.stageVersion p stagedMs) files = (.ok FIRST_VERSION, staged) ∧
        runFrom (FileStore.finalizeVersion params.fileId FIRST_VERSION params.ownerId finalizedMs)
          staged = (.ok (), committed) ∧
        ∀ ctx source, params.Reads ctx → params.Addressee ctx.recipientId ctx.recipientType
            ctx.recipientSecret ctx.recipientMlkemSeed → bundle.Stored source →
          params.OpensFor streams committed source ctx

variable {params : UploadParams} {dek : Dek} {streams : PlaintextStreams} {own recovery : WrappedDek}
  {ctx : VerifyContext}

omit [Sha256] [Ed25519] [Hpke] [HpkeSeal] [X25519Base] [Aes256GcmSeal] [MlKem768Encaps] in
lemma WrappedDek.OpensUnder.unwraps [Hpke] {wrapped : WrappedDek} {suite : Suite}
    {wrapCtx : WrapContext}
    (h : wrapped.OpensUnder suite ctx.recipientSecret ctx.recipientMlkemSeed wrapCtx dek) :
    unwrapForSuite ctx suite wrapped wrapCtx = .ok dek := by
  unfold unwrapForSuite
  cases suite with
  | v1 => exact mapError_eq_ok.mpr h
  | v2 =>
    obtain ⟨seed, hybrid, hseed, hunpack, hopen⟩ := h
    exact bind_eq_ok.mpr ⟨seed, elim_eq_ok.mpr hseed, bind_eq_ok.mpr ⟨hybrid,
      mapError_eq_ok.mpr hunpack, mapError_eq_ok.mpr hopen⟩⟩

omit [Sha256] [Hkdf] [Aes256Gcm] [Aes256GcmSeal] [Hpke] [HpkeSeal] [X25519] [X25519Base] [MlKem768]
  [MlKem768Encaps] in
lemma verifyGrantChain_author {g : Grant} {sig : Bytes 64} {fileId authorId : Id} {version : UInt64}
    {dekCommit : Hash} {authorPub : Bytes 32} {granters : Id → Option (Bytes 32)}
    {admins : Option (Id → Option (Bytes 32))} (hgranter : g.grantedBy = authorId)
    (hsig : verify authorPub Label.grant.text g sig = true) :
    verifyGrantChain g sig [] fileId version dekCommit authorId authorPub granters admins =
      .ok () := by
  unfold verifyGrantChain
  refine bind_eq_ok.mpr ⟨fun _ => none, pure_eq_ok.mpr rfl, ?_⟩
  unfold walkGrantChain
  rw [if_pos hgranter, guard_eq_ok, not_not]
  exact ⟨hsig, rfl⟩

omit [Sha256] in
lemma UploadParams.Addressee.find_wrap (haead : AeadOpens)
    {rand : ℕ → WrapEntropy} (hwraps : standingWraps rand dek dek.commit params =
      .ok (params.wraps dek own recovery)) (hid : params.ownerId ≠ RECOVERY_ID) {id : Id}
    {type : RecipientType} {sk : EncSecretKey} {seed : Option (Bytes 64)}
    (haddressee : params.Addressee id type sk seed) :
    ∃ wrapped, (((params.wraps dek own recovery).map WrapOut.input).find? fun w =>
        w.recipientId = id) =
          some (wrapOut params.owner.sig (params.request dek dek.commit id type) wrapped).input ∧
      (params.request dek dek.commit id type).grant.WellFormed ∧
      wrapped.OpensUnder params.suite sk seed ⟨params.fileId, FIRST_VERSION, id⟩ dek := by
  obtain ⟨own', recovery', hlist, hown, hrecovery⟩ := standingWraps_eq_ok haead hwraps
  unfold UploadParams.wraps at hlist
  obtain ⟨hsame, hlist⟩ := List.cons.inj hlist
  obtain ⟨hsame', -⟩ := List.cons.inj hlist
  obtain rfl : own = own' := congrArg WrapOut.wrappedDek hsame
  obtain rfl : recovery = recovery' := congrArg WrapOut.wrappedDek hsame'
  unfold UploadParams.wraps
  rw [List.map_cons, List.map_cons, List.map_nil]
  cases haddressee with
  | owner hkeys =>
    have hgrant : (params.request dek dek.commit params.ownerId .user).grant.WellFormed := by
      intro htype
      cases htype
    exact ⟨own, List.find?_cons_of_pos (decide_eq_true rfl), hgrant, hown sk seed hkeys⟩
  | recovery hkeys =>
    have hgrant : (params.request dek dek.commit RECOVERY_ID .recovery).grant.WellFormed :=
      fun _ => rfl
    refine ⟨recovery, ?_, hgrant, hrecovery sk seed hkeys⟩
    have hother : ¬ decide ((wrapOut params.owner.sig (params.request dek dek.commit
        params.ownerId .user) own).input.recipientId = RECOVERY_ID) = true :=
      fun heq => hid (of_decide_eq_true heq)
    rw [List.find?_cons_of_neg (p := fun w : WrapInput => w.recipientId = RECOVERY_ID) hother]
    exact List.find?_cons_of_pos (decide_eq_true rfl)

omit [Aes256Gcm] [Hpke] [HpkeSeal] [X25519] [X25519Base] [MlKem768] [MlKem768Encaps] in
lemma UploadBundle.Stored.fetches {source : ChunkSource} {wraps : List WrapOut}
    (hstored : (params.bundle dek streams wraps).Stored source)
    (hcap : streams.Within params.chunkSize) (hsize : 0 < params.chunkSize.toNat)
    {parsed : ParsedView} (hspecs : parsed.streams =
      (params.bundle dek streams wraps).manifest.streams.map (Stream.spec params.chunkSize)) :
    buildDownloadBundle source parsed = .ok { parsed.records with
      streams := (params.bundle dek streams wraps).streams.map fun s =>
        ⟨s.streamType, s.chunks⟩ } := by
  have hsealed := params.bundle_declared dek streams wraps
  have hserved := params.bundle_sealed dek streams wraps
  refine bind_eq_ok.mpr ⟨_, mapM_eq_ok.mpr ?_, rfl⟩
  rw [hspecs, hsealed, hserved, List.map_map, List.map_map]
  refine List.forall₂_map_left_iff.mpr (List.forall₂_map_right_iff.mpr ?_)
  refine List.forall₂_same.mpr fun input hinput => ?_
  refine fetchStreamChunks_eq_ok (length_sealInput_chunks (hcap.length_lt hsize hinput)) ?_
  intro i c hc
  refine hstored (sealInput dek params.fileId FIRST_VERSION params.chunkSize input).2 ?_ i c hc
  rw [hserved]
  exact List.mem_map.mpr ⟨input, hinput, rfl⟩

omit [Aes256Gcm] [Hpke] [HpkeSeal] [X25519] [X25519Base] [MlKem768] [MlKem768Encaps] in
lemma UploadParams.stored_source {wraps : List WrapOut} (hcap : streams.Within params.chunkSize)
    (hsize : 0 < params.chunkSize.toNat) :
    (params.bundle dek streams wraps).Stored (params.bundle dek streams wraps).source := by
  have hsealed := params.bundle_sealed dek streams wraps
  have htypes : ((params.bundle dek streams wraps).streams.map
      SealedStreamOut.streamType).Nodup := by
    rw [hsealed, List.map_map]
    refine List.pairwise_map.mpr (streams.pairwise_inputs.imp fun hlt heq => ?_)
    exact absurd (congrArg StreamType.codepoint heq) (UInt8.ne_of_lt hlt)
  intro s hs i c hc
  have hcount : s.chunks.length < 2 ^ 64 := by
    rw [hsealed] at hs
    obtain ⟨input, hinput, rfl⟩ := List.mem_map.mp hs
    rw [length_sealInput_chunks (hcap.length_lt hsize hinput)]
    exact UInt64.toNat_lt _
  have hi : i < s.chunks.length := (List.getElem?_eq_some_iff.mp hc).1
  unfold UploadBundle.source
  rw [find?_of_nodup_map htypes hs, Option.elim_some, UInt64.toNat_ofNat',
    Nat.mod_eq_of_lt (by omega), hc]
  rfl

omit [HpkeSeal] [X25519Base] [MlKem768Encaps] in
/-- A view of an upload that serves a grant of the owner to the reader, and a wrap that the reader's
keys open, is accepted and opens to what was uploaded. -/
lemma FileView.Shows.opens (haead : AeadOpens) {wraps : List WrapOut} {view : FileView}
    {w : WrapOut} {source : ChunkSource}
    (hshows : view.Shows (params.bundle dek streams wraps) w)
    (hsigner : params.owner.sig.Verifies)
    (hsize : ¬ (params.chunkSize < CHUNK_SIZE_MIN ∨ params.chunkSize > CHUNK_SIZE_MAX))
    (hcap : streams.Within params.chunkSize)
    (hstored : (params.bundle dek streams wraps).Stored source)
    (hreads : params.Reads ctx) (hancestors : view.myWrap.ancestorGrants = [])
    (hgrant : w.grant.WellFormed) (hgranter : w.grant.grantedBy = params.ownerId)
    (hsig : w.grantSig = params.owner.sig.signCanonical Label.grant.text w.grant)
    (hfields : checkGrantFields w.grant (params.bundle dek streams wraps).manifest ctx = .ok ())
    (hopens : w.wrappedDek.OpensUnder params.suite ctx.recipientSecret ctx.recipientMlkemSeed
      ⟨params.fileId, FIRST_VERSION, ctx.recipientId⟩ dek) :
    ∃ parsed download file, parseFileView view = .ok parsed ∧
      ctx.Accepts parsed.records (params.bundle dek streams wraps).manifest params.genesis w.grant
        dek ∧
      parsed.streams = (params.bundle dek streams wraps).manifest.streams.map
        (Stream.spec params.chunkSize) ∧
      buildDownloadBundle source parsed = .ok download ∧ verifyAndOpen ctx download = .ok file ∧
      file.version = FIRST_VERSION ∧ file.fileType = params.fileType ∧
      file.streams = streams.inputs.map fun input => ⟨input.1, input.2⟩ := by
  obtain ⟨parsed, hparse, hsigned, hspecs⟩ := hshows.parses
  rw [hancestors] at hsigned
  have hdownload := hstored.fetches hcap (chunkSize_pos hsize) hspecs
  have hchain : verifyGrantChain w.grant w.grantSig [] params.fileId FIRST_VERSION ⟨dek.commit⟩
      params.ownerId ctx.authorSigPub ctx.granterSigPub (some ctx.adminSigPub) = .ok () := by
    refine verifyGrantChain_author hgranter ?_
    rw [hreads.authorKey, hsig]
    exact hsigner.verify _ _
  have haccepts := hreads.accepts hsigner hsize hsigned hgrant hfields hchain hopens.unwraps
  set download : DownloadBundle := { parsed.records with
    streams := (params.bundle dek streams wraps).streams.map fun s =>
      ⟨s.streamType, s.chunks⟩ } with hdl
  obtain ⟨file, hfile⟩ : ∃ file, verifyAndOpen ctx download = .ok file ∧
      file.version = FIRST_VERSION ∧ file.fileType = params.fileType ∧
      file.streams = streams.inputs.map fun input => ⟨input.1, input.2⟩ :=
    VerifyContext.Accepts.opens haead hcap haccepts rfl
  exact ⟨parsed, download, file, hparse, haccepts, hspecs, hdownload, hfile⟩

/-- **Upload then download is the identity.**  An upload that was built is staged by the server and,
once committed, opens for the owner and for the recovery recipient with the file type, the version
and the plaintext of every stream, unless the owner has the id of the recovery recipient or a stream
has more than 256 GiB of frames. -/
theorem buildUpload_roundTrips (haead : AeadOpens) {rand : ℕ → WrapEntropy} {bundle : UploadBundle}
    (hsigner : params.owner.sig.Verifies)
    (hbuild : buildUploadInner rand dek params streams = .ok bundle)
    (hid : params.ownerId ≠ RECOVERY_ID) (hcap : streams.Within params.chunkSize) :
    params.RoundTrips streams bundle := by
  obtain ⟨hsize, wraps, hwraps, rfl⟩ := buildUploadInner_eq_ok.mp hbuild
  obtain ⟨own, recovery, rfl⟩ : ∃ own recovery, params.wraps dek own recovery = wraps := by
    obtain ⟨own, recovery, hlist, -, -⟩ := standingWraps_eq_ok haead hwraps
    exact ⟨own, recovery, hlist.symm⟩
  intro flags
  refine ⟨_, UploadParams.parseStage flags hsize hid hcap, ?_⟩
  intro files stagedMs finalizedMs hnew
  set p := params.parsed dek streams own recovery flags with hp
  obtain ⟨staged, committed, hstaged, hcommitted, hserves⟩ :=
    Restage.create_serves (p := p) hnew rfl rfl (UploadParams.isHalfShape_wraps hid)
      (List.cons_ne_nil _ _) stagedMs finalizedMs
  refine ⟨staged, committed, hstaged, hcommitted, ?_⟩
  intro ctx source hreads haddressee hstored
  obtain ⟨wrapped, hfind, hgrant, hopens⟩ := haddressee.find_wrap haead hwraps hid
  set w := wrapOut params.owner.sig
    (params.request dek dek.commit ctx.recipientId ctx.recipientType) wrapped with hw
  -- what the server serves: the upload, the reader's wrap, and no ancestors of a grant of the owner
  obtain ⟨view, hview, hshows, hancestors⟩ : ∃ view,
      committed.getFile params.fileId .latest ctx.recipientId = some view ∧
        view.Shows (params.bundle dek streams (params.wraps dek own recovery)) w ∧
        view.myWrap.ancestorGrants = [] := by
    obtain ⟨g, hg, hfile⟩ := hserves.file
    obtain rfl := Option.some.inj hg
    have hmy : (p.wraps.find? fun w => w.recipientId = ctx.recipientId) = some w.input := hfind
    have hview := (hfile ctx.recipientId).1
    unfold ParsedStage.view at hview
    rw [hmy, Option.map_some] at hview
    refine ⟨_, hview, ⟨rfl, rfl, rfl, rfl, rfl, rfl, rfl, _, rfl⟩, ?_⟩
    show ancestorWalk _ params.ownerId MAX_ANCESTOR_CHAIN [] params.ownerId = []
    unfold MAX_ANCESTOR_CHAIN ancestorWalk
    exact if_pos (.inl rfl)
  have hfields : checkGrantFields w.grant
      (params.bundle dek streams (params.wraps dek own recovery)).manifest ctx = .ok () :=
    checkGrantFields_eq_ok.mpr ⟨hreads.fileId.symm, rfl, rfl, rfl, rfl⟩
  obtain ⟨parsed, download, file, hparse, -, -, hdownload, hfile⟩ := hshows.opens haead hsigner
    hsize hcap hstored hreads hancestors hgrant rfl rfl hfields hopens
  exact ⟨view, parsed, download, file, hview, hparse, hdownload, hfile⟩

end RoundTrip

/-! ## An upload that is read, and two that are refused -/

/-- An owner with no ML-KEM keys uploads a file. -/
def plainUpload (ownerId : Id) : UploadParams where
  owner := ⟨⟨.replicate 32 1⟩, ⟨.replicate 32 1⟩, ⟨.replicate 32 1⟩, none⟩
  ownerId := ownerId
  ownerKeyVersion := 1
  fileId := ⟨.replicate 16 5⟩
  fileType := .generic
  chunkSize := CHUNK_SIZE_MIN
  recoveryPub := ⟨.replicate 32 2⟩
  recoveryMlkemPub := none
  createdAt := ⟨0⟩

/-- A file with this content and nothing else. -/
def contentOnly (content : List UInt8) : PlaintextStreams := ⟨content, none, none, none⟩

section ClosedRuns

open ClosedRuns

def plainEntropy : ℕ → WrapEntropy := fun _ => ⟨.replicate 32 0, .replicate 32 0, .replicate 32 0⟩

def plainDek : Dek := ⟨.replicate 32 9⟩

lemma exists_buildUploadInner (ownerId : Id) (streams : PlaintextStreams) :
    ∃ bundle, buildUploadInner plainEntropy plainDek (plainUpload ownerId) streams = .ok bundle := by
  have hsize : ¬ ((plainUpload ownerId).chunkSize < CHUNK_SIZE_MIN ∨
      (plainUpload ownerId).chunkSize > CHUNK_SIZE_MAX) := by
    show ¬ (CHUNK_SIZE_MIN < CHUNK_SIZE_MIN ∨ CHUNK_SIZE_MIN > CHUNK_SIZE_MAX)
    decide
  have hwraps : ∃ wraps, standingWraps plainEntropy plainDek plainDek.commit
      (plainUpload ownerId) = .ok wraps := ⟨_, rfl⟩
  obtain ⟨wraps, hwraps⟩ := hwraps
  exact ⟨_, buildUploadInner_eq_ok.mpr ⟨hsize, wraps, hwraps, rfl⟩⟩

def ownerReads (ownerId : Id) : VerifyContext where
  fileId := ⟨.replicate 16 5⟩
  authorSigPub := .replicate 32 1
  ownerSigPub := .replicate 32 1
  recipientId := ownerId
  recipientType := .user
  recipientSecret := ⟨.replicate 32 1⟩
  recipientMlkemSeed := none
  seenMaxVersion := none
  granterSigPub := fun _ => none
  adminSigPub := fun _ => none
  tombstones := none
  compromise := none

lemma within_contentOnly {content : List UInt8} (hshort : content.length < 2 ^ 20)
    (ownerId : Id) : (contentOnly content).Within (plainUpload ownerId).chunkSize := by
  intro input hinput
  obtain rfl : input = (.content, content) := List.mem_singleton.mp hinput
  have hchunk : (plainUpload ownerId).chunkSize.toNat = 4096 := by
    show CHUNK_SIZE_MIN.toNat = 4096
    decide
  have hmax : Files.MAX_ADDRESSABLE_BYTES = 2 ^ 38 := by decide
  rw [hchunk, hmax]
  have hframes : (framesOf 4096 content).length ≤ content.length + 1 :=
    length_framesOf_le (by decide)
  show (framesOf 4096 content).length * 4096 ≤ 2 ^ 38
  omega

/-- Two bytes go up, and the owner reads them. -/
theorem buildUpload_roundTrips_twoBytes : ∃ bundle p staged committed,
    buildUploadInner plainEntropy plainDek (plainUpload ⟨.replicate 16 1⟩) (contentOnly [1, 2]) =
        .ok bundle ∧
      Files.parseStage (bundle.stageInput ⟨true, none⟩ ⟨.replicate 16 1⟩) = .ok p ∧
      runFrom (FileStore.stageVersion p 0) ∅ = (.ok FIRST_VERSION, staged) ∧
      runFrom (FileStore.finalizeVersion ⟨.replicate 16 5⟩ FIRST_VERSION ⟨.replicate 16 1⟩ 0)
        staged = (.ok (), committed) ∧
      (plainUpload ⟨.replicate 16 1⟩).OpensFor (contentOnly [1, 2]) committed bundle.source
        (ownerReads ⟨.replicate 16 1⟩) := by
  obtain ⟨bundle, hbuild⟩ := exists_buildUploadInner ⟨.replicate 16 1⟩ (contentOnly [1, 2])
  have hcap := within_contentOnly (show [1, 2].length < 2 ^ 20 by decide) ⟨.replicate 16 1⟩
  have hreads : (plainUpload ⟨.replicate 16 1⟩).Reads (ownerReads ⟨.replicate 16 1⟩) :=
    ⟨rfl, rfl, rfl, rfl, by simp [ownerReads], by simp [ownerReads]⟩
  have hstored : bundle.Stored bundle.source := by
    obtain ⟨hsize, wraps, -, rfl⟩ := buildUploadInner_eq_ok.mp hbuild
    exact UploadParams.stored_source hcap (chunkSize_pos hsize)
  obtain ⟨p, hparse, hserve⟩ := buildUpload_roundTrips aeadOpens (verifies _) hbuild (by decide)
    hcap ⟨true, none⟩
  obtain ⟨staged, committed, hstaged, hcommitted, hopens⟩ := hserve ∅ 0 0 rfl
  exact ⟨bundle, p, staged, committed, hbuild, hparse, hstaged, hcommitted,
    hopens _ _ hreads (.owner (holdsKeys fun _ => rfl)) hstored⟩

lemma not_roundTrips_recoveryOwner {bundle : UploadBundle} {streams : PlaintextStreams}
    (hbuild : buildUploadInner plainEntropy plainDek (plainUpload RECOVERY_ID) streams =
      .ok bundle) : ¬ (plainUpload RECOVERY_ID).RoundTrips streams bundle := by
  intro hroundTrips
  obtain ⟨p, hparse, -⟩ := hroundTrips ⟨true, none⟩
  obtain ⟨-, wraps, hwraps, rfl⟩ := buildUploadInner_eq_ok.mp hbuild
  obtain ⟨own, recovery, rfl, -, -⟩ := standingWraps_eq_ok aeadOpens hwraps
  have hwell := Files.parseStage_spec hparse
  have hwhole := hwell.wraps (wrapOut (plainUpload RECOVERY_ID).owner.sig
    ((plainUpload RECOVERY_ID).request plainDek plainDek.commit RECOVERY_ID .user) own).input (by
      rw [hwell.posted]
      exact List.mem_cons_self ..)
  have hrecovery := (WrapInput.isHalfShape_eq_false.mp hwhole).mpr rfl
  have huser : recipientTypeColumn .user ≠ 2 := by decide
  exact huser hrecovery

lemma declared_oversized {ownerId : Id} {content : List UInt8} (hbig : 2 ^ 38 < content.length)
    (hlt : content.length < 2 ^ 63) (wraps : List WrapOut) :
    ∃ ms ∈ ((plainUpload ownerId).bundle plainDek (contentOnly content) wraps).manifest.streams,
      2 ^ 38 < ms.chunkCount.toNat * (plainUpload ownerId).chunkSize.toNat := by
  rw [UploadParams.bundle_declared]
  refine ⟨_, List.mem_map_of_mem (List.mem_singleton_self _), ?_⟩
  have hchunk : (plainUpload ownerId).chunkSize.toNat = 4096 := by
    show CHUNK_SIZE_MIN.toNat = 4096
    decide
  have hframes : (framesOf 4096 content).length ≤ content.length + 1 :=
    length_framesOf_le (by decide)
  have hfull : content.length ≤ (framesOf 4096 content).length * 4096 :=
    length_le_framesOf (by decide)
  show 2 ^ 38 < (UInt64.ofNat (framesOf (plainUpload ownerId).chunkSize.toNat content).length).toNat *
    (plainUpload ownerId).chunkSize.toNat
  rw [hchunk, UInt64.toNat_ofNat', Nat.mod_eq_of_lt (by omega)]
  omega

section Oversized

variable {bundle : UploadBundle} {ownerId : Id} {content : List UInt8}
  (hbig : 2 ^ 38 < content.length) (hlt : content.length < 2 ^ 63)
  (hbuild : buildUploadInner plainEntropy plainDek (plainUpload ownerId) (contentOnly content) =
    .ok bundle)

include hbig hlt hbuild

lemma not_roundTrips_oversized :
    ¬ (plainUpload ownerId).RoundTrips (contentOnly content) bundle := by
  intro hroundTrips
  obtain ⟨p, hparse, -⟩ := hroundTrips ⟨true, none⟩
  obtain ⟨-, wraps, -, rfl⟩ := buildUploadInner_eq_ok.mp hbuild
  obtain ⟨ms, hms, hover⟩ := declared_oversized hbig hlt wraps
  unfold Files.parseStage at hparse
  simp only [bind_eq_ok, guard_eq_ok, mapError_eq_ok] at hparse
  obtain ⟨m, hm, -, -, hbound, -⟩ := hparse
  obtain rfl := Except.ok.inj (hm.symm.trans (decode_encode (UploadParams.bundle_wellFormed _ _ _ _)))
  refine hbound (List.any_eq_true.mpr ⟨ms, hms, ?_⟩)
  have hmax : Files.MAX_ADDRESSABLE_BYTES = 2 ^ 38 := by decide
  unfold Files.oversized
  rw [hmax, decide_eq_true_eq]
  exact .inr hover

lemma not_opens_oversized {ctx : VerifyContext} {download : DownloadBundle}
    (hmanifest : download.manifestBytes = encode bundle.manifest) (file : OpenedFile) :
    verifyAndOpen ctx download ≠ .ok file := by
  intro hopen
  obtain ⟨-, wraps, -, rfl⟩ := buildUploadInner_eq_ok.mp hbuild
  obtain ⟨ms, hms, hover⟩ := declared_oversized hbig hlt wraps
  obtain ⟨m, _, _, hheader, -, haddr, -⟩ := verifyAndOpen_eq_ok.mp hopen
  have hm := verifyHeader_manifest hheader
  rw [hmanifest, decode_encode (UploadParams.bundle_wellFormed _ _ _ _)] at hm
  obtain rfl := Except.ok.inj hm
  have hcap := addressable_iff.mp (haddr ms hms)
  exact absurd hover (Nat.not_lt.mpr hcap)

end Oversized

/-- An owner with the recovery id, and a content of more than 256 GiB: either upload is built and
refused by the server, and the second by every reader too. -/
theorem buildUpload_refused :
    (¬ ∀ rand dek params streams bundle, params.owner.sig.Verifies →
      buildUploadInner rand dek params streams = .ok bundle → streams.Within params.chunkSize →
        params.RoundTrips streams bundle) ∧
    (¬ ∀ rand dek params streams bundle, params.owner.sig.Verifies →
      buildUploadInner rand dek params streams = .ok bundle → params.ownerId ≠ RECOVERY_ID →
        params.RoundTrips streams bundle) ∧
    ∃ rand dek params streams bundle, buildUploadInner rand dek params streams = .ok bundle ∧
      params.ownerId ≠ RECOVERY_ID ∧ ∀ ctx (download : DownloadBundle) file,
        download.manifestBytes = encode bundle.manifest → verifyAndOpen ctx download ≠ .ok file := by
  obtain ⟨content, hlength⟩ : ∃ content : List UInt8, content.length = 2 ^ 38 + 1 :=
    ⟨List.replicate (2 ^ 38 + 1) 0, List.length_replicate⟩
  have hother : (plainUpload ⟨.replicate 16 1⟩).ownerId ≠ RECOVERY_ID := by decide
  obtain ⟨small, hsmall⟩ := exists_buildUploadInner RECOVERY_ID (contentOnly [1, 2])
  obtain ⟨large, hlarge⟩ := exists_buildUploadInner ⟨.replicate 16 1⟩ (contentOnly content)
  refine ⟨fun hclaim => ?_, fun hclaim => ?_, _, _, _, _, large, hlarge, hother, ?_⟩
  · exact not_roundTrips_recoveryOwner hsmall (hclaim _ _ _ _ _ (verifies _) hsmall
      (within_contentOnly (by decide) _))
  · exact not_roundTrips_oversized (by omega) (by omega) hlarge
      (hclaim _ _ _ _ _ (verifies _) hlarge hother)
  · intro ctx download file hmanifest
    exact not_opens_oversized (by omega) (by omega) hlarge hmanifest file

end ClosedRuns

end MaxSecu
