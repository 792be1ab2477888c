import MaxSecu.App.ShareRuns
import MaxSecu.Server.Escrow

/-!
# What uploads and shares leave on the server

An upload leaves a file of one version with two wraps, and a share adds or replaces a wrap.  While
only owners share, every wrap on the server is the owner's and opens for its user, and every batch
that is prepared has the key of its file.
-/

namespace MaxSecu

open ExceptRules AssociationList

/-! ## An upload and its rows -/

structure Upload where
  params : UploadParams
  dek : Dek
  streams : PlaintextStreams
  own : WrappedDek
  recovery : WrappedDek

lemma FileStore.getFile_of_lookup {files files' : FileStore} {fileId callerId : Id}
    {selector : VersionSelector} (h : files'.lookup fileId = files.lookup fileId) :
    files'.getFile fileId selector callerId = files.getFile fileId selector callerId := by
  unfold FileStore.getFile
  rw [h]

section Rows

variable [Sha256] [Ed25519] [Hkdf] [Aes256GcmSeal]

namespace Upload

variable (u : Upload)

def wraps : List WrapOut := u.params.wraps u.dek u.own u.recovery

def bundle : UploadBundle := u.params.bundle u.dek u.streams u.wraps

/-- A wrap by the owner to a user, or to the recovery recipient. -/
def request (createdAt : Timestamp) (r : Id) : WrapRequest where
  fileId := u.params.fileId
  version := FIRST_VERSION
  recipientId := r
  recipientType := if r = RECOVERY_ID then .recovery else .user
  dek := u.dek
  dekCommit := u.dek.commit
  grantedBy := u.params.ownerId
  createdAt := createdAt

/-- The file has one version, which is the upload but for the wraps. -/
structure Rows (entry : FileEntry) (ver : VersionEntry) : Prop where
  ownerId : entry.ownerId = u.params.ownerId
  current : entry.currentVersion = FIRST_VERSION
  genesisBytes : entry.genesisBytes = encode u.bundle.genesis
  genesisSig : entry.genesisSig = u.bundle.genesisSig
  version : entry.versions.lookup FIRST_VERSION = some ver
  finalized : ver.finalized = true
  manifestBytes : ver.manifestBytes = encode u.bundle.manifest
  manifestSig : ver.manifestSig = u.bundle.manifestSig
  streams : ∃ input, ver.streams =
    u.bundle.manifest.streams.map (Files.streamRow input u.bundle.manifest)
  whole : ∀ w ∈ ver.wraps, w.isHalfShape = false

end Upload

variable {u : Upload} {entry : FileEntry} {ver : VersionEntry} {files : FileStore} {fileId r : Id}
  {row wrap : WrapInput} {nowMs : UInt64}

namespace Upload.Rows

lemma currentVersion_ne (h : u.Rows entry ver) : entry.currentVersion ≠ 0 := by
  rw [h.current]
  decide

lemma lookup_current (h : u.Rows entry ver) :
    entry.versions.lookup entry.currentVersion = some ver := by
  rw [h.current]
  exact h.version

lemma addWrap (h : u.Rows entry ver) (hshape : wrap.isHalfShape = false) (nowMs : UInt64) :
    u.Rows (entry.addWrap wrap nowMs) (ver.addWrap wrap) where
  ownerId := h.ownerId
  current := h.current
  genesisBytes := h.genesisBytes
  genesisSig := h.genesisSig
  version := by
    rw [FileEntry.lookup_addWrap, if_pos h.current.symm, h.lookup_current]
    rfl
  finalized := h.finalized
  manifestBytes := h.manifestBytes
  manifestSig := h.manifestSig
  streams := h.streams
  whole := by
    intro w hw
    obtain hw | hw := List.mem_append.mp hw
    · exact h.whole w (List.mem_filter.mp hw).1
    · rw [List.mem_singleton.mp hw]
      exact hshape

lemma getFile (h : u.Rows entry ver) (hentry : files.lookup fileId = some entry) :
    files.getFile fileId .latest r = (ver.wrapOf r).map (FileStore.viewOf entry ver) := by
  cases hrow : ver.wrapOf r with
  | some row =>
    exact FileStore.getFile_latest hentry h.currentVersion_ne h.lookup_current h.finalized hrow
  | none =>
    unfold VersionEntry.wrapOf at hrow
    simp [FileStore.getFile, hentry, h.currentVersion_ne, h.lookup_current, h.finalized, hrow]

lemma viewOf_addWrap (h : u.Rows entry ver) (hshape : wrap.isHalfShape = false)
    (hrecovery : wrap.recipientId ≠ RECOVERY_ID) (hgranter : row.grantedBy = entry.ownerId) :
    FileStore.viewOf (entry.addWrap wrap nowMs) (ver.addWrap wrap) row =
      FileStore.viewOf entry ver row := by
  have hancestors : ∀ wraps, ancestorChain wraps row entry.ownerId = [] := by
    intro wraps
    unfold ancestorChain MAX_ANCESTOR_CHAIN ancestorWalk
    exact if_pos (.inl hgranter)
  have htype : ∀ {entry : FileEntry} {ver : VersionEntry}, u.Rows entry ver →
      (ver.wraps.find? fun w => w.recipientType = 2) = ver.wrapOf RECOVERY_ID := by
    intro entry ver h
    obtain ⟨hbyId, hbyType⟩ := Escrow.find_recovery h.whole
    exact hbyType.trans hbyId.symm
  have hafter : (ver.addWrap wrap).wrapOf RECOVERY_ID = ver.wrapOf RECOVERY_ID := by
    rw [VersionEntry.wrapOf_addWrap, if_neg hrecovery.symm]
  unfold FileStore.viewOf
  rw [htype (h.addWrap hshape nowMs), htype h, hafter, hancestors]
  show FileView.mk _ _ _ _ _ ⟨_, _, _, ancestorChain _ row entry.ownerId⟩ _ _ = _
  rw [hancestors]
  rfl

lemma shows (h : u.Rows entry ver) {w : WrapOut} :
    (FileStore.viewOf entry ver w.input).Shows u.bundle w where
  manifestBytes := h.manifestBytes
  manifestSig := h.manifestSig
  genesisBytes := h.genesisBytes
  genesisSig := h.genesisSig
  wrappedDek := rfl
  grantBytes := rfl
  grantSig := rfl
  streams := by
    obtain ⟨input, hstreams⟩ := h.streams
    refine ⟨input, ?_⟩
    show ver.streams.map _ = _
    rw [hstreams]

end Upload.Rows

omit [Sha256] [Aes256GcmSeal] in
lemma Upload.recipientId_input {signer : SigningKey} {createdAt : Timestamp}
    {wrapped : WrappedDek} :
    (wrapOut signer (u.request createdAt r) wrapped).input.recipientId = r := by
  show (if (if r = RECOVERY_ID then RecipientType.recovery else .user) = .recovery then RECOVERY_ID
    else r) = r
  by_cases hr : r = RECOVERY_ID
  · rw [if_pos hr, if_pos rfl, hr]
  · rw [if_neg hr, if_neg (by decide)]

end Rows

/-! ## Openers of an upload -/

section Openers

variable [Sha256] [Ed25519] [Hkdf] [Aes256Gcm] [Aes256GcmSeal] [Hpke] [X25519] [MlKem768]
  {u : Upload} {ctx : VerifyContext} {genesis : Genesis} {grant : Grant}

lemma VerifyContext.Accepts.decryptor {header : StreamHeader}
    (haccepts : ctx.Accepts header.toVersionRecords u.bundle.manifest genesis grant u.dek)
    (hcap : u.streams.Within u.params.chunkSize) :
    ∃ decryptor, openContentDecryptor ctx header = .ok decryptor := by
  have hsize : 0 < u.params.chunkSize.toNat := chunkSize_pos haccepts.chunkSize
  set content := (sealInput u.dek u.params.fileId FIRST_VERSION u.params.chunkSize
    (.content, u.streams.content)).1 with hcontent
  have hdeclared : u.bundle.manifest.streams =
      content :: (u.streams.inputs.tail.map fun input =>
        (sealInput u.dek u.params.fileId FIRST_VERSION u.params.chunkSize input).1) :=
    u.params.bundle_declared u.dek u.streams u.wraps
  have hfind : (u.bundle.manifest.streams.find? (·.streamType = .content)) = some content := by
    rw [hdeclared]
    exact List.find?_cons_of_pos (decide_eq_true rfl)
  have hmem : content ∈ (sealStreams u.dek u.params.fileId FIRST_VERSION u.params.chunkSize
      u.streams).1 := by
    have hmem : content ∈ u.bundle.manifest.streams := by
      rw [hdeclared]
      exact List.mem_cons_self ..
    exact hmem
  have hinput : (StreamType.content, u.streams.content) ∈ u.streams.inputs :=
    List.mem_cons_self ..
  have hcount : content.chunkCount ≠ 0 := by
    have hpos : 0 < (framesOf u.params.chunkSize.toNat u.streams.content).length :=
      List.length_pos_of_ne_nil framesOf_ne_nil
    have hlt := hcap.length_lt hsize hinput
    intro hzero
    have htoNat := congrArg UInt64.toNat hzero
    rw [hcontent] at htoNat
    have hframes : (sealInput u.dek u.params.fileId FIRST_VERSION u.params.chunkSize
        (.content, u.streams.content)).1.chunkCount.toNat =
          (framesOf u.params.chunkSize.toNat u.streams.content).length := by
      show (UInt64.ofNat _).toNat = _
      rw [UInt64.toNat_ofNat', Nat.mod_eq_of_lt hlt]
    rw [hframes, UInt64.toNat_zero] at htoNat
    omega
  obtain ⟨rok, hheader⟩ : ∃ rok, verifyHeader ctx header.toVersionRecords =
      .ok (u.bundle.manifest, u.dek, rok) :=
    ⟨_, verifyHeader_eq_ok.mpr ⟨genesis, grant, haccepts, rfl⟩⟩
  have haddr : addressable content.chunkCount u.bundle.manifest.chunkSize = true :=
    addressable_iff.mpr (hcap.declared hsize hmem)
  refine ⟨⟨u.dek.streamSubkey .content, ctx.fileId, u.bundle.manifest.version,
    content.chunkCount⟩, bind_eq_ok.mpr ⟨_, hheader, bind_eq_ok.mpr ⟨content,
      elim_eq_ok.mpr hfind, ?_⟩⟩⟩
  exact guard_eq_ok.mpr ⟨not_not.mpr rfl, guard_eq_ok.mpr ⟨hcount, guard_eq_ok.mpr
    ⟨not_not.mpr haddr, rfl⟩⟩⟩

end Openers

lemma buildStreamHeader_of_download {source : ChunkSource} {view : ParsedView}
    {download : DownloadBundle} (h : buildDownloadBundle source view = .ok download) :
    ∃ header, buildStreamHeader source view = .ok header ∧
      header.toVersionRecords = view.records := by
  obtain ⟨streams, hstreams, -⟩ := bind_eq_ok.mp h
  have hfetched := exists_mapM_eq_ok.mp ⟨streams, hstreams⟩
  obtain ⟨small, hsmall⟩ := exists_mapM_eq_ok.mpr fun spec hspec =>
    hfetched spec (List.mem_of_mem_filter hspec)
  exact ⟨{ view.records with smallStreams := small }, bind_eq_ok.mpr ⟨small, hsmall, rfl⟩, rfl⟩

/-! ## What the owners made -/

section Invariants

variable [UnicodeNormalization] [Sha256] [Ed25519] [Hkdf] [Aes256Gcm] [Aes256GcmSeal] [Hpke]
  [HpkeSeal] [X25519] [X25519Base] [MlKem768] [MlKem768Encaps]

/-- The batch of a reader for an uploaded file. -/
def Upload.batch (u : Upload) (myId : Id) (settings : ShareSettings) : ReshareBatch where
  fileId := u.params.fileId
  version := FIRST_VERSION
  dekCommit := u.dek.commit
  suite := u.params.suite
  granterId := myId
  dek := u.dek
  tombstones := settings.tombstones
  acceptedKeyChanges := settings.acceptedKeyChanges
  verifier := settings.verifier
  nowMs := settings.nowMs

namespace Community

variable (c : Community)

/-- An enrolled owner uploaded it, and the server took it. -/
structure Uploaded (u : Upload) : Prop where
  owner : ∃ m, c.member u.params.ownerId = some m ∧ u.params.owner = m.identity
  size : ¬ (u.params.chunkSize < CHUNK_SIZE_MIN ∨ u.params.chunkSize > CHUNK_SIZE_MAX)
  within : u.streams.Within u.params.chunkSize

/-- The row is a wrap by the owner.  If it is for a user, he can open it. -/
def Grants (u : Upload) (r : Id) (row : WrapInput) : Prop :=
  ∃ createdAt wrapped,
    row = (wrapOut u.params.owner.sig (u.request createdAt r) wrapped).input ∧
      ∀ m, c.member r = some m → wrapped.OpensUnder u.params.suite m.identity.encSk
        m.identity.mlkemSeed ⟨u.params.fileId, FIRST_VERSION, r⟩ u.dek

variable {c} in
omit [Sha256] [Aes256Gcm] [Aes256GcmSeal] in
lemma Grants.grantedBy [Aes256Gcm] [Aes256GcmSeal] {u : Upload} {r : Id} {row : WrapInput}
    (h : c.Grants u r row) : row.grantedBy = u.params.ownerId := by
  obtain ⟨createdAt, wrapped, rfl, -⟩ := h
  rfl

/-- The server has the files that were uploaded, and no others. -/
structure Records (uploads : Id → Option Upload) (w : ShareWorld) : Prop where
  unknown : ∀ fileId, uploads fileId = none → w.files.lookup fileId = none
  known : ∀ fileId u, uploads fileId = some u → u.params.fileId = fileId ∧ c.Uploaded u ∧
    u.bundle.Stored (w.chunks fileId) ∧
      ∃ entry ver, w.files.lookup fileId = some entry ∧ u.Rows entry ver

/-- Every wrap is the owner's, and every batch has the key of its file. -/
structure Shared (uploads : Id → Option Upload) (w : ShareWorld) : Prop where
  grants : ∀ fileId u entry ver r row, uploads fileId = some u →
    w.files.lookup fileId = some entry → u.Rows entry ver → ver.wrapOf r = some row →
      c.Grants u r row
  batches : ∀ b ∈ w.batches, ∃ u myId settings, uploads b.1.fileId = some u ∧
    b.1 = u.batch myId settings

variable {c} {uploads : Id → Option Upload} {w : ShareWorld} {u : Upload} {entry : FileEntry}
  {ver : VersionEntry} {fileId r : Id} {row : WrapInput} {m : Member}

omit [Aes256Gcm] in
lemma Records.of_lookup (h : c.Records uploads w) (hentry : w.files.lookup fileId = some entry) :
    ∃ u ver, uploads fileId = some u ∧ u.params.fileId = fileId ∧ c.Uploaded u ∧
      u.bundle.Stored (w.chunks fileId) ∧ u.Rows entry ver := by
  cases hu : uploads fileId with
  | none =>
    rw [h.unknown fileId hu] at hentry
    cases hentry
  | some u =>
    obtain ⟨hfile, huploaded, hstored, entry', ver, hentry', hrows⟩ := h.known fileId u hu
    obtain rfl : entry = entry' := Option.some.inj (hentry.symm.trans hentry')
    exact ⟨u, ver, rfl, hfile, huploaded, hstored, hrows⟩

lemma Uploaded.opens (haead : AeadOpens) (huploaded : c.Uploaded u) (hrows : u.Rows entry ver)
    (hentry : w.files.lookup u.params.fileId = some entry)
    (hstored : u.bundle.Stored (w.chunks u.params.fileId)) (hm : c.member r = some m)
    (hrow : ver.wrapOf r = some row) (hgrants : c.Grants u r row) :
    c.Opens w u.params.fileId (.user r) m.identity := by
  obtain ⟨createdAt, wrapped, rfl, hopens⟩ := hgrants
  obtain ⟨owner, howner, hidentity⟩ := huploaded.owner
  have henrolled := c.enrolled _ _ howner
  have huser : r ≠ RECOVERY_ID := by
    rw [← c.userId r m hm]
    exact (c.enrolled r m hm).user
  set wrap := wrapOut u.params.owner.sig (u.request createdAt r) wrapped with hwrap
  set ctx := buildVerifyCtx u.params.fileId owner.binding.author (.user r) m.identity with hctx
  have htype : wrap.grant.recipientType = .user := if_neg huser
  have hkey : owner.binding.author.sigPub = u.params.owner.sig.verifyingKey := by
    rw [hidentity]
    exact henrolled.sigPub
  have hreads : u.params.Reads ctx :=
    ⟨rfl, hkey, hkey, rfl, by simp [hctx, buildVerifyCtx], by simp [hctx, buildVerifyCtx]⟩
  have hsigner : u.params.owner.sig.Verifies := by
    rw [hidentity]
    exact henrolled.verifies
  have hgrant : wrap.grant.WellFormed := by
    intro hrecovery
    rw [htype] at hrecovery
    cases hrecovery
  have hfields : checkGrantFields wrap.grant u.bundle.manifest ctx = .ok () :=
    checkGrantFields_eq_ok.mpr ⟨rfl, rfl, rfl, htype, rfl⟩
  have hancestors : (FileStore.viewOf entry ver wrap.input).myWrap.ancestorGrants = [] := by
    show ancestorWalk ver.wraps entry.ownerId MAX_ANCESTOR_CHAIN [] wrap.input.grantedBy = []
    unfold MAX_ANCESTOR_CHAIN ancestorWalk
    exact if_pos (.inl hrows.ownerId.symm)
  obtain ⟨parsed, download, file, hparse, haccepts, -, hdownload, hfile, -⟩ :=
    hrows.shows.opens haead hsigner huploaded.size huploaded.within hstored hreads hancestors
      hgrant rfl rfl hfields (hopens m hm)
  obtain ⟨header, hheader, hrecords⟩ := buildStreamHeader_of_download hdownload
  rw [← hrecords] at haccepts
  have hview : w.files.getFile u.params.fileId .latest r =
      some (FileStore.viewOf entry ver wrap.input) := by
    rw [hrows.getFile hentry, hrow]
    rfl
  refine ⟨_, parsed, u.bundle.manifest, owner, hview, hparse, ?_, howner,
    ⟨download, file, hdownload, hfile⟩, header, ?_⟩
  · have hdecodes := haccepts.decodesManifest
    rw [hrecords] at hdecodes
    exact hdecodes
  · obtain ⟨decryptor, hdecryptor⟩ := VerifyContext.Accepts.decryptor (u := u) haccepts
      huploaded.within
    exact ⟨decryptor, hheader, hdecryptor⟩

lemma reshareInner_eq (hrows : u.Rows entry ver) (hm : c.member r = some m)
    (hgrants : c.Grants u r row) (settings : ShareSettings) :
    reshareInner (some (FileStore.viewOf entry ver row)) u.params.fileId r m.identity settings =
      .ok (u.batch r settings) := by
  obtain ⟨createdAt, wrapped, rfl, hopens⟩ := hgrants
  set wrap := wrapOut u.params.owner.sig (u.request createdAt r) wrapped with hwrap
  obtain ⟨parsed, hparse, hsigned, -⟩ := (hrows.shows (w := wrap)).parses
  have hmanifest : decode Manifest parsed.manifestBytes = .ok u.bundle.manifest := by
    have hbytes : parsed.manifestBytes = encode u.bundle.manifest := hsigned.manifestBytes
    rw [hbytes]
    exact decode_encode (u.params.bundle_wellFormed u.dek u.streams u.wraps)
  have hwrapped : parsed.wrappedDek = wrapped := hsigned.wrappedDek
  have hdek : recoverOwnDek parsed u.params.fileId m.identity r = .ok u.dek := by
    unfold recoverOwnDek
    rw [hmanifest, hwrapped]
    refine bind_eq_ok.mpr ⟨u.bundle.manifest, rfl, ?_⟩
    have hcommit : (if u.dek.commit ≠ u.bundle.manifest.dekCommit.bytes then
        throw verifyFailed else pure u.dek : Except UiError Dek) = .ok u.dek :=
      guard_eq_ok.mpr ⟨not_not.mpr rfl, rfl⟩
    have hsuite : u.bundle.manifest.alg = u.params.suite := rfl
    have hopen := hopens m hm
    rw [hsuite]
    cases hv : u.params.suite with
    | v1 =>
      rw [hv] at hopen
      exact bind_eq_ok.mpr ⟨u.dek, mapError_eq_ok.mpr hopen, hcommit⟩
    | v2 =>
      rw [hv] at hopen
      obtain ⟨seed, hybrid, hseed, hunpack, hunwrap⟩ := hopen
      exact bind_eq_ok.mpr ⟨seed, elim_eq_ok.mpr hseed, bind_eq_ok.mpr ⟨hybrid,
        mapError_eq_ok.mpr hunpack, bind_eq_ok.mpr ⟨u.dek, mapError_eq_ok.mpr hunwrap, hcommit⟩⟩⟩
  unfold reshareInner
  exact bind_eq_ok.mpr ⟨_, rfl, bind_eq_ok.mpr ⟨parsed, hparse, bind_eq_ok.mpr
    ⟨u.bundle.manifest, mapError_eq_ok.mpr hmanifest, bind_eq_ok.mpr ⟨u.dek, hdek, rfl⟩⟩⟩⟩

/-! ## An upload keeps them -/

omit [UnicodeNormalization] [Aes256Gcm] [Hpke] [HpkeSeal] [X25519] [X25519Base] [MlKem768]
  [MlKem768Encaps] in
lemma within_of_parseStage {params : UploadParams} {dek : Dek} {streams : PlaintextStreams}
    {wraps : List WrapOut} {flags : StageFlags} {callerId : Id} {p : ParsedStage}
    (hparse : Files.parseStage ((params.bundle dek streams wraps).stageInput flags callerId) =
      .ok p)
    (hsize : 0 < params.chunkSize.toNat)
    (hmemory : ∀ input ∈ streams.inputs, input.2.length < 2 ^ 63) :
    streams.Within params.chunkSize := by
  unfold Files.parseStage at hparse
  simp only [bind_eq_ok, guard_eq_ok, mapError_eq_ok] at hparse
  obtain ⟨manifest, hmanifest, -, -, hbound, -⟩ := hparse
  obtain rfl := Except.ok.inj
    (hmanifest.symm.trans (decode_encode (params.bundle_wellFormed dek streams wraps)))
  intro input hinput
  have hlength := hmemory input hinput
  have hframes : (framesOf params.chunkSize.toNat input.2).length ≤ input.2.length + 1 :=
    length_framesOf_le hsize
  set declared := (sealInput dek params.fileId FIRST_VERSION params.chunkSize input).1
    with hdeclared
  have hmem : declared ∈ (params.bundle dek streams wraps).manifest.streams := by
    rw [params.bundle_declared]
    exact List.mem_map_of_mem hinput
  have hcount : declared.chunkCount.toNat =
      (framesOf params.chunkSize.toNat input.2).length := by
    show (UInt64.ofNat _).toNat = _
    rw [UInt64.toNat_ofNat', Nat.mod_eq_of_lt (by omega)]
  by_contra hover
  refine hbound (List.any_eq_true.mpr ⟨declared, hmem, ?_⟩)
  unfold Files.oversized
  rw [decide_eq_true_eq, hcount]
  exact .inr (Nat.lt_of_not_le hover)

/-- A new file was taken, with its chunks. -/
structure Gains (w w' : ShareWorld) (u : Upload) (entry : FileEntry) (ver : VersionEntry) : Prop
    where
  fresh : w.files.lookup u.params.fileId = none
  rows : u.Rows entry ver
  wraps : ver.wraps = u.wraps.map WrapOut.input
  batches : w'.batches = w.batches
  chunks : w'.chunks = Function.update w.chunks u.params.fileId u.bundle.source
  lookup : ∀ f, w'.files.lookup f =
    if f = u.params.fileId then some entry else w.files.lookup f

omit [UnicodeNormalization] in
lemma gains_of_upload (haead : AeadOpens) {rand : ℕ → WrapEntropy} {dek : Dek}
    {params : UploadParams} {streams : PlaintextStreams} {bundle : UploadBundle}
    (flags : StageFlags) (stagedMs finalizedMs : UInt64) (hid : params.ownerId ≠ RECOVERY_ID)
    (hbuild : buildUploadInner rand dek params streams = .ok bundle)
    (hwithin : streams.Within params.chunkSize) (hfresh : w.files.lookup params.fileId = none) :
    ∃ (u : Upload) (entry : FileEntry) (ver : VersionEntry), u.params = params ∧
      u.streams = streams ∧
      ¬ (params.chunkSize < CHUNK_SIZE_MIN ∨ params.chunkSize > CHUNK_SIZE_MAX) ∧
      standingWraps rand u.dek u.dek.commit params = .ok u.wraps ∧
      Gains w (w.upload rand dek params streams flags stagedMs finalizedMs) u entry ver := by
  obtain ⟨hsize, wraps, hwraps, rfl⟩ := buildUploadInner_eq_ok.mp hbuild
  obtain ⟨own, recovery, rfl, -⟩ := standingWraps_eq_ok haead hwraps
  set u : Upload := ⟨params, dek, streams, own, recovery⟩ with hu
  have hparse : Files.parseStage (u.bundle.stageInput flags params.ownerId) =
      .ok (params.parsed dek streams own recovery flags) :=
    UploadParams.parseStage flags hsize hid hwithin
  set p := params.parsed dek streams own recovery flags with hp
  set entry := (FileEntry.create p ⟨params.ownerId, params.ownerKeyVersion,
    encode params.genesis, u.bundle.genesisSig⟩ stagedMs).stage p with hentry
  have hversion : entry.versions.lookup FIRST_VERSION = some (VersionEntry.ofStage p) :=
    AList.lookup_insert _
  have hnext : FIRST_VERSION.toNat = entry.currentVersion.toNat + 1 := rfl
  have hstaged : runFrom (FileStore.stageVersion p stagedMs) w.files =
      (.ok FIRST_VERSION, w.files.insert params.fileId entry) :=
    FileStore.stageVersion_eq_ok.mpr ⟨UploadParams.isHalfShape_wraps hid, rfl, _,
      .create rfl hfresh, by simp [FileEntry.isFinalized, FileEntry.create], rfl⟩
  have hcommitted : runFrom (FileStore.finalizeVersion params.fileId FIRST_VERSION
      params.ownerId finalizedMs) (w.files.insert params.fileId entry) =
        (.ok (), (w.files.insert params.fileId entry).insert params.fileId
          (entry.finalize FIRST_VERSION finalizedMs)) :=
    FileStore.finalizeVersion_eq_ok.mpr ⟨entry, _, AList.lookup_insert _, rfl, hversion, rfl, hnext,
      rfl⟩
  have hbuilt : buildUploadInner rand dek params streams = .ok u.bundle := hbuild
  have hupload : w.upload rand dek params streams flags stagedMs finalizedMs =
      { w with
        files := (w.files.insert params.fileId entry).insert params.fileId
          (entry.finalize FIRST_VERSION finalizedMs)
        chunks := Function.update w.chunks params.fileId u.bundle.source } := by
    simp only [ShareWorld.upload, hbuilt, hparse, hstaged, hcommitted]
  refine ⟨u, entry.finalize FIRST_VERSION finalizedMs, (VersionEntry.ofStage p).finalize, rfl, rfl,
    hsize, hwraps, ?_⟩
  rw [hupload]
  refine ⟨hfresh, ⟨rfl, rfl, rfl, rfl, ?_, rfl, rfl, rfl, ⟨_, rfl⟩, ?_⟩, rfl, rfl, rfl, ?_⟩
  · rw [FileEntry.lookup_finalize hnext, if_pos rfl, hversion]
    rfl
  · intro wrap hwrap
    exact Bool.eq_false_iff.mpr (List.any_eq_false.mp (UploadParams.isHalfShape_wraps hid)
      wrap hwrap)
  · intro f
    rw [lookup_insert_eq, lookup_insert_eq]
    by_cases hf : f = params.fileId
    · rw [if_pos hf, if_pos hf]
    · rw [if_neg hf, if_neg hf, if_neg hf]

omit [UnicodeNormalization] in
lemma upload_cases (haead : AeadOpens) (rand : ℕ → WrapEntropy) (dek : Dek) {params : UploadParams}
    {streams : PlaintextStreams} (flags : StageFlags) (stagedMs finalizedMs : UInt64)
    (hid : params.ownerId ≠ RECOVERY_ID)
    (hmemory : ∀ input ∈ streams.inputs, input.2.length < 2 ^ 63)
    (hfinal : ∀ entry, w.files.lookup params.fileId = some entry →
      entry.isFinalized FIRST_VERSION = true) :
    w.upload rand dek params streams flags stagedMs finalizedMs = w ∨
      ∃ (u : Upload) (entry : FileEntry) (ver : VersionEntry), u.params = params ∧
        ¬ (params.chunkSize < CHUNK_SIZE_MIN ∨ params.chunkSize > CHUNK_SIZE_MAX) ∧
        u.streams.Within params.chunkSize ∧
        standingWraps rand u.dek u.dek.commit params = .ok u.wraps ∧
        Gains w (w.upload rand dek params streams flags stagedMs finalizedMs) u entry ver := by
  cases hbuild : buildUploadInner rand dek params streams with
  | error e =>
    left
    simp only [ShareWorld.upload, hbuild]
  | ok bundle =>
    cases hparse : Files.parseStage (bundle.stageInput flags params.ownerId) with
    | error e =>
      left
      simp only [ShareWorld.upload, hbuild, hparse]
    | ok p =>
      obtain ⟨hsize, wraps, hwraps, rfl⟩ := buildUploadInner_eq_ok.mp hbuild
      have hwithin : streams.Within params.chunkSize :=
        within_of_parseStage hparse (chunkSize_pos hsize) hmemory
      by_cases hfresh : w.files.lookup params.fileId = none
      · right
        obtain ⟨u, entry, ver, hparams, hstreams, -, hstanding, hgains⟩ :=
          gains_of_upload haead flags stagedMs finalizedMs hid hbuild hwithin hfresh
        rw [← hstreams] at hwithin
        exact ⟨u, entry, ver, hparams, hsize, hwithin, hstanding, hgains⟩
      · left
        obtain ⟨own, recovery, rfl, -⟩ := standingWraps_eq_ok haead hwraps
        obtain rfl : params.parsed dek streams own recovery flags = p :=
          Except.ok.inj ((UploadParams.parseStage flags hsize hid hwithin).symm.trans hparse)
        set p := params.parsed dek streams own recovery flags with hp
        obtain ⟨entry, hentry⟩ := Option.ne_none_iff_exists'.mp hfresh
        have hrefused : ∀ v files, runFrom (FileStore.stageVersion p stagedMs) w.files ≠
            (.ok v, files) := by
          intro v files hstaged
          obtain ⟨-, -, entry', hrow, hopen, -⟩ := FileStore.stageVersion_eq_ok.mp hstaged
          cases hrow with
          | create _ hnone => exact hfresh hnone
          | restage _ hentry' =>
            obtain rfl : entry = entry' := Option.some.inj (hentry.symm.trans hentry')
            have hfinalized := hfinal entry hentry
            rw [show FIRST_VERSION = p.version from rfl, hopen] at hfinalized
            cases hfinalized
          | rotate hnone _ _ => cases hnone
        simp only [ShareWorld.upload, hbuild, hparse]
        rcases hrun : runFrom (FileStore.stageVersion p stagedMs) w.files with ⟨stored, files⟩
        cases stored with
        | error e => rfl
        | ok v => exact absurd hrun (hrefused v files)

omit [Sha256] in
lemma grants_upload (haead : AeadOpens) {rand : ℕ → WrapEntropy} (huploaded : c.Uploaded u)
    (hwraps : standingWraps rand u.dek u.dek.commit u.params = .ok u.wraps)
    (hver : ver.wraps = u.wraps.map WrapOut.input) (hrow : ver.wrapOf r = some row) :
    c.Grants u r row := by
  obtain ⟨m, hm, hidentity⟩ := huploaded.owner
  have henrolled := c.enrolled _ m hm
  have hid : u.params.ownerId ≠ RECOVERY_ID := by
    rw [← c.userId _ m hm]
    exact henrolled.user
  obtain ⟨own, recovery, hlist, hown, hrecovery⟩ := standingWraps_eq_ok haead hwraps
  unfold VersionEntry.wrapOf at hrow
  rw [hver, hlist] at hrow
  have hrequest : u.params.request u.dek u.dek.commit u.params.ownerId .user =
      u.request u.params.createdAt u.params.ownerId := by
    unfold Upload.request
    rw [if_neg hid]
    rfl
  have hrequest' : u.params.request u.dek u.dek.commit RECOVERY_ID .recovery =
      u.request u.params.createdAt RECOVERY_ID := by
    unfold Upload.request
    rw [if_pos rfl]
    rfl
  rw [hrequest, hrequest'] at hrow
  have hmem := List.mem_of_find?_eq_some hrow
  have hr : row.recipientId = r := by simpa using List.find?_some hrow
  rw [List.map_cons, List.map_cons, List.map_nil, List.mem_pair] at hmem
  obtain rfl | rfl := hmem
  · rw [Upload.recipientId_input] at hr
    obtain rfl := hr
    refine ⟨_, own, rfl, fun m' hm' => ?_⟩
    obtain rfl : m = m' := Option.some.inj (hm.symm.trans hm')
    refine hown _ _ ?_
    rw [hidentity]
    exact henrolled.keys
  · rw [Upload.recipientId_input] at hr
    obtain rfl := hr
    refine ⟨_, recovery, rfl, fun m' hm' => ?_⟩
    exact absurd (c.userId _ m' hm') (c.enrolled _ m' hm').user

omit [Aes256Gcm] in
lemma Records.isFinalized (h : c.Records uploads w) (hentry : w.files.lookup fileId = some entry) :
    entry.isFinalized FIRST_VERSION = true := by
  obtain ⟨u, ver, -, -, -, -, hrows⟩ := h.of_lookup hentry
  unfold FileEntry.isFinalized
  rw [hrows.version]
  exact hrows.finalized

lemma Records.gain (haead : AeadOpens) (h : c.Records uploads w) {w' : ShareWorld}
    {rand : ℕ → WrapEntropy} (huploaded : c.Uploaded u)
    (hwraps : standingWraps rand u.dek u.dek.commit u.params = .ok u.wraps)
    (hgains : Gains w w' u entry ver) :
    c.Records (Function.update uploads u.params.fileId (some u)) w' ∧ (c.Shared uploads w →
      c.Shared (Function.update uploads u.params.fileId (some u)) w') := by
  have hfresh : uploads u.params.fileId = none := by
    by_contra hknown
    obtain ⟨u', hu'⟩ := Option.ne_none_iff_exists'.mp hknown
    obtain ⟨-, -, -, entry', -, hentry', -⟩ := h.known _ u' hu'
    rw [hgains.fresh] at hentry'
    cases hentry'
  refine ⟨⟨?_, ?_⟩, fun hshared => ⟨?_, ?_⟩⟩
  · intro f hf
    have hother : f ≠ u.params.fileId := by
      rintro rfl
      rw [Function.update_self] at hf
      cases hf
    rw [Function.update_of_ne hother] at hf
    rw [hgains.lookup, if_neg hother]
    exact h.unknown f hf
  · intro f u' hu'
    rw [hgains.lookup, hgains.chunks]
    by_cases hf : f = u.params.fileId
    · subst hf
      rw [Function.update_self] at hu'
      obtain rfl := Option.some.inj hu'
      rw [Function.update_self, if_pos rfl]
      exact ⟨rfl, huploaded, UploadParams.stored_source huploaded.within
        (chunkSize_pos huploaded.size), entry, ver, rfl, hgains.rows⟩
    · rw [Function.update_of_ne hf] at hu'
      rw [Function.update_of_ne hf, if_neg hf]
      exact h.known f u' hu'
  · intro f u' entry' ver' r row hu' hentry' hrows' hrow
    rw [hgains.lookup] at hentry'
    by_cases hf : f = u.params.fileId
    · subst hf
      rw [Function.update_self] at hu'
      obtain rfl := Option.some.inj hu'
      rw [if_pos rfl] at hentry'
      obtain rfl := Option.some.inj hentry'
      obtain rfl : ver = ver' := Option.some.inj (hgains.rows.version.symm.trans hrows'.version)
      exact grants_upload haead huploaded hwraps hgains.wraps hrow
    · rw [Function.update_of_ne hf] at hu'
      rw [if_neg hf] at hentry'
      exact hshared.grants f u' entry' ver' r row hu' hentry' hrows' hrow
  · intro b hb
    rw [hgains.batches] at hb
    obtain ⟨u', myId, settings, hu', hbatch⟩ := hshared.batches b hb
    have hother : b.1.fileId ≠ u.params.fileId := by
      intro hf
      rw [hf, hfresh] at hu'
      cases hu'
    exact ⟨u', myId, settings, by rw [Function.update_of_ne hother]; exact hu', hbatch⟩

lemma step_upload (haead : AeadOpens) (h : c.Records uploads w) {rand : ℕ → WrapEntropy} {dek : Dek}
    {params : UploadParams} {streams : PlaintextStreams} {flags : StageFlags}
    {stagedMs finalizedMs : UInt64}
    (howner : ∃ m, c.member params.ownerId = some m ∧ params.owner = m.identity)
    (hmemory : ∀ input ∈ streams.inputs, input.2.length < 2 ^ 63) :
    let w' := w.upload rand dek params streams flags stagedMs finalizedMs
    ∃ uploads', c.Records uploads' w' ∧ (c.Shared uploads w → c.Shared uploads' w') := by
  intro w'
  obtain ⟨m, hm, hidentity⟩ := howner
  have hid : params.ownerId ≠ RECOVERY_ID := by
    rw [← c.userId _ m hm]
    exact (c.enrolled _ m hm).user
  obtain hsame | ⟨u, entry, ver, rfl, hsize, hwithin, hwraps, hgains⟩ :=
    upload_cases haead rand dek flags stagedMs finalizedMs hid hmemory fun _ hentry =>
      h.isFinalized hentry
  · refine ⟨uploads, ?_, ?_⟩
    · show c.Records uploads (w.upload rand dek params streams flags stagedMs finalizedMs)
      rw [hsame]
      exact h
    · intro hshared
      show c.Shared uploads (w.upload rand dek params streams flags stagedMs finalizedMs)
      rw [hsame]
      exact hshared
  · exact ⟨_, h.gain haead ⟨⟨m, hm, hidentity⟩, hsize, hwithin⟩ hwraps hgains⟩

lemma records_init :
    c.Records (fun _ => none) c.machine.init ∧ c.Shared (fun _ => none) c.machine.init := by
  refine ⟨⟨fun _ _ => rfl, fun _ _ hu => by cases hu⟩, ⟨?_, ?_⟩⟩
  · intro _ _ _ _ _ _ hu
    cases hu
  · intro b hb
    exact absurd hb List.not_mem_nil

/-! ## Preparing and sharing keep them -/

lemma prepare_eq (hrows : u.Rows entry ver) (hentry : w.files.lookup u.params.fileId = some entry)
    (hm : c.member r = some m) (hrow : ver.wrapOf r = some row) (hgrants : c.Grants u r row)
    (settings : ShareSettings) (memory : ShareMemory) :
    w.prepare (some m.identity) r u.params.fileId settings memory =
      { w with batches := w.batches ++ [(u.batch r settings, memory)] } := by
  have hinner := reshareInner_eq hrows hm hgrants settings
  unfold ShareWorld.prepare
  rw [hrows.getFile hentry, hrow, Option.map_some]
  simp only [hinner]

lemma step_prepare (h : c.Records uploads w) (myId fileId : Id) (settings : ShareSettings)
    (memory : ShareMemory) :
    let w' := w.prepare ((c.member myId).map (·.identity)) myId fileId settings memory
    c.Records uploads w' ∧ (c.Shared uploads w → c.Shared uploads w') := by
  intro w'
  unfold w' ShareWorld.prepare
  cases hm : c.member myId with
  | none => exact ⟨h, fun hshared => hshared⟩
  | some m =>
    simp only [Option.map_some]
    cases hprepare : reshareInner (w.files.getFile fileId .latest myId) fileId myId m.identity
        settings with
    | error e => exact ⟨h, fun hshared => hshared⟩
    | ok batch =>
      refine ⟨⟨h.unknown, h.known⟩, fun hshared => ⟨hshared.grants, ?_⟩⟩
      intro b hb
      obtain hb | hb := List.mem_append.mp hb
      · exact hshared.batches b hb
      rw [List.mem_singleton.mp hb]
      -- the batch is made of what the user was served, and he was served what the owner gave him
      cases hview : w.files.getFile fileId .latest myId with
      | none =>
        rw [hview] at hprepare
        cases hprepare
      | some view =>
        cases hentry : w.files.lookup fileId with
        | none =>
          unfold FileStore.getFile at hview
          rw [hentry] at hview
          cases hview
        | some entry =>
          obtain ⟨u, ver, hu, rfl, -, -, hrows⟩ := h.of_lookup hentry
          rw [hrows.getFile hentry] at hview
          obtain ⟨row, hrow, rfl⟩ := Option.map_eq_some_iff.mp hview
          have hgrants := hshared.grants _ u entry ver myId row hu hentry hrows hrow
          rw [hrows.getFile hentry, hrow, Option.map_some,
            reshareInner_eq hrows hm hgrants settings] at hprepare
          obtain rfl := Except.ok.inj hprepare
          exact ⟨u, myId, settings, hu, rfl⟩

omit [Sha256] [Aes256Gcm] [Hpke] [MlKem768] in
/-- A turn that goes through posts a wrap that was made with the key of the session, of the batch's
key to the keys of the binding. -/
lemma wrap_of_sends [Sha256] {settings : ShareSettings} {turn : ShareTurn} {memory : ShareMemory}
    {binding : DirBinding} {wrap : WrapOut}
    (hsends : (u.batch r settings).Sends turn memory binding wrap) :
    ∃ identity request wrapped, turn.session = some identity ∧
      wrap = wrapOut identity.sig request wrapped ∧ request.grantedBy = r ∧
      request.recipientType = .user ∧ request.recipientId = binding.userId ∧
      (r = u.params.ownerId → request = u.request ⟨settings.nowMs⟩ binding.userId) ∧
      wrapUnder u.params.suite turn.rand ⟨binding.encPub.bytes⟩ binding.mlkemPub u.dek
        ⟨u.params.fileId, FIRST_VERSION, binding.userId⟩ = .ok wrapped := by
  have hbuild := hsends.builds
  unfold ReshareBatch.build at hbuild
  obtain ⟨identity, hsession, hbuild⟩ := bind_eq_ok.mp hbuild
  obtain ⟨-, huser, -, wrapped, hwrap, rfl⟩ := buildReshare_eq_ok.mp (mapError_eq_ok.mp hbuild)
  refine ⟨identity, _, wrapped, elim_eq_ok.mp hsession, rfl, rfl, rfl, rfl, ?_, hwrap⟩
  rintro rfl
  unfold Upload.request
  rw [if_neg hsends.user]
  rfl

omit [UnicodeNormalization] [Sha256] [Aes256Gcm] [Ed25519] in
lemma opensUnder_of_wrapUnder [Aes256Gcm] [Ed25519] (haead : AeadOpens) {sk : EncSecretKey}
    {seed : Option (Bytes 64)}
    {encPub : EncPublicKey} {mlkemPub : Option MlKemPub} {suite : Suite} {rand : WrapEntropy}
    {dek : Dek} {ctx : WrapContext} {wrapped : WrappedDek}
    (hkeys : HoldsKeys sk seed encPub (mlkemPub.map (·.bytes)))
    (hwrap : wrapUnder suite rand encPub mlkemPub dek ctx = .ok wrapped) :
    wrapped.OpensUnder suite sk seed ctx dek := by
  unfold wrapUnder at hwrap
  cases suite with
  | v1 => exact hkeys.opensUnder_v1 (mapError_eq_ok.mp hwrap)
  | v2 =>
    obtain ⟨mlkem, hmlkem, hwrap⟩ := bind_eq_ok.mp hwrap
    obtain ⟨hybrid, hhybrid, hwrap⟩ := bind_eq_ok.mp hwrap
    obtain rfl := pure_eq_ok.mp hwrap
    rw [elim_eq_ok.mp hmlkem] at hkeys
    exact hkeys.opensUnder_v2 haead (mapError_eq_ok.mp hhybrid)

/-- A wrap that is posted for an uploaded file is stored in its row. -/
structure Stores (w w' : ShareWorld) (u : Upload) (entry : FileEntry) (ver : VersionEntry)
    (wrap : WrapOut) (nowMs : UInt64) : Prop where
  rows : u.Rows entry ver
  known : w.files.lookup u.params.fileId = some entry
  rows' : u.Rows (entry.addWrap wrap.input nowMs) (ver.addWrap wrap.input)
  user : wrap.input.recipientId ≠ RECOVERY_ID
  shape : wrap.input.isHalfShape = false
  lookup : ∀ f, w'.files.lookup f =
    if f = u.params.fileId then some (entry.addWrap wrap.input nowMs) else w.files.lookup f

omit [Aes256Gcm] in
lemma Records.stores (h : c.Records uploads w) {batch : ReshareBatch} {wrap : WrapOut}
    {nowMs : UInt64} {w' : ShareWorld}
    (hstored : runFrom (FileStore.addWrap batch.fileId wrap.input batch.granterId nowMs) w.files =
      (.ok (), w'.files)) :
    ∃ u entry ver, uploads batch.fileId = some u ∧ u.params.fileId = batch.fileId ∧
      c.Uploaded u ∧ u.bundle.Stored (w.chunks batch.fileId) ∧
        Stores w w' u entry ver wrap nowMs := by
  obtain ⟨hreshare, entry, hentry, -, -, -, -, -, hfiles⟩ := FileStore.addWrap_eq_ok.mp hstored
  obtain ⟨u, ver, hu, hfile, huploaded, hchunks, hrows⟩ := h.of_lookup hentry
  unfold WrapInput.isReshareBy at hreshare
  obtain ⟨-, htype, huser⟩ := of_decide_eq_true hreshare
  have hshape : wrap.input.isHalfShape = false := by
    rw [WrapInput.isHalfShape_eq_false, htype]
    simp [huser]
  refine ⟨u, entry, ver, hu, hfile, huploaded, hchunks, hrows, ?_, hrows.addWrap hshape nowMs,
    huser, hshape, ?_⟩
  · rw [hfile]
    exact hentry
  · intro f
    rw [← hfiles, lookup_insert_eq, hfile]

omit [UnicodeNormalization] [Aes256Gcm] [Hpke] [HpkeSeal] [X25519] [X25519Base] [MlKem768]
  [MlKem768Encaps] in
lemma Stores.getFile {w' : ShareWorld} {wrap : WrapOut} {nowMs : UInt64}
    (h : Stores w w' u entry ver wrap nowMs) (hr : r ≠ wrap.input.recipientId)
    (hgranter : ∀ row, ver.wrapOf r = some row → row.grantedBy = u.params.ownerId) :
    w'.files.getFile u.params.fileId .latest r = w.files.getFile u.params.fileId .latest r := by
  have hknown : w'.files.lookup u.params.fileId = some (entry.addWrap wrap.input nowMs) := by
    rw [h.lookup, if_pos rfl]
  rw [h.rows'.getFile hknown, h.rows.getFile h.known, VersionEntry.wrapOf_addWrap, if_neg hr]
  cases hrow : ver.wrapOf r with
  | none => rw [Option.map_none, Option.map_none]
  | some row =>
    have howner := hgranter row hrow
    rw [← h.rows.ownerId] at howner
    rw [Option.map_some, Option.map_some, h.rows.viewOf_addWrap h.shape h.user howner]

omit [Aes256Gcm] in
lemma Records.step_stores (h : c.Records uploads w) {w' : ShareWorld} {wrap : WrapOut}
    {nowMs : UInt64} (hchunks : w'.chunks = w.chunks) (hstores : Stores w w' u entry ver wrap nowMs)
    (hu : uploads u.params.fileId = some u) : c.Records uploads w' := by
  constructor
  · intro f hf
    rw [hstores.lookup]
    by_cases hfile : f = u.params.fileId
    · rw [hfile, hu] at hf
      cases hf
    · rw [if_neg hfile]
      exact h.unknown f hf
  · intro f u' hu'
    rw [hstores.lookup, hchunks]
    obtain ⟨hfile', huploaded, hstored, entry', ver', hentry', hrows'⟩ := h.known f u' hu'
    by_cases hfile : f = u.params.fileId
    · subst hfile
      obtain rfl : u = u' := Option.some.inj (hu.symm.trans hu')
      rw [if_pos rfl]
      exact ⟨rfl, huploaded, hstored, _, _, rfl, hstores.rows'⟩
    · rw [if_neg hfile]
      exact ⟨hfile', huploaded, hstored, entry', ver', hentry', hrows'⟩

omit [Sha256] in
lemma opensUnder_of_sends (haead : AeadOpens) {binding : DirBinding} {rand : WrapEntropy}
    {wrapped : WrappedDek}
    (hanswer : ∃ m, c.member binding.userId = some m ∧ m.binding = binding)
    (hwrap : wrapUnder u.params.suite rand ⟨binding.encPub.bytes⟩ binding.mlkemPub u.dek
      ⟨u.params.fileId, FIRST_VERSION, binding.userId⟩ = .ok wrapped)
    (hm : c.member binding.userId = some m) :
    wrapped.OpensUnder u.params.suite m.identity.encSk m.identity.mlkemSeed
      ⟨u.params.fileId, FIRST_VERSION, binding.userId⟩ u.dek := by
  obtain ⟨m', hm', hbinding⟩ := hanswer
  obtain rfl : m = m' := Option.some.inj (hm.symm.trans hm')
  have henrolled := c.enrolled _ m hm
  have hkeys := henrolled.keys
  have hpub : m.identity.encPk = ⟨binding.encPub.bytes⟩ := by
    rw [← hbinding, henrolled.encPub]
  rw [hpub, ← henrolled.mlkemPub, hbinding] at hkeys
  exact opensUnder_of_wrapUnder haead hkeys hwrap

lemma grants_of_sends (haead : AeadOpens) {settings : ShareSettings} {turn : ShareTurn}
    {memory : ShareMemory} {binding : DirBinding} {wrap : WrapOut}
    (hsends : (u.batch u.params.ownerId settings).Sends turn memory binding wrap)
    (hsession : turn.session = some u.params.owner)
    (hanswer : ∃ m, c.member binding.userId = some m ∧ m.binding = binding) :
    c.Grants u wrap.input.recipientId wrap.input := by
  obtain ⟨identity, request, wrapped, hidentity, rfl, -, -, -, hrequest, hwrap⟩ :=
    wrap_of_sends hsends
  obtain rfl : identity = u.params.owner := Option.some.inj (hidentity.symm.trans hsession)
  rw [hrequest rfl, Upload.recipientId_input]
  exact ⟨_, wrapped, rfl, fun m hm => opensUnder_of_sends haead hanswer hwrap hm⟩

lemma Shared.step_stores (hshared : c.Shared uploads w) {w' : ShareWorld} {wrap : WrapOut}
    {nowMs : UInt64} (hstores : Stores w w' u entry ver wrap nowMs)
    (hu : uploads u.params.fileId = some u)
    (hbatches : ∀ b ∈ w'.batches, ∃ b' ∈ w.batches, b'.1 = b.1)
    (hgrants : c.Grants u wrap.input.recipientId wrap.input) : c.Shared uploads w' := by
  constructor
  · intro f u' entry' ver' r row hu' hentry' hrows' hrow
    rw [hstores.lookup] at hentry'
    by_cases hfile : f = u.params.fileId
    · subst hfile
      obtain rfl : u = u' := Option.some.inj (hu.symm.trans hu')
      rw [if_pos rfl] at hentry'
      obtain rfl := Option.some.inj hentry'
      obtain rfl : ver.addWrap wrap.input = ver' :=
        Option.some.inj (hstores.rows'.version.symm.trans hrows'.version)
      rw [VersionEntry.wrapOf_addWrap] at hrow
      by_cases hr : r = wrap.input.recipientId
      · rw [if_pos hr] at hrow
        obtain rfl := Option.some.inj hrow
        rw [hr]
        exact hgrants
      · rw [if_neg hr] at hrow
        exact hshared.grants _ u entry ver r row hu hstores.known hstores.rows hrow
    · rw [if_neg hfile] at hentry'
      exact hshared.grants f u' entry' ver' r row hu' hentry' hrows' hrow
  · intro b hb
    obtain ⟨b', hb', hsame⟩ := hbatches b hb
    rw [← hsame]
    exact hshared.batches b' hb'

lemma grants_of_byOwner (haead : AeadOpens) (hshared : c.Shared uploads w) {index : ℕ}
    {turn : ShareTurn} {arrives : Bool} {nowMs : UInt64} {batch : ReshareBatch}
    {memory : ShareMemory} {binding : DirBinding} {wrap : WrapOut}
    (hhonest : c.Honest (.turn index turn arrives nowMs))
    (howner : c.ByOwner w (.turn index turn arrives nowMs))
    (hbatch : w.batches[index]? = some (batch, memory))
    (hsends : batch.Sends turn memory binding wrap) (hu : uploads batch.fileId = some u)
    (hentry : w.files.lookup batch.fileId = some entry) (hrows : u.Rows entry ver)
    (huploaded : c.Uploaded u) : c.Grants u wrap.input.recipientId wrap.input := by
  obtain ⟨u', myId, settings, hu', hmade⟩ := hshared.batches _ (List.mem_of_getElem? hbatch)
  obtain rfl : batch = u'.batch myId settings := hmade
  obtain rfl : u = u' := Option.some.inj (hu.symm.trans hu')
  obtain ⟨entry', m, hentry', hgranter, hm, hsession⟩ := howner _ memory hbatch binding wrap hsends
  obtain rfl : entry = entry' := Option.some.inj (hentry.symm.trans hentry')
  obtain ⟨m', hm', hidentity⟩ := huploaded.owner
  rw [hrows.ownerId] at hm hgranter
  obtain rfl : m = m' := Option.some.inj (hm.symm.trans hm')
  obtain rfl : myId = u.params.ownerId := hgranter
  obtain ⟨bytes, hyields⟩ := hsends.yields
  rw [← hidentity] at hsession
  exact grants_of_sends haead hsends hsession (hhonest binding hyields.serves)

lemma step_turn (haead : AeadOpens) (h : c.Records uploads w) {index : ℕ} {turn : ShareTurn}
    {arrives : Bool} {nowMs : UInt64} (hhonest : c.Honest (.turn index turn arrives nowMs)) :
    let w' := (w.turn index turn arrives nowMs).1
    c.Records uploads w' ∧ (c.ByOwner w (.turn index turn arrives nowMs) →
      c.Shared uploads w → c.Shared uploads w') := by
  intro w'
  obtain ⟨hchunks, hbatches, ⟨hfiles, -⟩ | ⟨batch, memory, binding, wrap, hbatch, hsends, hstored,
    -⟩⟩ := ShareWorld.turn_cases w index turn arrives nowMs
  · refine ⟨⟨?_, ?_⟩, fun _ hshared => ⟨?_, ?_⟩⟩
    · intro f hf
      show (w.turn index turn arrives nowMs).1.files.lookup f = none
      rw [hfiles]
      exact h.unknown f hf
    · intro f u hu
      show _ ∧ _ ∧ u.bundle.Stored ((w.turn index turn arrives nowMs).1.chunks f) ∧
        ∃ entry ver, (w.turn index turn arrives nowMs).1.files.lookup f = some entry ∧ _
      rw [hfiles, hchunks]
      exact h.known f u hu
    · intro f u entry ver r row hu hentry
      rw [show (w'.files = w.files) from hfiles] at hentry
      exact hshared.grants f u entry ver r row hu hentry
    · intro b hb
      obtain ⟨b', hb', hsame⟩ := hbatches b hb
      rw [← hsame]
      exact hshared.batches b' hb'
  · obtain ⟨u, entry, ver, hu, hfile, huploaded, -, hstores⟩ := h.stores hstored
    have hu' : uploads u.params.fileId = some u := by
      rw [hfile]
      exact hu
    refine ⟨h.step_stores hchunks hstores hu', fun howner hshared => ?_⟩
    have hentry := hstores.known
    rw [hfile] at hentry
    exact hshared.step_stores hstores hu' hbatches (grants_of_byOwner haead hshared hhonest howner
      hbatch hsends hu hentry hstores.rows huploaded)

end Community

end Invariants

end MaxSecu
