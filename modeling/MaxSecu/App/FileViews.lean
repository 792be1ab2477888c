import MaxSecu.Server.MemoryStore
import MaxSecu.Client.UploadRecords
import MaxSecu.App.Directory

/-!
# File records between the app and the server

How the app posts the records of an upload, and how it reads a served view and fetches the streams.
The names that types have on the wire, and the number columns behind them, are gone through in both
directions, so both are the types here.
-/

namespace MaxSecu

open ExceptRules

/-! ## Posting an upload -/

/-- Whether a file shows in the feed, and which bundle it is a member of. -/
structure StageFlags where
  listed : Bool
  bundleId : Option Id

/-- A hybrid or classical wrap as it is stored: the encapsulated key, then the ciphertext. -/
def wrapWire (w : WrapOut) : List UInt8 := w.wrappedDek.enc.toList ++ w.wrappedDek.ct

def recipientTypeColumn : RecipientType → Int16
  | .user => 1
  | .recovery => 2

/-- A wrap as it is posted.  A recovery wrap names its recipient by a word that the server turns
into the reserved id. -/
def WrapOut.input (w : WrapOut) : WrapInput where
  recipientId := if w.recipientType = .recovery then RECOVERY_ID else w.recipientId
  recipientType := recipientTypeColumn w.recipientType
  wrappedDek := wrapWire w
  wrapAlg := 1
  grantedBy := w.grantedBy
  grantBytes := encode w.grant
  grantSig := w.grantSig

/-- The staging request that the post of an upload by `callerId` makes. -/
def UploadBundle.stageInput (bundle : UploadBundle) (flags : StageFlags) (callerId : Id) :
    StageInput where
  fileId := bundle.fileId
  callerId := callerId
  fileTypeAdvisory := Files.column bundle.fileType.codepoint
  genesis := some ⟨encode bundle.genesis, bundle.genesisSig⟩
  manifestBytes := encode bundle.manifest
  manifestSig := bundle.manifestSig
  wraps := bundle.wraps.map WrapOut.input
  streamTotals := bundle.streams.map fun s => (Files.column s.streamType.codepoint, s.totalBytes)
  proposedVersion := 1
  listed := flags.listed
  bundleId := flags.bundleId

/-! ## Reading a view -/

structure StreamSpec where
  streamType : StreamType
  chunkCount : UInt64
  chunkSize : UInt64
  /-- Not signed, and 0 where the server says nothing. -/
  totalBytes : UInt64

/-- A served view, taken apart. -/
structure ParsedView where
  version : UInt64
  manifestBytes : List UInt8
  manifestSig : Bytes 64
  genesisBytes : List UInt8
  genesisSig : Bytes 64
  wrappedDek : WrappedDek
  grantBytes : List UInt8
  grantSig : Bytes 64
  ancestorGrants : List (List UInt8 × Bytes 64)
  recoveryGrantBytes : List UInt8
  recoveryGrantSig : Bytes 64
  streams : List StreamSpec

def badRecord : UiError := ⟨"fetch_failed", "The server sent a malformed file record."⟩

/-- The type behind a number column; the server calls any other number unknown. -/
def streamTypeOfColumn (c : Int16) : Option StreamType :=
  if c = 1 then some .content
  else if c = 2 then some .metadata
  else if c = 3 then some .thumbnail
  else if c = 4 then some .preview
  else none

lemma streamTypeOfColumn_column (t : StreamType) :
    streamTypeOfColumn (Files.column t.codepoint) = some t := by
  cases t <;> decide

def wrapFromBytes (b : List UInt8) : Except UiError WrappedDek :=
  if h : b.length < 32 then
    throw badRecord
  else
    pure ⟨⟨b.take 32, by rw [List.length_take]; omega⟩, b.drop 32⟩

lemma wrapFromBytes_wrapWire (w : WrapOut) : wrapFromBytes (wrapWire w) = .ok w.wrappedDek := by
  have henc : w.wrappedDek.enc.toList.length = 32 := w.wrappedDek.enc.toList_length
  have hlength : ¬ (wrapWire w).length < 32 := by
    unfold wrapWire
    rw [List.length_append, henc]
    omega
  unfold wrapFromBytes
  rw [dif_neg hlength, pure_eq_ok]
  unfold wrapWire
  refine congr (congrArg WrappedDek.mk ?_) (List.drop_left' henc)
  apply List.Vector.toList_injective
  exact List.take_left' henc

def parseStreamView (s : StreamView) : Except UiError StreamSpec := do
  let streamType ← (streamTypeOfColumn s.streamType).elim (throw badRecord) pure
  pure ⟨streamType, s.chunkCount, s.chunkSize.toUInt64, 0⟩

/-- Take a view apart.  Without a recovery grant its fields are empty. -/
def parseFileView (view : FileView) : Except UiError ParsedView := do
  let wrappedDek ← wrapFromBytes view.myWrap.wrappedDek
  let streams ← view.streams.mapM parseStreamView
  let recovery := view.recoveryGrant.getD ([], .replicate 64 0)
  pure
    { version := view.version
      manifestBytes := view.manifestBytes
      manifestSig := view.manifestSig
      genesisBytes := view.genesisBytes
      genesisSig := view.genesisSig
      wrappedDek := wrappedDek
      grantBytes := view.myWrap.grantBytes
      grantSig := view.myWrap.grantSig
      ancestorGrants := view.myWrap.ancestorGrants
      recoveryGrantBytes := recovery.1
      recoveryGrantSig := recovery.2
      streams := streams }

def ParsedView.records (view : ParsedView) : VersionRecords where
  manifestBytes := view.manifestBytes
  manifestSig := view.manifestSig
  genesisBytes := view.genesisBytes
  genesisSig := view.genesisSig
  wrappedDek := view.wrappedDek
  grantBytes := view.grantBytes
  grantSig := view.grantSig
  ancestorGrants := view.ancestorGrants
  recoveryGrantBytes := view.recoveryGrantBytes
  recoveryGrantSig := view.recoveryGrantSig

def Stream.spec (chunkSize : UInt32) (s : Stream) : StreamSpec :=
  ⟨s.streamType, s.chunkCount, chunkSize.toUInt64, 0⟩

/-- The view is of an uploaded file, and serves its reader this wrap. -/
structure FileView.Shows (view : FileView) (bundle : UploadBundle) (w : WrapOut) : Prop where
  manifestBytes : view.manifestBytes = encode bundle.manifest
  manifestSig : view.manifestSig = bundle.manifestSig
  genesisBytes : view.genesisBytes = encode bundle.genesis
  genesisSig : view.genesisSig = bundle.genesisSig
  wrappedDek : view.myWrap.wrappedDek = wrapWire w
  grantBytes : view.myWrap.grantBytes = encode w.grant
  grantSig : view.myWrap.grantSig = w.grantSig
  streams : ∃ input, view.streams = (bundle.manifest.streams.map
    (Files.streamRow input bundle.manifest)).map fun s =>
      ⟨s.streamType, s.chunkCount, s.chunkSize, s.blobRef⟩

/-- The records say what the upload signed, beside this wrap and these grants. -/
structure UploadBundle.Signed (bundle : UploadBundle) (w : WrapOut)
    (ancestors : List (List UInt8 × Bytes 64)) (records : VersionRecords) : Prop where
  manifestBytes : records.manifestBytes = encode bundle.manifest
  manifestSig : records.manifestSig = bundle.manifestSig
  genesisBytes : records.genesisBytes = encode bundle.genesis
  genesisSig : records.genesisSig = bundle.genesisSig
  wrappedDek : records.wrappedDek = w.wrappedDek
  grantBytes : records.grantBytes = encode w.grant
  grantSig : records.grantSig = w.grantSig
  ancestorGrants : records.ancestorGrants = ancestors

lemma FileView.Shows.parses {view : FileView} {bundle : UploadBundle} {w : WrapOut}
    (hshows : view.Shows bundle w) :
    ∃ parsed, parseFileView view = .ok parsed ∧
      bundle.Signed w view.myWrap.ancestorGrants parsed.records ∧
      parsed.streams = bundle.manifest.streams.map (Stream.spec bundle.manifest.chunkSize) := by
  have hspecs : view.streams.mapM parseStreamView =
      .ok (bundle.manifest.streams.map (Stream.spec bundle.manifest.chunkSize)) := by
    obtain ⟨input, hstreams⟩ := hshows.streams
    rw [hstreams, List.map_map]
    refine mapM_eq_ok.mpr (List.forall₂_map_left_iff.mpr (List.forall₂_map_right_iff.mpr ?_))
    refine List.forall₂_same.mpr fun s _ => ?_
    exact bind_eq_ok.mpr ⟨s.streamType, elim_eq_ok.mpr (streamTypeOfColumn_column s.streamType), rfl⟩
  have hwrap : wrapFromBytes view.myWrap.wrappedDek = .ok w.wrappedDek := by
    rw [hshows.wrappedDek]
    exact wrapFromBytes_wrapWire w
  exact ⟨_, bind_eq_ok.mpr ⟨w.wrappedDek, hwrap, bind_eq_ok.mpr ⟨_, hspecs, rfl⟩⟩,
    ⟨hshows.manifestBytes, hshows.manifestSig, hshows.genesisBytes, hshows.genesisSig, rfl,
      hshows.grantBytes, hshows.grantSig, rfl⟩, rfl⟩

/-! ## Fetching the streams -/

/-- How the chunks of a file arrive: each of its type and index, or an error. -/
abbrev ChunkSource := StreamType → UInt64 → Except UiError (List UInt8)

/-- Fetch the chunks of one stream, as many as the view says. -/
def fetchStreamChunks (source : ChunkSource) (spec : StreamSpec) : Except UiError StreamChunks := do
  let chunks ← (List.range spec.chunkCount.toNat).mapM fun i =>
    source spec.streamType (UInt64.ofNat i)
  pure ⟨spec.streamType, chunks⟩

def buildDownloadBundle (source : ChunkSource) (view : ParsedView) :
    Except UiError DownloadBundle := do
  let streams ← view.streams.mapM (fetchStreamChunks source)
  pure { view.records with streams := streams }

/-- Fetch every stream of a view but the content. -/
def buildStreamHeader (source : ChunkSource) (view : ParsedView) : Except UiError StreamHeader := do
  let small ← (view.streams.filter fun s => s.streamType ≠ .content).mapM (fetchStreamChunks source)
  pure { view.records with smallStreams := small }

lemma fetchStreamChunks_eq_ok {source : ChunkSource} {spec : StreamSpec}
    {chunks : List (List UInt8)} (hcount : chunks.length = spec.chunkCount.toNat)
    (hsource : ∀ i c, chunks[i]? = some c → source spec.streamType (UInt64.ofNat i) = .ok c) :
    fetchStreamChunks source spec = .ok ⟨spec.streamType, chunks⟩ := by
  have hrounds : List.Forall₂ (fun i c => source spec.streamType (UInt64.ofNat i) = .ok c)
      (List.range spec.chunkCount.toNat) chunks := by
    rw [List.forall₂_iff_get]
    refine ⟨by rw [List.length_range, hcount], fun i hi hi' => ?_⟩
    rw [List.get_eq_getElem, List.get_eq_getElem, List.getElem_range]
    exact hsource i _ (List.getElem?_eq_getElem hi')
  unfold fetchStreamChunks
  exact bind_eq_ok.mpr ⟨chunks, mapM_eq_ok.mpr hrounds, rfl⟩

end MaxSecu
