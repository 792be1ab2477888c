import MaxSecu.App.UploadRoundTrip
import MaxSecu.App.VideoServe

/-!
# Which bytes of a video are served

The place of a byte is reckoned with the size of a chunk that the server says.  `serveRange_body_iff`
says that a range is the content's exactly when that size is the signed one, the range begins in the
first fragment, or the bytes happen to be the same.
-/

namespace MaxSecu

open ExceptRules

/-- Where byte `start` is read, if chunks are taken to have `served` bytes and have `signed`, and the
fragment of the byte begins with chunk `a`. -/
def readFrom (a served signed start : ℕ) : ℕ := a * signed + (start - a * served)

/-- **Where a range is cut from, exactly.**  Whatever the server serves, a range is that of the
content if and only if the served size of a chunk is the signed one, the range begins in the first
fragment, or the content repeats its bytes at the place that the served size leads to. -/
theorem serveRange_body_iff [Sha256] [Ed25519] [Hkdf] [Aes256Gcm] [Aes256GcmSeal] [Hpke] [X25519]
    [MlKem768] [MetadataJson] {streams : Set PlainStream} {s : PlainStream} {ctx : VerifyContext}
    {view : ParsedView} {fetch : HeaderFetch} {opening routes : ChunkRoutes} {job : VideoJob}
    {first : ℕ} {lastInclusive : Option ℕ} {cache : MediaCache} {resp : RangeResponse}
    (hs : s ∈ streams) (hcontent : s.streamType = .content)
    (hone : Set.InjOn PlainStream.context streams) (hsealed : SealedOnly streams s.ck)
    (hcarries : fetch.header.Carries s) (hagain : ∀ h, fetch.again = .ok h → h.Carries s)
    (hopen : openVideo ctx view fetch opening = .ok job)
    (hserve : (job.serveRange routes first lastInclusive cache).1 = .ok resp) :
    resp.body.length = resp.len ∧ ∃ spec a, view.contentSpec = some spec ∧
      job.firstChunk resp.start = some a ∧
      (resp.body = (s.plaintext.drop resp.start).take resp.len ↔
        spec.chunkSize.toNat = s.chunkSize ∨ a = 0 ∨
          (s.plaintext.drop (readFrom a spec.chunkSize.toNat s.chunkSize resp.start)).take
            resp.len = (s.plaintext.drop resp.start).take resp.len) := by
  obtain ⟨hjob, -, spec, hspec, hsize⟩ := openVideo_ok hcarries hagain hopen
  obtain ⟨req, plan, fetchChunk, c, c', hplanned, hassemble, hstart, hlen⟩ :=
    VideoJob.serveRange_ok hserve
  obtain ⟨a, l, hplace, hfirst, hbase⟩ := VideoJob.planned_ok hplanned
  obtain ⟨hwithin, hlength, hbody⟩ :=
    VideoJob.assembleRange_ok hsealed hone hs hcontent hjob hplace hassemble
  rw [hstart, hlen]
  refine ⟨hlength, spec, a, hspec, hfirst, ?_⟩
  rw [hbase, hsize] at hbody hwithin
  rw [hbody]
  unfold readFrom
  constructor
  · intro hsame
    exact .inr (.inr hsame)
  · rintro (heq | rfl | hsame)
    · rw [heq] at hwithin ⊢
      rw [Nat.add_sub_cancel' hwithin]
    · rw [Nat.zero_mul, Nat.zero_mul, Nat.zero_add, Nat.sub_zero]
    · exact hsame

/-! ## A clip whose chunks are said to be longer -/

section ClosedRuns

open ClosedRuns

def clipMetadata : List UInt8 :=
  ("\x7b\"fragments\":[" ++
    "\x7b\"seq\":0,\"pts_ms\":0,\"chunk_start\":0,\"chunk_len\":1\x7d," ++
    "\x7b\"seq\":1,\"pts_ms\":0,\"chunk_start\":1,\"chunk_len\":1\x7d]\x7d").toUTF8.toList

def clipItems : List FragmentItem :=
  [⟨some 0, some 0, some 0, some 1⟩, ⟨some 1, some 0, some 1, some 1⟩]

abbrev clipJson : MetadataJson where
  fragments text := if text = clipMetadata then some (some clipItems) else none

/-- One chunk of sevens, and a chunk of a seven and an eight. -/
def clipContent : List UInt8 := List.replicate 4097 7 ++ [8]

def clipStreams : PlaintextStreams := ⟨clipContent, some clipMetadata, none, none⟩

def clipUpload : UploadParams := { plainUpload ⟨.replicate 16 1⟩ with fileType := .video }

lemma length_clipContent : clipContent.length = 4098 := by
  unfold clipContent
  rw [List.length_append, List.length_replicate]
  rfl

lemma length_clipMetadata : clipMetadata.length = 117 := by
  decide +kernel

lemma length_clipContent_lt : clipContent.length < 2 ^ 63 := by
  rw [length_clipContent]
  decide

lemma length_clipMetadata_lt : clipMetadata.length < 2 ^ 63 := by
  rw [length_clipMetadata]
  decide

/-- The streams of the clip as they are sealed. -/
def clipStream (t : StreamType) (plaintext : List UInt8) (h : plaintext.length < 2 ^ 63) :
    PlainStream :=
  ⟨plainDek.streamSubkey t, clipUpload.fileId, FIRST_VERSION, t, 4096, plaintext, by decide, h⟩

def clipVideo : PlainStream := clipStream .content clipContent length_clipContent_lt

def clipInfo : PlainStream := clipStream .metadata clipMetadata length_clipMetadata_lt

lemma length_clipVideo_frames : clipVideo.frames.length = 2 := by
  have hlow := clipVideo.length_le_mul
  have hhigh := clipVideo.mul_le_length
  have hsize : clipVideo.chunkSize = 4096 := rfl
  have hlength : clipVideo.plaintext.length = 4098 := length_clipContent
  rw [hsize, hlength] at hlow hhigh
  omega

lemma injOn_clip : Set.InjOn PlainStream.context {t | t ∈ [clipVideo, clipInfo]} := by
  have htypes : clipVideo.context ≠ clipInfo.context := fun heq => by
    cases (Prod.mk.inj (Prod.mk.inj (Prod.mk.inj heq).2).2).2
  intro s hs t ht heq
  rcases List.mem_pair.mp hs with rfl | rfl <;> rcases List.mem_pair.mp ht with rfl | rfl
  · rfl
  · exact absurd heq htypes
  · exact absurd heq.symm htypes
  · rfl

/-- The cipher under which these two streams open and nothing else does. -/
abbrev clipAead : Aes256Gcm := tableAead [clipVideo, clipInfo]

lemma encrypt_inj (k : Bytes 32) (n : Bytes 12) (a p p' : List UInt8)
    (h : Aes256GcmSeal.encrypt k n a p = Aes256GcmSeal.encrypt k n a p') : p = p' :=
  List.append_cancel_right h

lemma clipVideo_ideal :
    letI := clipAead
    clipVideo.Ideal {t | t ∈ [clipVideo, clipInfo]} :=
  tableAead_ideal encrypt_inj aeadOpens.length injOn_clip List.mem_cons_self rfl

def clipWrapped : WrappedDek := ⟨.replicate 32 0, plainDek.bytes.toList⟩

def clipBundle : UploadBundle :=
  clipUpload.bundle plainDek clipStreams (clipUpload.wraps plainDek clipWrapped clipWrapped)

def clipGrant : WrapOut :=
  wrapOut clipUpload.owner.sig (clipUpload.request plainDek plainDek.commit clipUpload.ownerId .user)
    clipWrapped

/-- What the server serves of the clip to its owner, but for the content. -/
def clipHeader : StreamHeader where
  manifestBytes := encode clipBundle.manifest
  manifestSig := clipBundle.manifestSig
  genesisBytes := encode clipBundle.genesis
  genesisSig := clipBundle.genesisSig
  wrappedDek := clipWrapped
  grantBytes := encode clipGrant.grant
  grantSig := clipGrant.grantSig
  ancestorGrants := []
  recoveryGrantBytes := encode clipGrant.grant
  recoveryGrantSig := clipGrant.grantSig
  smallStreams := [⟨.metadata, clipInfo.sealed.chunks⟩]

def clipReads : VerifyContext := ownerReads clipUpload.ownerId

lemma clipHeader_accepted :
    letI := clipAead
    clipReads.Accepts clipHeader.toVersionRecords clipBundle.manifest clipUpload.genesis
      clipGrant.grant plainDek := by
  let _ := clipAead
  have hreads : clipUpload.Reads clipReads :=
    ⟨rfl, rfl, rfl, rfl, by simp [clipReads, ownerReads], by simp [clipReads, ownerReads]⟩
  have hsize : ¬ (clipUpload.chunkSize < CHUNK_SIZE_MIN ∨ clipUpload.chunkSize > CHUNK_SIZE_MAX) := by
    show ¬ (CHUNK_SIZE_MIN < CHUNK_SIZE_MIN ∨ CHUNK_SIZE_MIN > CHUNK_SIZE_MAX)
    decide
  have hsigned : clipBundle.Signed clipGrant [] clipHeader.toVersionRecords :=
    ⟨rfl, rfl, rfl, rfl, rfl, rfl, rfl, rfl⟩
  refine hreads.accepts (verifies _) hsize hsigned (fun htype => by cases htype) ?_ ?_ ?_
  · exact checkGrantFields_eq_ok.mpr ⟨rfl, rfl, rfl, rfl, rfl⟩
  · exact verifyGrantChain_author rfl ((verifies _).verify _ _)
  · rfl

/-- What the manifest declares of a stream of the clip. -/
def clipEntry (t : StreamType) (plaintext : List UInt8) : Stream :=
  (sealInput plainDek clipUpload.fileId FIRST_VERSION clipUpload.chunkSize (t, plaintext)).1

lemma clipBundle_declares : clipBundle.manifest.streams =
    [clipEntry .content clipContent, clipEntry .metadata clipMetadata] :=
  clipUpload.bundle_declared _ _ _

lemma clipUpload_chunkSize : clipUpload.chunkSize.toNat = 4096 := by
  show CHUNK_SIZE_MIN.toNat = 4096
  decide

lemma clipEntry_chunkCount (t : StreamType) (plaintext : List UInt8)
    (h : plaintext.length < 2 ^ 63) :
    (clipEntry t plaintext).chunkCount.toNat = (clipStream t plaintext h).frames.length := by
  show (UInt64.ofNat (framesOf clipUpload.chunkSize.toNat plaintext).length).toNat = _
  rw [clipUpload_chunkSize]
  exact (clipStream t plaintext h).toNat_count

lemma clipEntry_digest (t : StreamType) (plaintext : List UInt8) (h : plaintext.length < 2 ^ 63) :
    (clipEntry t plaintext).digest.bytes =
      streamDigest (clipStream t plaintext h).sealed.chunks := by
  show (sealStream _ _ _ _ clipUpload.chunkSize.toNat plaintext).digest = _
  rw [clipUpload_chunkSize]
  rfl

lemma clipBundle_content : clipBundle.manifest.streams.find? (·.streamType = .content) =
    some (clipEntry .content clipContent) := by
  rw [clipBundle_declares]
  rfl

lemma clipVideo_count : (clipEntry .content clipContent).chunkCount.toNat = 2 := by
  rw [clipEntry_chunkCount _ _ length_clipContent_lt]
  exact length_clipVideo_frames

lemma clipHeader_carries : clipHeader.Carries clipVideo := by
  refine ⟨clipBundle.manifest, decode_encode (clipUpload.bundle_wellFormed _ _ _), rfl, rfl, rfl,
    rfl, ?_, fun _ _ => rfl⟩
  intro ms hms
  obtain rfl := Option.some.inj (clipBundle_content.symm.trans hms)
  exact clipVideo_count.trans length_clipVideo_frames.symm

lemma clip_addressable :
    addressable (clipEntry .content clipContent).chunkCount clipBundle.manifest.chunkSize = true := by
  have hsize : clipBundle.manifest.chunkSize = clipUpload.chunkSize := rfl
  rw [addressable_iff, clipVideo_count, hsize, clipUpload_chunkSize]
  decide

lemma parseFragmentIndex_clip : parseFragmentIndex (some clipItems) = .ok twoFragments := rfl

lemma openVideoJobCore_clip :
    letI := clipAead
    letI := clipJson
    openVideoJobCore clipReads clipHeader = .ok (clipVideo.decryptor, twoFragments) := by
  let _ := clipAead
  let _ := clipJson
  obtain ⟨rok, hheader⟩ : ∃ rok, verifyHeader clipReads clipHeader.toVersionRecords =
      .ok (clipBundle.manifest, plainDek, rok) :=
    ⟨_, verifyHeader_eq_ok.mpr ⟨_, _, clipHeader_accepted, rfl⟩⟩
  have hopens : clipInfo.Opens := tableAead_opens encrypt_inj (List.mem_cons_of_mem _
    List.mem_cons_self)
  have hsmall : openSmallStreams clipReads clipBundle.manifest plainDek clipHeader.smallStreams =
      .ok ([⟨.metadata, clipMetadata⟩], clipEntry .content clipContent) := by
    refine openSmallStreams_eq_ok.mpr ?_
    rw [clipBundle_declares]
    refine ⟨.cons ⟨rfl, rfl, ⟨.metadata, clipInfo.sealed.chunks⟩, rfl, ?_, ?_, hopens.openStream⟩
      .nil, ?_, rfl, clip_addressable⟩
    · rw [clipEntry_chunkCount _ _ length_clipMetadata_lt]
      exact clipInfo.length_sealed_chunks
    · exact (clipEntry_digest _ _ length_clipMetadata_lt).symm
    · intro ms hms
      rcases List.mem_pair.mp hms with rfl | rfl <;> rfl
  have hopened : ∃ opened, verifyAndOpenHeaders clipReads clipHeader = .ok opened ∧
      opened.smallStreams = [⟨.metadata, clipMetadata⟩] :=
    ⟨_, bind_eq_ok.mpr ⟨_, hheader, bind_eq_ok.mpr ⟨_, hsmall, rfl⟩⟩, rfl⟩
  have hcount : (clipEntry .content clipContent).chunkCount ≠ 0 := by
    intro hzero
    have htwo := clipVideo_count
    rw [hzero] at htwo
    cases htwo
  have hdecryptor : ∃ d, openContentDecryptor clipReads clipHeader = .ok d :=
    ⟨⟨plainDek.streamSubkey .content, clipReads.fileId, clipBundle.manifest.version,
      (clipEntry .content clipContent).chunkCount⟩, bind_eq_ok.mpr ⟨_, hheader,
        bind_eq_ok.mpr ⟨clipEntry .content clipContent, elim_eq_ok.mpr clipBundle_content,
          guard_eq_ok.mpr ⟨not_not.mpr rfl, guard_eq_ok.mpr ⟨hcount, guard_eq_ok.mpr
            ⟨not_not.mpr clip_addressable, rfl⟩⟩⟩⟩⟩⟩
  obtain ⟨opened, hopened, hstreams⟩ := hopened
  obtain ⟨d, hd⟩ := hdecryptor
  obtain rfl := clipHeader_carries.decryptor hd
  unfold openVideoJobCore
  refine bind_eq_ok.mpr ⟨opened, mapError_eq_ok.mpr hopened, bind_eq_ok.mpr ⟨⟨.metadata,
    clipMetadata⟩, ?_, bind_eq_ok.mpr ⟨some clipItems, ?_, bind_eq_ok.mpr ⟨twoFragments,
      parseFragmentIndex_clip, bind_eq_ok.mpr ⟨_, mapError_eq_ok.mpr hd, rfl⟩⟩⟩⟩⟩
  · rw [hstreams]
    rfl
  · show (if clipMetadata = clipMetadata then some (some clipItems) else none).elim _ _ = _
    rw [if_pos rfl]
    rfl

/-- The view of a server that says another size of a chunk. -/
def clipView (chunkSize : UInt64) : ParsedView where
  version := FIRST_VERSION
  manifestBytes := clipHeader.manifestBytes
  manifestSig := clipHeader.manifestSig
  genesisBytes := clipHeader.genesisBytes
  genesisSig := clipHeader.genesisSig
  wrappedDek := clipHeader.wrappedDek
  grantBytes := clipHeader.grantBytes
  grantSig := clipHeader.grantSig
  ancestorGrants := []
  recoveryGrantBytes := clipHeader.recoveryGrantBytes
  recoveryGrantSig := clipHeader.recoveryGrantSig
  streams := [⟨.content, 2, chunkSize, 4098⟩]

def clipFetch : HeaderFetch := ⟨clipHeader, false, .ok clipHeader⟩

/-- The session of the clip, with chunks that are taken to be one byte longer. -/
def clipJob : VideoJob := ⟨clipVideo.decryptor, twoFragments, clipVideo.fileId, 4097, 4098⟩

lemma clipJob_reads : clipJob.Reads clipVideo := ⟨rfl, length_clipVideo_frames.symm⟩

lemma openVideo_clip :
    letI := clipAead
    letI := clipJson
    openVideo clipReads (clipView 4097) clipFetch (proxyOnly clipVideo) = .ok clipJob := by
  let _ := clipAead
  let _ := clipJson
  have hcore : clipFetch.openCore clipReads = .ok (clipVideo.decryptor, twoFragments) := by
    unfold HeaderFetch.openCore
    rw [show clipFetch.header = clipHeader from rfl, openVideoJobCore_clip]
    rfl
  have hcount : clipVideo.decryptor.contentChunkCount.toNat = 2 :=
    clipVideo.toNat_count.trans length_clipVideo_frames
  refine bind_eq_ok.mpr ⟨_, hcore, bind_eq_ok.mpr ⟨⟨.content, 2, 4097, 4098⟩, rfl,
    bind_eq_ok.mpr ⟨4098, ?_, rfl⟩⟩⟩
  unfold videoLen
  rw [hcount]
  rfl

lemma clipJob_plain : clipJob.plain clipVideo 1 = [7, 8] := by
  have hplain : clipJob.plain clipVideo 1 = ((clipVideo.frames.drop 1).take 1).flatten := by
    have hplace : clipJob.index.chunksForFragment 1 = some (1, 1) := rfl
    unfold VideoJob.plain
    rw [hplace, Option.elim_some]
  have hcontent : clipVideo.plaintext = List.replicate 4097 7 ++ [8] := rfl
  have hsize : clipVideo.chunkSize = 4096 := rfl
  rw [hplain, clipVideo.flatten_frames_between, hsize, hcontent, List.take_of_length_le,
    List.drop_append_of_le_length, List.drop_replicate]
  · rfl
  · rw [List.length_replicate]
    decide
  · rw [List.length_append, List.length_replicate]
    decide

lemma serveRange_clip :
    letI := clipAead
    (clipJob.serveRange (proxyOnly clipVideo) 4097 (some 4097) (.empty none)).1 =
      .ok ⟨4097, 1, 4098, [7]⟩ := by
  let _ := clipAead
  have hplanned : clipJob.planned 4097 (some 4097) = .ok (⟨4097, 1⟩, ⟨1, 1, 4097⟩) := by
    decide +kernel
  have hplaces : ∀ seq ∈ (⟨1, 1, 4097⟩ : RangePlan).span,
      (clipJob.index.chunksForFragment seq).isSome = true := by
    intro seq hseq
    obtain rfl := List.mem_singleton.mp hseq
    rfl
  have hslice : sliceRange ((⟨1, 1, 4097⟩ : RangePlan).span.flatMap (clipJob.plain clipVideo)) 4097
      ⟨4097, 1⟩ = .ok [7] := by
    have hspan : (⟨1, 1, 4097⟩ : RangePlan).span = [1] := rfl
    rw [hspan, List.flatMap_singleton, clipJob_plain]
    decide +kernel
  rw [VideoJob.serveRange_eq clipJob_reads (proxyOnly_honest clipVideo) hplanned hplaces,
    VideoJob.twice_ok clipVideo_ideal clipJob_reads hplaces hslice (VideoJob.agrees_empty none)
      fun i _ => proxyOnly_answer clipVideo i]
  rfl

lemma clipContent_slice : (clipVideo.plaintext.drop 4097).take 1 = [8] := by
  have hcontent : clipVideo.plaintext = List.replicate 4097 7 ++ [8] := rfl
  rw [hcontent, List.drop_left' List.length_replicate]
  rfl

/-- The last byte of the clip is asked for. -/
theorem serveRange_body_iff_clip :
    letI := clipAead
    letI := clipJson
    ([7] : List UInt8).length = 1 ∧ ∃ spec a, (clipView 4097).contentSpec = some spec ∧
      clipJob.firstChunk 4097 = some a ∧
      ([7] = (clipVideo.plaintext.drop 4097).take 1 ↔
        spec.chunkSize.toNat = clipVideo.chunkSize ∨ a = 0 ∨
          (clipVideo.plaintext.drop
            (readFrom a spec.chunkSize.toNat clipVideo.chunkSize 4097)).take 1 =
              (clipVideo.plaintext.drop 4097).take 1) := by
  let _ := clipAead
  let _ := clipJson
  have hagain : ∀ h, clipFetch.again = .ok h → h.Carries clipVideo := by
    intro h heq
    rw [← Except.ok.inj heq]
    exact clipHeader_carries
  have hcarries : clipFetch.header.Carries clipVideo := clipHeader_carries
  exact serveRange_body_iff List.mem_cons_self rfl injOn_clip (tableAead_sealedOnly _) hcarries
    hagain openVideo_clip serveRange_clip

/-- It is an eight, and a seven is served. -/
theorem serveRange_shifted :
    letI := clipAead
    letI := clipJson
    clipVideo.Ideal {t | t ∈ [clipVideo, clipInfo]} ∧ clipHeader.Carries clipVideo ∧
      openVideo clipReads (clipView 4097) clipFetch (proxyOnly clipVideo) = .ok clipJob ∧
      (clipJob.serveRange (proxyOnly clipVideo) 4097 (some 4097) (.empty none)).1 =
        .ok ⟨4097, 1, 4098, [7]⟩ ∧
      (clipVideo.plaintext.drop 4097).take 1 = [8] := by
  let _ := clipAead
  let _ := clipJson
  exact ⟨clipVideo_ideal, clipHeader_carries, openVideo_clip, serveRange_clip, clipContent_slice⟩

/-- A view with another size of a chunk. -/
theorem openVideo_plays_iff_clip :
    letI := clipAead
    letI := clipJson
    openVideo clipReads (clipView 4097) clipFetch (proxyOnly clipVideo) = .ok clipJob ∧
      ¬ clipJob.Plays clipVideo := by
  let _ := clipAead
  let _ := clipJson
  have hagain : ∀ h, clipFetch.again = .ok h → h.Carries clipVideo := by
    intro h heq
    rw [← Except.ok.inj heq]
    exact clipHeader_carries
  have hcarries : clipFetch.header.Carries clipVideo := clipHeader_carries
  have hplays := openVideo_plays_iff (tableAead_sealedOnly _) injOn_clip List.mem_cons_self rfl
    hcarries hagain openVideo_clip
  refine ⟨openVideo_clip, fun hclip => ?_⟩
  obtain ⟨spec, hspec, hsize, -⟩ := hplays.mp hclip
  obtain rfl := Option.some.inj hspec
  exact absurd hsize (by decide)

end ClosedRuns

end MaxSecu
