import MaxSecu.App.BlobCache
import MaxSecu.App.FileViews

/-!
# Serving byte ranges of a video

A video is cut into fragments of consecutive content chunks, and the signed metadata says where each
begins.  A request for a range of bytes is mapped to the fragments that cover it.  Those that are not
cached are fetched, each is decrypted, and the range is cut out.

A chunk may come over a direct link, which nobody vouches for.  If the decryption then fails, these
chunks are fetched again from the server, and the range is put together once more.
-/

namespace MaxSecu

open ExceptRules

def playerErr : UiError := ⟨"video_failed", "The video could not be played."⟩

def videoErr : UiError := ⟨"video_failed", "The video could not be played."⟩

def rangeErr : UiError := ⟨"video_failed", "The video could not be streamed."⟩

def channelDead : UiError := ⟨"channel_dead", "The video connection dropped."⟩

def MAX_RANGE_BODY : ℕ := 2 * 1024 * 1024

/-! ## The fragment index -/

structure FragmentEntry where
  seq : ℕ
  ptsMs : ℕ
  chunkStart : ℕ
  chunkLen : ℕ

def FragmentEntry.covers (e : FragmentEntry) (chunk : ℕ) : Bool :=
  e.chunkStart ≤ chunk ∧ chunk < e.chunkStart + e.chunkLen

/-- One item of the list in the metadata, where a field may be missing. -/
structure FragmentItem where
  seq : Option UInt64
  ptsMs : Option UInt64
  chunkStart : Option UInt64
  chunkLen : Option UInt64

/-- The fragments from number `seq` on follow each other, without gaps, from chunk `start` on. -/
def Contiguous : ℕ → ℕ → List FragmentEntry → Prop
  | _, _, [] => True
  | seq, start, e :: rest =>
    e.seq = seq ∧ e.chunkStart = start ∧ 1 ≤ e.chunkLen ∧ start + e.chunkLen < 2 ^ 64 ∧
      Contiguous (seq + 1) (start + e.chunkLen) rest

/-- Fragments that make up the content from its first chunk on. -/
structure FragmentIndex where
  entries : List FragmentEntry
  nonempty : entries ≠ []
  contiguous : Contiguous 0 0 entries

/-- Check the items one after the other: the number and the first chunk that are expected, and the
latest time so far. -/
def parseFragments (seq start lastPts : ℕ) : List FragmentItem →
    Except UiError (List FragmentEntry)
  | [] => pure []
  | item :: rest => do
    let itemSeq ← item.seq.elim (throw videoErr) pure
    let ptsMs ← item.ptsMs.elim (throw videoErr) pure
    let chunkStart ← item.chunkStart.elim (throw videoErr) pure
    let chunkLen ← item.chunkLen.elim (throw videoErr) pure
    if itemSeq.toNat ≠ seq then
      throw videoErr
    else if ptsMs.toNat < lastPts then
      throw videoErr
    else if chunkLen < 1 then
      throw videoErr
    else if chunkStart.toNat ≠ start then
      throw videoErr
    else if 2 ^ 64 ≤ start + chunkLen.toNat then
      throw videoErr
    else
      let entries ← parseFragments (seq + 1) (start + chunkLen.toNat) ptsMs.toNat rest
      pure (⟨seq, ptsMs.toNat, start, chunkLen.toNat⟩ :: entries)

lemma contiguous_of_parse {items : List FragmentItem} {seq start lastPts : ℕ}
    {entries : List FragmentEntry} (h : parseFragments seq start lastPts items = .ok entries) :
    Contiguous seq start entries := by
  induction items generalizing seq start lastPts entries with
  | nil =>
    obtain rfl := pure_eq_ok.mp h
    trivial
  | cons item rest ih =>
    unfold parseFragments at h
    simp only [bind_eq_ok, elim_eq_ok, guard_eq_ok, pure_eq_ok] at h
    obtain ⟨_, -, _, -, _, -, len, -, -, -, hlen, -, hsum, entries', hrest, rfl⟩ := h
    have hpos : 1 ≤ len.toNat := by
      rw [UInt64.not_lt, UInt64.le_iff_toNat_le] at hlen
      exact hlen
    exact ⟨rfl, rfl, hpos, not_le.mp hsum, ih hrest⟩

lemma parseFragments_ne_nil {items : List FragmentItem} {seq start lastPts : ℕ}
    {entries : List FragmentEntry} (h : parseFragments seq start lastPts items = .ok entries)
    (hitems : items ≠ []) : entries ≠ [] := by
  cases items with
  | nil => exact absurd rfl hitems
  | cons item rest =>
    unfold parseFragments at h
    simp only [bind_eq_ok, elim_eq_ok, guard_eq_ok, pure_eq_ok] at h
    obtain ⟨_, -, _, -, _, -, _, -, -, -, -, -, -, entries', -, rfl⟩ := h
    exact List.cons_ne_nil _ _

/-- The index in the metadata, whose list of fragments may be missing. -/
def parseFragmentIndex (items : Option (List FragmentItem)) : Except UiError FragmentIndex :=
  match items with
  | none => throw videoErr
  | some items =>
    if hitems : items = [] then throw videoErr
    else
      match h : parseFragments 0 0 0 items with
      | .error e => throw e
      | .ok entries => pure ⟨entries, parseFragments_ne_nil h hitems, contiguous_of_parse h⟩

/-- Where a fragment begins, and how many chunks it has. -/
def FragmentIndex.chunksForFragment (index : FragmentIndex) (seq : ℕ) : Option (ℕ × ℕ) :=
  (index.entries.find? (·.seq = seq)).map fun e => (e.chunkStart, e.chunkLen)

/-! ## Ranges -/

/-- The bytes from `start` on, `len` of them. -/
structure RangeReq where
  start : ℕ
  len : ℕ
  deriving DecidableEq

/-- Clamp a requested range to the content, and to what one response may hold. -/
def resolveRange (first : ℕ) (lastInclusive : Option ℕ) (totalLen maxBody : ℕ) : Option RangeReq :=
  if totalLen = 0 ∨ totalLen ≤ first then none
  else
    let last := min (lastInclusive.getD (totalLen - 1)) (totalLen - 1)
    if last < first then none
    else some ⟨first, min (last - first + 1) (max maxBody 1)⟩

/-- The first and last fragment that a range needs, and the byte at which the first one begins. -/
structure RangePlan where
  f0 : ℕ
  f1 : ℕ
  base : ℕ
  deriving DecidableEq

def RangePlan.span (plan : RangePlan) : List ℕ := List.range' plan.f0 (plan.f1 + 1 - plan.f0)

/-- The number of the fragment that has a chunk. -/
def FragmentIndex.fragmentOf (index : FragmentIndex) (chunk : ℕ) : Option ℕ :=
  ((index.entries.filter (·.covers chunk)).getLast?).map FragmentEntry.seq

/-- The fragments that cover a range, if chunks have this size. -/
def planRange (index : FragmentIndex) (chunkSize : ℕ) (req : RangeReq) : Except UiError RangePlan :=
  if chunkSize = 0 ∨ req.len = 0 then
    throw rangeErr
  else if 2 ^ 64 ≤ req.start + (req.len - 1) then
    throw rangeErr
  else do
    let f0 ← (index.fragmentOf (req.start / chunkSize)).elim (throw rangeErr) pure
    let f1 ← (index.fragmentOf ((req.start + (req.len - 1)) / chunkSize)).elim (throw rangeErr) pure
    let (chunkStart, _) ← (index.chunksForFragment f0).elim (throw rangeErr) pure
    if 2 ^ 64 ≤ chunkStart * chunkSize then
      throw rangeErr
    else
      pure ⟨f0, f1, chunkStart * chunkSize⟩

/-- Cut the range out of the plaintext of the fragments. -/
def sliceRange (assembled : List UInt8) (base : ℕ) (req : RangeReq) : Except UiError (List UInt8) :=
  if req.start < base then
    throw rangeErr
  else if assembled.length < req.start - base + req.len then
    throw rangeErr
  else
    pure ((assembled.drop (req.start - base)).take req.len)

/-! ## Fragments -/

/-- The cache that all videos share. -/
abbrev MediaCache := BlobCache (Ns × Id × ℕ)

section Serve

variable [Aes256Gcm]

/-- Open consecutive chunks, each at its place in the content. -/
def ContentDecryptor.openRange (d : ContentDecryptor) (chunkStart : ℕ)
    (chunks : List (List UInt8)) : Except DownloadError (List UInt8) :=
  if d.contentChunkCount.toNat < chunkStart + chunks.length then
    throw (.framingBoundsExceeded "content fragment range")
  else
    (openChunks d.contentSubkey
      (fun i => ⟨d.fileId, d.version, .content, UInt64.ofNat i,
        i = d.contentChunkCount.toNat - 1⟩) chunkStart [] chunks).mapError
      fun _ => .streamFraming .content

/-- An open video.  The size of a chunk and the length of the content are what the view said. -/
structure VideoJob where
  decryptor : ContentDecryptor
  index : FragmentIndex
  fileId : Id
  chunkSize : ℕ
  totalLen : ℕ

def VideoJob.key (job : VideoJob) (seq : ℕ) : Ns × Id × ℕ := (.frag, job.fileId, seq)

/-- The chunks of a blob, if there are as many as the fragment has. -/
def cachedChunks (blob : Option (List UInt8)) (chunkLen : ℕ) : Option (List (List UInt8)) :=
  (blob.bind deframeChunks).filter fun chunks => chunks.length = chunkLen

/-- Decrypt one fragment.  What is not cached is taken from what was fetched, and is cached before
it is decrypted. -/
def VideoJob.feedFragment (job : VideoJob) (fetchChunk : ℕ → Except UiError (List UInt8)) (seq : ℕ)
    (cache : MediaCache) : Except UiError (List UInt8) × MediaCache :=
  match job.index.chunksForFragment seq with
  | none => (.error videoErr, cache)
  | some (chunkStart, chunkLen) =>
    if job.decryptor.contentChunkCount.toNat < chunkStart + chunkLen then (.error videoErr, cache)
    else
      let (blob, cache) := cache.get (job.key seq)
      match cachedChunks blob chunkLen with
      | some chunks =>
        ((job.decryptor.openRange chunkStart chunks).mapError fun _ => videoErr, cache)
      | none =>
        match (List.range' chunkStart chunkLen).mapM fetchChunk with
        | .error e => (.error e, cache)
        | .ok chunks =>
          ((job.decryptor.openRange chunkStart chunks).mapError fun _ => videoErr,
            cache.put (job.key seq) (frameChunks chunks))

/-- Decrypt fragments, one after the other, up to the first that fails. -/
def VideoJob.feedSpan (job : VideoJob) (fetchChunk : ℕ → Except UiError (List UInt8)) :
    List ℕ → MediaCache → Except UiError (List UInt8) × MediaCache
  | [], cache => (.ok [], cache)
  | seq :: span, cache =>
    match job.feedFragment fetchChunk seq cache with
    | (.error e, cache) => (.error e, cache)
    | (.ok pt, cache) =>
      match job.feedSpan fetchChunk span cache with
      | (.error e, cache) => (.error e, cache)
      | (.ok rest, cache) => (.ok (pt ++ rest), cache)

/-- The plaintext of the fragments of a plan, and the range cut out of it. -/
def VideoJob.assembleRange (job : VideoJob) (plan : RangePlan) (req : RangeReq)
    (fetchChunk : ℕ → Except UiError (List UInt8)) (cache : MediaCache) :
    Except UiError (List UInt8) × MediaCache :=
  match job.feedSpan fetchChunk plan.span cache with
  | (.error e, cache) => (.error e, cache)
  | (.ok assembled, cache) => (sliceRange assembled plan.base req, cache)

/-! ## A request -/

/-- What the fetches of a request bring, by chunk: the answer to a direct link if it is allowed,
brokered and answered, that of the server, and that of the server when it is asked again. -/
structure ChunkRoutes where
  direct : ℕ → Option (List UInt8)
  proxy : ℕ → Except UiError (List UInt8)
  proxyAgain : ℕ → Except UiError (List UInt8)

def mapFetchErr (e : UiError) : UiError := if e.code = "offline" then channelDead else playerErr

/-- One chunk, and whether it came over a direct link. -/
def ChunkRoutes.fetchChunkRouted (routes : ChunkRoutes) (i : ℕ) :
    Except UiError (List UInt8 × Bool) :=
  match routes.direct i with
  | some body => pure (body, true)
  | none => do
    let bytes ← routes.proxy i
    pure (bytes, false)

/-- A fetched chunk: its index, its bytes, and whether it came over a direct link. -/
structure Fetched where
  index : ℕ
  bytes : List UInt8
  direct : Bool

def ChunkRoutes.prefetch (routes : ChunkRoutes) (indices : List ℕ) :
    Except UiError (List Fetched) :=
  indices.mapM fun i => do
    let (bytes, direct) ← (routes.fetchChunkRouted i).mapError mapFetchErr
    pure ⟨i, bytes, direct⟩

/-- Fetch from the server what came over direct links. -/
def ChunkRoutes.refetch (routes : ChunkRoutes) (fetched : List Fetched) :
    Except UiError (List Fetched) :=
  fetched.mapM fun f =>
    if f.direct then do
      let bytes ← (routes.proxyAgain f.index).mapError mapFetchErr
      pure { f with bytes := bytes }
    else pure f

def fetchedChunk (fetched : List Fetched) (i : ℕ) : Except UiError (List UInt8) :=
  (fetched.find? (·.index = i)).elim (throw playerErr) fun f => pure f.bytes

/-- The chunks of the fragments that the cache does not have. -/
def VideoJob.planFetch (job : VideoJob) : List ℕ → MediaCache →
    Except UiError (List ℕ) × MediaCache
  | [], cache => (.ok [], cache)
  | seq :: span, cache =>
    match job.index.chunksForFragment seq with
    | none => (.error playerErr, cache)
    | some (chunkStart, chunkLen) =>
      let (blob, cache) := cache.get (job.key seq)
      let valid := (blob.bind deframeCount) = some chunkLen
      match job.planFetch span cache with
      | (.error e, cache) => (.error e, cache)
      | (.ok indices, cache) =>
        (.ok (if valid then indices else List.range' chunkStart chunkLen ++ indices), cache)

structure RangeResponse where
  start : ℕ
  len : ℕ
  totalLen : ℕ
  body : List UInt8
  deriving DecidableEq

/-- The range that a request resolves to, with its plan. -/
def VideoJob.planned (job : VideoJob) (first : ℕ) (lastInclusive : Option ℕ) :
    Except UiError (RangeReq × RangePlan) := do
  let req ← (resolveRange first lastInclusive job.totalLen MAX_RANGE_BODY).elim
    (throw ⟨"range_not_satisfiable", "range"⟩) pure
  let plan ← planRange job.index job.chunkSize req
  pure (req, plan)

/-- Put the range together, and once more if that fails and chunks came over direct links.  The
fragments of the plan are dropped from the cache before. -/
def VideoJob.assembleTwice (job : VideoJob) (routes : ChunkRoutes) (plan : RangePlan)
    (req : RangeReq) (fetched : List Fetched) (cache : MediaCache) :
    Except UiError (List UInt8) × MediaCache :=
  match job.assembleRange plan req (fetchedChunk fetched) cache with
  | (.ok body, cache) => (.ok body, cache)
  | (.error e, cache) =>
    if fetched.any Fetched.direct then
      match routes.refetch fetched with
      | .error e => (.error e, cache)
      | .ok fetched =>
        job.assembleRange plan req (fetchedChunk fetched)
          (plan.span.foldl (fun cache seq => cache.evict (job.key seq)) cache)
    else (.error e, cache)

def VideoJob.serveRange (job : VideoJob) (routes : ChunkRoutes) (first : ℕ)
    (lastInclusive : Option ℕ) (cache : MediaCache) : Except UiError RangeResponse × MediaCache :=
  match job.planned first lastInclusive with
  | .error e => (.error e, cache)
  | .ok (req, plan) =>
    match job.planFetch plan.span cache with
    | (.error e, cache) => (.error e, cache)
    | (.ok indices, cache) =>
      match routes.prefetch indices with
      | .error e => (.error e, cache)
      | .ok fetched =>
        match job.assembleTwice routes plan req fetched cache with
        | (.error e, cache) => (.error e, cache)
        | (.ok body, cache) => (.ok ⟨req.start, req.len, job.totalLen, body⟩, cache)

end Serve

/-! ## Opening a video -/

/-- The metadata of a video read as JSON: nothing if it is none, and else its list of fragments, if
it has one. -/
class MetadataJson where
  fragments : List UInt8 → Option (Option (List FragmentItem))

/-- The length that the server says, if the number of chunks bears it out. -/
def trustedTotalLen (n chunkSize serverTotal : ℕ) : Option ℕ :=
  if n = 0 ∨ chunkSize = 0 ∨ serverTotal = 0 then none
  else if 2 ^ 64 ≤ n * chunkSize then none
  else if (n - 1) * chunkSize < serverTotal ∧ serverTotal ≤ n * chunkSize then some serverTotal
  else none

/-- The length of a content with these chunks, the last of which has so many bytes. -/
def totalLen (contentChunkCount chunkSize lastChunkPlaintextLen : ℕ) : Except UiError ℕ :=
  if contentChunkCount = 0 ∨ chunkSize = 0 then
    throw rangeErr
  else if 2 ^ 64 ≤ (contentChunkCount - 1) * chunkSize + lastChunkPlaintextLen then
    throw rangeErr
  else
    pure ((contentChunkCount - 1) * chunkSize + lastChunkPlaintextLen)

section Open

variable [Sha256] [Ed25519] [Hkdf] [Aes256Gcm] [Hpke] [X25519] [MlKem768] [MetadataJson]

/-- Verify the header, and take the fragment index out of the metadata. -/
def openVideoJobCore (ctx : VerifyContext) (header : StreamHeader) :
    Except UiError (ContentDecryptor × FragmentIndex) := do
  let opened ← (verifyAndOpenHeaders ctx header).mapError fun _ => playerErr
  let metadata ← (opened.smallStreams.find? (·.streamType = .metadata)).elim (throw playerErr) pure
  let items ← (MetadataJson.fragments metadata.plaintext).elim (throw playerErr) pure
  let index ← parseFragmentIndex items
  let decryptor ← (openContentDecryptor ctx header).mapError fun _ => playerErr
  pure (decryptor, index)

/-- Decrypt the last chunk to learn the length of the content. -/
def probeTotalLen (d : ContentDecryptor) (chunkSize : ℕ) (routes : ChunkRoutes) :
    Except UiError ℕ := do
  let n := d.contentChunkCount.toNat
  if n = 0 then
    throw playerErr
  else
    let (ct, direct) ← routes.fetchChunkRouted (n - 1)
    match d.openRange (n - 1) [ct] with
    | .ok pt => totalLen n chunkSize pt.length
    | .error _ =>
      if direct then do
        let ct ← routes.proxyAgain (n - 1)
        let pt ← (d.openRange (n - 1) [ct]).mapError fun _ => playerErr
        totalLen n chunkSize pt.length
      else throw playerErr

/-- A served header, whether a part of it came over a direct link, and what the server serves when
it is asked again. -/
structure HeaderFetch where
  header : StreamHeader
  direct : Bool
  again : Except UiError StreamHeader

def ParsedView.contentSpec (view : ParsedView) : Option StreamSpec :=
  view.streams.find? (·.streamType = .content)

/-- Verify the header that was fetched, or the one that is fetched again from the server. -/
def HeaderFetch.openCore (fetch : HeaderFetch) (ctx : VerifyContext) :
    Except UiError (ContentDecryptor × FragmentIndex) :=
  match openVideoJobCore ctx fetch.header with
  | .ok opened => pure opened
  | .error e =>
    if fetch.direct then do
      let header ← fetch.again
      (openVideoJobCore ctx header).mapError fun _ => e
    else throw e

/-- The length that the server says, or else the one that the last chunk tells. -/
def videoLen (d : ContentDecryptor) (spec : StreamSpec) (routes : ChunkRoutes) :
    Except UiError ℕ :=
  match trustedTotalLen d.contentChunkCount.toNat spec.chunkSize.toNat spec.totalBytes.toNat with
  | some total => pure total
  | none => probeTotalLen d spec.chunkSize.toNat routes

/-- Open a video: the keys and the index are verified, and the size of a chunk is the view's. -/
def openVideo (ctx : VerifyContext) (view : ParsedView) (fetch : HeaderFetch)
    (routes : ChunkRoutes) : Except UiError VideoJob := do
  let (decryptor, index) ← fetch.openCore ctx
  let content ← view.contentSpec.elim (throw playerErr) pure
  let total ← videoLen decryptor content routes
  pure ⟨decryptor, index, ctx.fileId, content.chunkSize.toNat, total⟩

end Open

end MaxSecu
