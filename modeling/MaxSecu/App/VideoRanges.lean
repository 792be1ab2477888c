import MaxSecu.App.VideoStream
import MaxSecu.Client.DownloadAgreement
import MaxSecu.Client.HeaderChecks

/-!
# Which bytes a range is cut from

A chunk opens only at its own place, so the fragments of a plan are decrypted to consecutive frames of
what the author sealed, and the range is cut out of them (`VideoJob.assembleRange_ok`).  Where these
frames begin in the content is reckoned with the size of a chunk that the view says, and the view is
not signed.
-/

namespace MaxSecu

open ExceptRules Framing

/-! ## Fragments in order -/

lemma Contiguous.find? {seq start : ℕ} {entries : List FragmentEntry}
    (h : Contiguous seq start entries) (i : ℕ) :
    (entries.find? fun e => e.seq = seq + i) = entries[i]? := by
  induction entries generalizing seq start i with
  | nil => simp
  | cons e rest ih =>
    obtain ⟨hseq, -, -, -, hrest⟩ := h
    cases i with
    | zero => simp [hseq]
    | succ i =>
      have hne : ¬ e.seq = seq + (i + 1) := by omega
      have hnext := ih hrest i
      rw [List.find?_cons_of_neg (by simpa using hne), List.getElem?_cons_succ, ← hnext]
      congr 1
      funext e'
      rw [Nat.add_assoc, Nat.add_comm 1 i]

lemma Contiguous.next {seq start : ℕ} {entries : List FragmentEntry}
    (h : Contiguous seq start entries) {i : ℕ} {e e' : FragmentEntry} (he : entries[i]? = some e)
    (he' : entries[i + 1]? = some e') : e'.chunkStart = e.chunkStart + e.chunkLen := by
  induction entries generalizing seq start i with
  | nil => cases he
  | cons first rest ih =>
    obtain ⟨-, hstart, -, -, hrest⟩ := h
    cases i with
    | zero =>
      obtain rfl := Option.some.inj he
      cases rest with
      | nil => cases he'
      | cons second rest =>
        obtain rfl := Option.some.inj he'
        rw [hrest.2.1, hstart]
    | succ i => exact ih hrest he he'

namespace FragmentIndex

variable {index : FragmentIndex} {seq : ℕ}

lemma chunksForFragment_eq :
    index.chunksForFragment seq = index.entries[seq]?.map fun e => (e.chunkStart, e.chunkLen) := by
  have hfind := index.contiguous.find? seq
  rw [Nat.zero_add] at hfind
  rw [chunksForFragment, hfind]

lemma next {a l a' l' : ℕ} (h : index.chunksForFragment seq = some (a, l))
    (h' : index.chunksForFragment (seq + 1) = some (a', l')) : a' = a + l := by
  rw [chunksForFragment_eq, Option.map_eq_some_iff] at h h'
  obtain ⟨e, he, heq⟩ := h
  obtain ⟨e', he', heq'⟩ := h'
  obtain ⟨rfl, rfl⟩ := Prod.mk.inj heq
  obtain ⟨rfl, -⟩ := Prod.mk.inj heq'
  exact index.contiguous.next he he'

end FragmentIndex

/-! ## What opens -/

/-- Under this key nothing opens but what was sealed with it, and at the place it was sealed for. -/
def SealedOnly [Aes256Gcm] [Aes256GcmSeal] (streams : Set PlainStream) (ck : Bytes 32) : Prop :=
  ∀ nonce aad ct pt, Aes256Gcm.decrypt ck nonce aad ct = some pt →
    ∃ t ∈ streams, ∃ i frame, t.frames[i]? = some frame ∧ t.sealCall i frame = ⟨ck, nonce, aad, pt⟩ ∧
      (t.sealCall i frame).ciphertext = ct

/-- The manifest is that of the content: its framing, and a commitment to the key it was sealed
under. -/
structure Manifest.Declares [Hkdf] (m : Manifest) (s : PlainStream) : Prop where
  fileId : m.fileId = s.fileId
  version : m.version = s.version
  chunkSize : m.chunkSize.toNat = s.chunkSize
  content : s.streamType = .content
  count : ∀ ms, m.streams.find? (·.streamType = .content) = some ms →
    ms.chunkCount.toNat = s.frames.length
  key : ∀ dek : Dek, dek.commit = m.dekCommit.bytes → dek.streamSubkey .content = s.ck

/-- The header carries the manifest that the author signed. -/
def StreamHeader.Carries [Hkdf] (header : StreamHeader) (s : PlainStream) : Prop :=
  ∃ m, decode Manifest header.manifestBytes = .ok m ∧ m.Declares s

def PlainStream.decryptor (s : PlainStream) : ContentDecryptor :=
  ⟨s.ck, s.fileId, s.version, UInt64.ofNat s.frames.length⟩

section Frames

variable {n : ℕ} {α : Type}

lemma flatten_drop_toChunks (hn : 0 < n) (xs : List α) (k : ℕ) :
    ((xs.toChunks n).drop k).flatten = xs.drop (k * n) := by
  induction k generalizing xs with
  | zero => rw [List.drop_zero, Nat.zero_mul, List.drop_zero, flatten_toChunks hn]
  | succ k ih =>
    by_cases hxs : xs = []
    · subst hxs
      rw [toChunks_nil, List.drop_nil, List.drop_nil, List.flatten_nil]
    · rw [toChunks_eq hn hxs, List.drop_succ_cons, ih, List.drop_drop, Nat.succ_mul, Nat.add_comm]

lemma drop_eq_slice_append (xs : List α) {i e : ℕ} (h : i ≤ e) :
    xs.drop i = (xs.take e).drop i ++ xs.drop e := by
  have hend : i + (e - i) = e := by omega
  have hrest : xs.drop e = (xs.drop i).drop (e - i) := by rw [List.drop_drop, hend]
  rw [List.drop_take, hrest, List.take_append_drop]

end Frames

namespace PlainStream

variable {s : PlainStream}

lemma flatten_drop_frames (a : ℕ) :
    (s.frames.drop a).flatten = s.plaintext.drop (a * s.chunkSize) := by
  unfold frames framesOf
  by_cases hempty : (s.plaintext.toChunks s.chunkSize).isEmpty = true
  · have hnil : s.plaintext = [] :=
      (toChunks_eq_nil s.chunkSize_pos).mp (by simpa using hempty)
    rw [if_pos hempty, hnil, List.drop_nil]
    cases a with
    | zero => rfl
    | succ a =>
      rw [List.drop_succ_cons, List.drop_nil]
      rfl
  · rw [if_neg hempty]
    exact flatten_drop_toChunks s.chunkSize_pos s.plaintext a

lemma flatten_frames_slice (a l : ℕ) :
    ((s.frames.drop a).take l).flatten =
      (s.plaintext.take (min ((a + l) * s.chunkSize) s.plaintext.length)).drop
        (a * s.chunkSize) := by
  have hle : a * s.chunkSize ≤ (a + l) * s.chunkSize := Nat.mul_le_mul_right _ (by omega)
  have hframes : s.plaintext.drop (a * s.chunkSize) =
      ((s.frames.drop a).take l).flatten ++ s.plaintext.drop ((a + l) * s.chunkSize) := by
    rw [← flatten_drop_frames a, ← flatten_drop_frames (a + l), ← List.flatten_append,
      ← List.drop_drop, List.take_append_drop]
  have hslice := drop_eq_slice_append s.plaintext hle
  rw [List.take_eq_take_min] at hslice
  exact List.append_cancel_right (hframes.symm.trans hslice)

lemma toNat_count : (UInt64.ofNat s.frames.length).toNat = s.frames.length := by
  rw [UInt64.toNat_ofNat']
  exact Nat.mod_eq_of_lt s.length_frames_lt

end PlainStream

section Ideal

variable [Sha256] [Aes256Gcm] [Aes256GcmSeal] {streams : Set PlainStream} {s : PlainStream}

lemma SealedOnly.opened (hsealed : SealedOnly streams s.ck)
    (hone : Set.InjOn PlainStream.context streams) (hs : s ∈ streams)
    (hcontent : s.streamType = .content) {i : ℕ} (hi : i < s.frames.length) {ct pt : List UInt8}
    (hopen : openChunk s.ck ⟨s.fileId, s.version, .content, UInt64.ofNat i,
      i = s.frames.length - 1⟩ ct = .ok pt) :
    s.frames[i]? = some pt ∧ s.sealed.chunks[i]? = some ct := by
  have hdecrypt := elim_eq_ok.mp hopen
  obtain ⟨t, ht, j, frame, hframe, hcall, hcipher⟩ := hsealed _ _ _ _ hdecrypt
  have hck : t.ck = s.ck := congrArg SealCall.key hcall
  have haad := encode_inj trivial trivial (congrArg SealCall.aad hcall)
  have hfile : t.fileId = s.fileId := congrArg ChunkAad.fileId haad
  have hversion : t.version = s.version := congrArg ChunkAad.version haad
  have htype : t.streamType = .content := congrArg ChunkAad.streamType haad
  have hindex : UInt64.ofNat j = UInt64.ofNat i := congrArg ChunkAad.chunkIndex haad
  obtain rfl : t = s := by
    refine hone ht hs ?_
    rw [PlainStream.context, PlainStream.context, hck, hfile, hversion, htype, hcontent]
  have hj : j < t.frames.length := (List.getElem?_eq_some_iff.mp hframe).1
  have hplace : j = i := by
    rw [← t.toNat_index hj, ← t.toNat_index hi, hindex]
  obtain rfl : frame = pt := congrArg SealCall.msg hcall
  rw [← hplace]
  exact ⟨hframe, by rw [t.getElem?_sealed_chunks hframe, hcipher]⟩

lemma SealedOnly.openRange (hsealed : SealedOnly streams s.ck)
    (hone : Set.InjOn PlainStream.context streams) (hs : s ∈ streams)
    (hcontent : s.streamType = .content) {a : ℕ} {chunks : List (List UInt8)} {pt : List UInt8}
    (hopen : s.decryptor.openRange a chunks = .ok pt) :
    chunks = (s.sealed.chunks.drop a).take chunks.length ∧
      pt = ((s.frames.drop a).take chunks.length).flatten := by
  unfold ContentDecryptor.openRange at hopen
  have hcount : s.decryptor.contentChunkCount.toNat = s.frames.length := s.toNat_count
  rw [hcount, guard_eq_ok, mapError_eq_ok] at hopen
  obtain ⟨hbound, hloop⟩ := hopen
  obtain ⟨pts, hlength, hpt, hat⟩ := openChunks_pieces hloop
  have heach : ∀ j < chunks.length, s.frames[a + j]? = pts[j]? ∧
      s.sealed.chunks[a + j]? = chunks[j]? := by
    intro j hj
    have hp := List.getElem?_eq_getElem (hlength.symm ▸ hj : j < pts.length)
    obtain ⟨ct, hct, hone'⟩ := hat j _ hp
    obtain ⟨hframe, hchunk⟩ := hsealed.opened hone hs hcontent (by omega) hone'
    rw [hp, hct]
    exact ⟨hframe, hchunk⟩
  have hchunks : chunks = (s.sealed.chunks.drop a).take chunks.length := by
    apply List.ext_getElem?
    intro j
    by_cases hj : j < chunks.length
    · rw [List.getElem?_take_of_lt hj, List.getElem?_drop, (heach j hj).2]
    · rw [List.getElem?_eq_none (not_lt.mp hj), List.getElem?_eq_none]
      rw [List.length_take]
      omega
  refine ⟨hchunks, ?_⟩
  have hpts : pts = (s.frames.drop a).take chunks.length := by
    apply List.ext_getElem?
    intro j
    by_cases hj : j < chunks.length
    · rw [List.getElem?_take_of_lt hj, List.getElem?_drop, (heach j hj).1]
    · rw [List.getElem?_eq_none (by omega), List.getElem?_eq_none]
      rw [List.length_take]
      omega
  rw [hpt, List.nil_append, hpts]

/-! ## What was sealed opens -/

/-- What was sealed opens under the same key, at the same place. -/
def PlainStream.Opens (s : PlainStream) : Prop :=
  ∀ i frame, s.frames[i]? = some frame →
    Aes256Gcm.decrypt s.ck (nonceFor (s.chunkAad i).chunkIndex) (encode (s.chunkAad i))
      (s.sealCall i frame).ciphertext = some frame

/-- The chunks of a fragment as they were sealed. -/
def PlainStream.piece (s : PlainStream) (a l : ℕ) : List (List UInt8) :=
  (s.sealed.chunks.drop a).take l

omit [Aes256Gcm] in
lemma PlainStream.length_piece {a l : ℕ} (h : a + l ≤ s.frames.length) :
    (s.piece a l).length = l := by
  unfold piece
  rw [List.length_take, List.length_drop, s.length_sealed_chunks]
  omega

lemma PlainStream.Opens.openChunks (hopens : s.Opens) {a l : ℕ}
    (h : a + l ≤ s.frames.length) (out : List UInt8) :
    MaxSecu.openChunks s.ck (fun i => ⟨s.fileId, s.version, s.streamType, UInt64.ofNat i,
      i = s.frames.length - 1⟩) a out (s.piece a l) =
        .ok (out ++ ((s.frames.drop a).take l).flatten) := by
  induction l generalizing a out with
  | zero =>
    unfold piece
    rw [List.take_zero, List.take_zero, List.flatten_nil, List.append_nil]
    rfl
  | succ l ih =>
    have ha : a < s.frames.length := by omega
    have hframe := List.getElem?_eq_getElem ha
    have hchunk := s.getElem?_sealed_chunks hframe
    obtain ⟨hac, hchunk⟩ := List.getElem?_eq_some_iff.mp hchunk
    have hframes : (s.frames.drop a).take (l + 1) =
        s.frames[a] :: (s.frames.drop (a + 1)).take l := by
      rw [List.drop_eq_getElem_cons ha, List.take_succ_cons]
    have hpiece : s.piece a (l + 1) =
        (s.sealCall a s.frames[a]).ciphertext :: s.piece (a + 1) l := by
      unfold piece
      rw [List.drop_eq_getElem_cons hac, List.take_succ_cons, hchunk]
    have hopen : openChunk s.ck ⟨s.fileId, s.version, s.streamType, UInt64.ofNat a,
        a = s.frames.length - 1⟩ (s.sealCall a s.frames[a]).ciphertext = .ok s.frames[a] :=
      elim_eq_ok.mpr (hopens a _ hframe)
    rw [hpiece, hframes]
    unfold MaxSecu.openChunks
    refine bind_eq_ok.mpr ⟨_, hopen, ?_⟩
    rw [ih (by omega), List.flatten_cons, List.append_assoc]

lemma PlainStream.Opens.openRange (hopens : s.Opens) (hcontent : s.streamType = .content) {a l : ℕ}
    (h : a + l ≤ s.frames.length) :
    s.decryptor.openRange a (s.piece a l) = .ok ((s.frames.drop a).take l).flatten := by
  have hcount : s.decryptor.contentChunkCount.toNat = s.frames.length := s.toNat_count
  have hloop := hopens.openChunks h []
  rw [hcontent] at hloop
  unfold ContentDecryptor.openRange
  rw [hcount, guard_eq_ok, mapError_eq_ok, s.length_piece h]
  exact ⟨not_lt.mpr h, hloop⟩

lemma PlainStream.Opens.openStream (hopens : s.Opens) :
    MaxSecu.openStream s.ck s.fileId s.version s.streamType s.sealed.chunks = .ok s.plaintext := by
  have hloop := hopens.openChunks (Nat.zero_add s.frames.length).le []
  have hall : s.piece 0 s.frames.length = s.sealed.chunks := by
    unfold piece
    rw [List.drop_zero, ← s.length_sealed_chunks, List.take_length]
  rw [List.drop_zero, List.take_length, s.flatten_frames, List.nil_append, hall] at hloop
  have hne : ¬ s.sealed.chunks.isEmpty = true := by
    rw [List.isEmpty_iff_length_eq_zero, s.length_sealed_chunks]
    exact (List.length_pos_of_ne_nil s.frames_ne_nil).ne'
  unfold MaxSecu.openStream
  rw [if_neg hne, s.length_sealed_chunks]
  exact hloop

omit [Sha256] in
lemma AeadOpens.plainStream (haead : AeadOpens) (s : PlainStream) : s.Opens :=
  fun _ frame _ => haead.opens _ _ _ frame

/-! ## What a range is cut from -/

variable {job : VideoJob} {fetchChunk : ℕ → Except UiError (List UInt8)}
  {cache cache' : MediaCache}

lemma VideoJob.feedFragment_ok (hsealed : SealedOnly streams s.ck)
    (hone : Set.InjOn PlainStream.context streams) (hs : s ∈ streams)
    (hcontent : s.streamType = .content) (hjob : job.decryptor = s.decryptor) {seq : ℕ}
    {pt : List UInt8} (h : job.feedFragment fetchChunk seq cache = (.ok pt, cache')) :
    ∃ a l, job.index.chunksForFragment seq = some (a, l) ∧
      pt = ((s.frames.drop a).take l).flatten := by
  unfold feedFragment at h
  cases hplace : job.index.chunksForFragment seq with
  | none =>
    rw [hplace] at h
    cases h
  | some place =>
    obtain ⟨a, l⟩ := place
    refine ⟨a, l, rfl, ?_⟩
    rw [hplace, hjob] at h
    dsimp only at h
    by_cases hbound : s.decryptor.contentChunkCount.toNat < a + l
    · rw [if_pos hbound] at h
      cases h
    rw [if_neg hbound] at h
    cases hcached : cachedChunks (cache.get (job.key seq)).1 l with
    | some chunks =>
      rw [hcached] at h
      have hopen := mapError_eq_ok.mp (Prod.mk.inj h).1
      have hlength : chunks.length = l := of_decide_eq_true (Option.filter_eq_some_iff.mp hcached).2
      rw [← hlength]
      exact (hsealed.openRange hone hs hcontent hopen).2
    | none =>
      rw [hcached] at h
      dsimp only at h
      cases hfetch : (List.range' a l).mapM fetchChunk with
      | error e =>
        rw [hfetch] at h
        cases h
      | ok chunks =>
        rw [hfetch] at h
        have hopen := mapError_eq_ok.mp (Prod.mk.inj h).1
        have hlength : chunks.length = l := by
          rw [← (mapM_eq_ok.mp hfetch).length_eq, List.length_range']
        rw [← hlength]
        exact (hsealed.openRange hone hs hcontent hopen).2

lemma VideoJob.feedSpan_ok (hsealed : SealedOnly streams s.ck)
    (hone : Set.InjOn PlainStream.context streams) (hs : s ∈ streams)
    (hcontent : s.streamType = .content) (hjob : job.decryptor = s.decryptor) {f0 k a l : ℕ}
    {out : List UInt8} (hplace : job.index.chunksForFragment f0 = some (a, l))
    (h : job.feedSpan fetchChunk (List.range' f0 k) cache = (.ok out, cache')) :
    out <+: (s.frames.drop a).flatten := by
  induction k generalizing f0 a l out cache cache' with
  | zero =>
    obtain rfl := Except.ok.inj (Prod.mk.inj h).1
    exact List.nil_prefix
  | succ k ih =>
    rw [List.range'_succ] at h
    unfold feedSpan at h
    cases hfeed : job.feedFragment fetchChunk f0 cache with
    | mk result cache₁ =>
      cases result with
      | error e =>
        rw [hfeed] at h
        cases h
      | ok pt =>
        rw [hfeed] at h
        dsimp only at h
        obtain ⟨a', l', hplace', hpt⟩ := feedFragment_ok hsealed hone hs hcontent hjob hfeed
        obtain ⟨rfl, rfl⟩ := Prod.mk.inj (Option.some.inj (hplace'.symm.trans hplace))
        cases hrest : job.feedSpan fetchChunk (List.range' (f0 + 1) k) cache₁ with
        | mk result cache₂ =>
          rw [hrest] at h
          cases result with
          | error e => cases h
          | ok rest =>
            obtain rfl := Except.ok.inj (Prod.mk.inj h).1
            have hsplit : (s.frames.drop a').flatten =
                ((s.frames.drop a').take l').flatten ++ (s.frames.drop (a' + l')).flatten := by
              rw [← List.drop_drop, ← List.flatten_append, List.take_append_drop]
            rw [hsplit, hpt, List.prefix_append_right_inj]
            -- the next fragment, if there is one, begins where this one ends
            cases k with
            | zero =>
              obtain rfl := Except.ok.inj (Prod.mk.inj hrest).1
              exact List.nil_prefix
            | succ k =>
              obtain ⟨next, hnext⟩ : ∃ next, job.index.chunksForFragment (f0 + 1) = some next := by
                cases hnext : job.index.chunksForFragment (f0 + 1) with
                | some next => exact ⟨next, rfl⟩
                | none =>
                  rw [List.range'_succ] at hrest
                  unfold feedSpan feedFragment at hrest
                  rw [hnext] at hrest
                  cases hrest
              obtain ⟨b, m⟩ := next
              obtain rfl := job.index.next hplace hnext
              exact ih hnext hrest

/-- A range that is put together is cut from the content where its first fragment is taken to
begin. -/
lemma VideoJob.assembleRange_ok (hsealed : SealedOnly streams s.ck)
    (hone : Set.InjOn PlainStream.context streams) (hs : s ∈ streams)
    (hcontent : s.streamType = .content) (hjob : job.decryptor = s.decryptor) {plan : RangePlan}
    {req : RangeReq} {a l : ℕ} {body : List UInt8}
    (hplace : job.index.chunksForFragment plan.f0 = some (a, l))
    (h : job.assembleRange plan req fetchChunk cache = (.ok body, cache')) :
    plan.base ≤ req.start ∧ body.length = req.len ∧
      body = (s.plaintext.drop (a * s.chunkSize + (req.start - plan.base))).take req.len := by
  unfold assembleRange at h
  cases hfeed : job.feedSpan fetchChunk plan.span cache with
  | mk result cache₁ =>
    rw [hfeed] at h
    cases result with
    | error e => cases h
    | ok assembled =>
      have hslice : sliceRange assembled plan.base req = .ok body := (Prod.mk.inj h).1
      unfold sliceRange at hslice
      rw [guard_eq_ok, guard_eq_ok, pure_eq_ok] at hslice
      obtain ⟨hbase, hlong, rfl⟩ := hslice
      have hprefix := feedSpan_ok hsealed hone hs hcontent hjob hplace hfeed
      rw [s.flatten_drop_frames] at hprefix
      obtain ⟨later, hlater⟩ := hprefix
      refine ⟨not_lt.mp hbase, ?_, ?_⟩
      · rw [List.length_take, List.length_drop]
        omega
      · rw [← List.drop_drop, ← hlater, List.drop_append_of_le_length (by omega),
          List.take_append_of_le_length (by rw [List.length_drop]; omega)]

omit [Sha256] [Aes256GcmSeal] in
lemma VideoJob.assembleTwice_ok {routes : ChunkRoutes} {plan : RangePlan} {req : RangeReq}
    {fetched : List Fetched} {body : List UInt8}
    (h : job.assembleTwice routes plan req fetched cache = (.ok body, cache')) :
    ∃ fetchChunk cache₁ cache₂,
      job.assembleRange plan req fetchChunk cache₁ = (.ok body, cache₂) := by
  unfold assembleTwice at h
  cases hfirst : job.assembleRange plan req (fetchedChunk fetched) cache with
  | mk result cache₁ =>
    rw [hfirst] at h
    cases result with
    | ok body' =>
      obtain rfl := Except.ok.inj (Prod.mk.inj h).1
      exact ⟨_, _, _, hfirst⟩
    | error e =>
      dsimp only at h
      by_cases hdirect : fetched.any Fetched.direct = true
      · rw [if_pos hdirect] at h
        cases hagain : routes.refetch fetched with
        | error e =>
          rw [hagain] at h
          cases h
        | ok fetched' =>
          rw [hagain] at h
          exact ⟨_, _, _, h⟩
      · rw [if_neg hdirect] at h
        cases h

omit [Sha256] [Aes256GcmSeal] in
lemma VideoJob.serveRange_ok {routes : ChunkRoutes} {first : ℕ} {lastInclusive : Option ℕ}
    {resp : RangeResponse}
    (h : (job.serveRange routes first lastInclusive cache).1 = .ok resp) :
    ∃ req plan fetchChunk cache₁ cache₂, job.planned first lastInclusive = .ok (req, plan) ∧
      job.assembleRange plan req fetchChunk cache₁ = (.ok resp.body, cache₂) ∧
      resp.start = req.start ∧ resp.len = req.len := by
  unfold serveRange at h
  cases hplan : job.planned first lastInclusive with
  | error e =>
    rw [hplan] at h
    cases h
  | ok planned =>
    obtain ⟨req, plan⟩ := planned
    rw [hplan] at h
    dsimp only at h
    cases hfetch : job.planFetch plan.span cache with
    | mk result cache₁ =>
      rw [hfetch] at h
      cases result with
      | error e => cases h
      | ok indices =>
        dsimp only at h
        cases hprefetch : routes.prefetch indices with
        | error e =>
          rw [hprefetch] at h
          cases h
        | ok fetched =>
          rw [hprefetch] at h
          dsimp only at h
          cases htwice : job.assembleTwice routes plan req fetched cache₁ with
          | mk result cache₂ =>
            rw [htwice] at h
            cases result with
            | error e => cases h
            | ok body =>
              obtain rfl := Except.ok.inj h
              obtain ⟨fetchChunk, c, c', hassemble⟩ := assembleTwice_ok htwice
              exact ⟨req, plan, fetchChunk, c, c', rfl, hassemble, rfl, rfl⟩

/-- The first chunk of the fragment that a byte is taken to be in. -/
def VideoJob.firstChunk (job : VideoJob) (byte : ℕ) : Option ℕ :=
  ((job.index.fragmentOf (byte / job.chunkSize)).bind job.index.chunksForFragment).map Prod.fst

omit [Sha256] [Aes256Gcm] [Aes256GcmSeal] in
lemma VideoJob.planned_ok {first : ℕ} {lastInclusive : Option ℕ} {req : RangeReq}
    {plan : RangePlan} (h : job.planned first lastInclusive = .ok (req, plan)) :
    ∃ a l, job.index.chunksForFragment plan.f0 = some (a, l) ∧
      job.firstChunk req.start = some a ∧ plan.base = a * job.chunkSize := by
  unfold planned at h
  simp only [bind_eq_ok, elim_eq_ok, pure_eq_ok, Prod.mk.injEq] at h
  obtain ⟨req', -, plan', hplan, rfl, rfl⟩ := h
  unfold planRange at hplan
  simp only [guard_eq_ok, bind_eq_ok, elim_eq_ok, pure_eq_ok] at hplan
  obtain ⟨-, -, f0, hf0, f1, -, ⟨a, l⟩, hplace, -, rfl⟩ := hplan
  refine ⟨a, l, hplace, ?_, rfl⟩
  rw [firstChunk, hf0, Option.bind_some, hplace]
  rfl

end Ideal

/-! ## Any range -/

/-- **A range of chunks opens to the slice of the plaintext it was sealed from**, and a range past
the signed count is refused, whatever the chunks are. -/
theorem PlainStream.openRange_slice [Sha256] [Aes256Gcm] [Aes256GcmSeal] (haead : AeadOpens)
    (s : PlainStream) (hcontent : s.streamType = .content) :
    (∀ start k, start + k ≤ s.sealed.chunks.length →
      s.decryptor.openRange start ((s.sealed.chunks.drop start).take k) =
        .ok ((s.plaintext.take (min ((start + k) * s.chunkSize) s.plaintext.length)).drop
          (start * s.chunkSize))) ∧
    ∀ start (chunks : List (List UInt8)), s.sealed.chunks.length < start + chunks.length →
      s.decryptor.openRange start chunks =
        .error (.framingBoundsExceeded "content fragment range") := by
  rw [s.length_sealed_chunks]
  refine ⟨?_, ?_⟩
  · intro start k h
    have hopen := (haead.plainStream s).openRange hcontent h
    rw [PlainStream.flatten_frames_slice] at hopen
    exact hopen
  · intro start chunks h
    have hcount : s.decryptor.contentChunkCount.toNat = s.frames.length := s.toNat_count
    unfold ContentDecryptor.openRange
    rw [hcount, if_pos h]
    rfl

section ShortFrame

open ClosedRuns

def threeBytes : PlainStream :=
  ⟨.replicate 32 7, ⟨.replicate 16 1⟩, 1, .content, 2, [1, 2, 3], Nat.two_pos, by decide⟩

/-- The last frame is shorter than the others. -/
theorem openRange_slice_shortFrame :
    threeBytes.decryptor.openRange 1 ((threeBytes.sealed.chunks.drop 1).take 1) = .ok [3] :=
  (threeBytes.openRange_slice aeadOpens rfl).1 1 1 (by decide +kernel)

end ShortFrame

/-! ## Opening -/

section Open

variable [Sha256] [Ed25519] [Hkdf] [Aes256Gcm] [Hpke] [X25519] [MlKem768] [MetadataJson]
  {ctx : VerifyContext} {s : PlainStream}

omit [Sha256] [MetadataJson] in
lemma StreamHeader.Carries.decryptor {header : StreamHeader} {d : ContentDecryptor}
    (hcarries : header.Carries s) (h : openContentDecryptor ctx header = .ok d) :
    d = s.decryptor := by
  obtain ⟨m, hdecode, hdeclares⟩ := hcarries
  unfold openContentDecryptor at h
  obtain ⟨⟨m', dek, rok⟩, hheader, h⟩ := bind_eq_ok.mp h
  obtain ⟨ms, hms, h⟩ := bind_eq_ok.mp h
  simp only [guard_eq_ok, pure_eq_ok] at h
  obtain ⟨-, -, -, rfl⟩ := h
  obtain ⟨genesis, grant, haccepts, -⟩ := verifyHeader_eq_ok.mp hheader
  obtain rfl : m = m' := Except.ok.inj (hdecode.symm.trans haccepts.decodesManifest)
  have hcount : ms.chunkCount = UInt64.ofNat s.frames.length := by
    apply UInt64.toNat_inj.mp
    rw [hdeclares.count ms (elim_eq_ok.mp hms), s.toNat_count]
  have hfile : ctx.fileId = s.fileId := haccepts.manifestFile.symm.trans hdeclares.fileId
  rw [PlainStream.decryptor, hdeclares.key dek haccepts.commit, hdeclares.version, hcount, hfile]

omit [Sha256] [MetadataJson] in
lemma StreamHeader.Carries.bounds {header : StreamHeader} {d : ContentDecryptor}
    (hcarries : header.Carries s) (h : openContentDecryptor ctx header = .ok d) :
    s.chunkSize ≤ 2 ^ 23 ∧ s.frames.length < 2 ^ 32 := by
  obtain ⟨m, hdecode, hdeclares⟩ := hcarries
  unfold openContentDecryptor at h
  obtain ⟨⟨m', dek, rok⟩, hheader, h⟩ := bind_eq_ok.mp h
  obtain ⟨ms, hms, h⟩ := bind_eq_ok.mp h
  simp only [guard_eq_ok, pure_eq_ok] at h
  obtain ⟨-, -, haddr, -⟩ := h
  obtain ⟨genesis, grant, haccepts, -⟩ := verifyHeader_eq_ok.mp hheader
  obtain rfl : m = m' := Except.ok.inj (hdecode.symm.trans haccepts.decodesManifest)
  have hmin : CHUNK_SIZE_MIN.toNat = 4096 := by decide
  have hmax : CHUNK_SIZE_MAX.toNat = 2 ^ 23 := by decide
  have hrange := haccepts.chunkSize
  rw [not_or, UInt32.not_lt, UInt32.not_lt, UInt32.le_iff_toNat_le, UInt32.le_iff_toNat_le, hmin,
    hmax, hdeclares.chunkSize] at hrange
  have hcap := addressable_iff.mp (not_not.mp haddr)
  rw [hdeclares.count ms (elim_eq_ok.mp hms), hdeclares.chunkSize] at hcap
  refine ⟨hrange.2, ?_⟩
  have hmul : s.frames.length * 4096 ≤ s.frames.length * s.chunkSize :=
    Nat.mul_le_mul_left _ hrange.1
  omega

lemma openVideoJobCore_ok {header : StreamHeader} {d : ContentDecryptor}
    {index : FragmentIndex} (h : openVideoJobCore ctx header = .ok (d, index)) :
    openContentDecryptor ctx header = .ok d := by
  unfold openVideoJobCore at h
  simp only [bind_eq_ok, mapError_eq_ok, elim_eq_ok, pure_eq_ok, Prod.mk.injEq] at h
  obtain ⟨_, -, _, -, _, -, _, -, _, hd, rfl, -⟩ := h
  exact hd

lemma HeaderFetch.openCore_ok {fetch : HeaderFetch} {d : ContentDecryptor} {index : FragmentIndex}
    (hcarries : fetch.header.Carries s) (hagain : ∀ h, fetch.again = .ok h → h.Carries s)
    (h : fetch.openCore ctx = .ok (d, index)) :
    ∃ header : StreamHeader, header.Carries s ∧ openContentDecryptor ctx header = .ok d := by
  unfold openCore at h
  cases hfirst : openVideoJobCore ctx fetch.header with
  | ok opened =>
    rw [hfirst] at h
    obtain rfl := pure_eq_ok.mp h
    exact ⟨fetch.header, hcarries, openVideoJobCore_ok hfirst⟩
  | error e =>
    rw [hfirst] at h
    dsimp only at h
    by_cases hdirect : fetch.direct = true
    · rw [if_pos hdirect] at h
      obtain ⟨header, hheader, hretry⟩ := bind_eq_ok.mp h
      exact ⟨header, hagain header hheader, openVideoJobCore_ok (mapError_eq_ok.mp hretry)⟩
    · rw [if_neg hdirect] at h
      cases h

lemma openVideo_ok {view : ParsedView} {fetch : HeaderFetch} {routes : ChunkRoutes} {job : VideoJob}
    (hcarries : fetch.header.Carries s) (hagain : ∀ h, fetch.again = .ok h → h.Carries s)
    (h : openVideo ctx view fetch routes = .ok job) :
    job.decryptor = s.decryptor ∧ (s.chunkSize ≤ 2 ^ 23 ∧ s.frames.length < 2 ^ 32) ∧
      ∃ spec, view.contentSpec = some spec ∧ job.chunkSize = spec.chunkSize.toNat := by
  unfold openVideo at h
  obtain ⟨⟨d, index⟩, hopened, h⟩ := bind_eq_ok.mp h
  obtain ⟨spec, hspec, h⟩ := bind_eq_ok.mp h
  obtain ⟨total, -, h⟩ := bind_eq_ok.mp h
  obtain rfl := pure_eq_ok.mp h
  obtain ⟨header, hheader, hd⟩ := fetch.openCore_ok hcarries hagain hopened
  exact ⟨hheader.decryptor hd, hheader.bounds hd, spec, elim_eq_ok.mp hspec, rfl⟩

end Open

end MaxSecu
