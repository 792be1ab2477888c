import MaxSecu.Framework.Framing
import MaxSecu.Crypto.Aead

/-!
# Sealing a stream, and what the framing forbids

Every chunk is sealed with its index, whether it is the last one, and the file, version and stream
it belongs to.  Against an ideal AEAD, chunks taken from any number of streams open in place of a
stream only when they are its own chunks, all of them and in order.
-/

namespace MaxSecu

open ExceptRules Framing

/-- Seal one chunk; its nonce is its index. -/
def sealChunk [Aes256GcmSeal] (ck : Bytes 32) (aad : ChunkAad) (plaintext : List UInt8) :
    List UInt8 :=
  Aes256GcmSeal.encrypt ck (nonceFor aad.chunkIndex) (encode aad) plaintext

/-- A sealed stream: its chunks in order, their number, and the digest that the manifest commits
to. -/
structure SealedStream where
  chunks : List (List UInt8)
  chunkCount : UInt64
  digest : Bytes 32
  deriving DecidableEq

/-- Cut a plaintext into frames of `chunkSize` bytes.  An empty plaintext is one empty frame. -/
def framesOf (chunkSize : ℕ) (plaintext : List UInt8) : List (List UInt8) :=
  let frames := plaintext.toChunks chunkSize
  if frames.isEmpty then [[]] else frames

/-- Seal a whole stream.  `chunkSize` must be positive. -/
def sealStream [Sha256] [Aes256GcmSeal] (ck : Bytes 32) (fileId : Id) (version : UInt64)
    (streamType : StreamType) (chunkSize : ℕ) (plaintext : List UInt8) : SealedStream :=
  let frames := framesOf chunkSize plaintext
  let n := frames.length
  let chunks := frames.mapIdx fun i frame =>
    sealChunk ck ⟨fileId, version, streamType, UInt64.ofNat i, i = n - 1⟩ frame
  ⟨chunks, UInt64.ofNat n, streamDigest chunks⟩

section Frames

variable {chunkSize : ℕ} {plaintext : List UInt8}

lemma framesOf_ne_nil : framesOf chunkSize plaintext ≠ [] := by
  unfold framesOf
  by_cases hempty : (plaintext.toChunks chunkSize).isEmpty
  · rw [if_pos hempty]
    exact List.cons_ne_nil _ _
  · rw [if_neg hempty]
    simpa using hempty

lemma flatten_framesOf (hsize : 0 < chunkSize) :
    (framesOf chunkSize plaintext).flatten = plaintext := by
  unfold framesOf
  by_cases hempty : (plaintext.toChunks chunkSize).isEmpty
  · rw [if_pos hempty]
    have hnil : plaintext = [] := (toChunks_eq_nil hsize).mp (by simpa using hempty)
    rw [hnil]
    rfl
  · rw [if_neg hempty]
    exact flatten_toChunks hsize plaintext

lemma length_framesOf_le (hsize : 0 < chunkSize) :
    (framesOf chunkSize plaintext).length ≤ plaintext.length + 1 := by
  have hle := length_toChunks_le hsize plaintext
  unfold framesOf
  by_cases hempty : (plaintext.toChunks chunkSize).isEmpty
  · rw [if_pos hempty, List.length_singleton]
    omega
  · rw [if_neg hempty]
    omega

lemma length_le_framesOf (hsize : 0 < chunkSize) :
    plaintext.length ≤ (framesOf chunkSize plaintext).length * chunkSize := by
  have hle := length_le_toChunks hsize plaintext
  unfold framesOf
  by_cases hempty : (plaintext.toChunks chunkSize).isEmpty
  · rw [if_pos hempty]
    rw [List.isEmpty_iff.mp hempty, List.length_nil, Nat.zero_mul] at hle
    exact hle.trans (Nat.zero_le _)
  · rw [if_neg hempty]
    exact hle

end Frames

/-! ## Streams and the calls that seal them -/

/-- A stream about to be sealed: its key and context, its framing and its plaintext.  A slice holds
fewer than `2 ^ 63` bytes, and the framing is checked to be positive. -/
structure PlainStream where
  ck : Bytes 32
  fileId : Id
  version : UInt64
  streamType : StreamType
  chunkSize : ℕ
  plaintext : List UInt8
  chunkSize_pos : 0 < chunkSize
  length_lt : plaintext.length < 2 ^ 63

structure SealCall where
  key : Bytes 32
  nonce : Bytes 12
  aad : List UInt8
  msg : List UInt8

namespace PlainStream

variable (s : PlainStream)

def context : Bytes 32 × Id × UInt64 × StreamType := (s.ck, s.fileId, s.version, s.streamType)

def frames : List (List UInt8) := framesOf s.chunkSize s.plaintext

/-- The associated data of the stream's chunk `i`. -/
def chunkAad (i : ℕ) : ChunkAad :=
  ⟨s.fileId, s.version, s.streamType, UInt64.ofNat i, i = s.frames.length - 1⟩

def sealed [Sha256] [Aes256GcmSeal] : SealedStream :=
  sealStream s.ck s.fileId s.version s.streamType s.chunkSize s.plaintext

/-- The encryption of the stream's frame `i`. -/
def sealCall (i : ℕ) (frame : List UInt8) : SealCall :=
  ⟨s.ck, nonceFor (s.chunkAad i).chunkIndex, encode (s.chunkAad i), frame⟩

variable {s}

lemma frames_ne_nil : s.frames ≠ [] := framesOf_ne_nil

lemma flatten_frames : s.frames.flatten = s.plaintext := flatten_framesOf s.chunkSize_pos

lemma length_frames_lt : s.frames.length < 2 ^ 64 := by
  have hle : s.frames.length ≤ s.plaintext.length + 1 := length_framesOf_le s.chunkSize_pos
  have hlt := s.length_lt
  omega

lemma toNat_index {i : ℕ} (hi : i < s.frames.length) : (UInt64.ofNat i).toNat = i := by
  have hlt := s.length_frames_lt
  rw [UInt64.toNat_ofNat']
  exact Nat.mod_eq_of_lt (by omega)

end PlainStream

section Ideal

variable [Sha256] [Aes256Gcm] [Aes256GcmSeal]

def SealCall.ciphertext (call : SealCall) : List UInt8 :=
  Aes256GcmSeal.encrypt call.key call.nonce call.aad call.msg

/-- The AEAD is ideal for these streams: a ciphertext of theirs opens only under the key, nonce and
associated data of an encryption that produced it, and to what that encryption was given. -/
def IdealAead (streams : Set PlainStream) : Prop :=
  ∀ call : SealCall, ∀ s ∈ streams, ∀ ct ∈ s.sealed.chunks,
    Aes256Gcm.decrypt call.key call.nonce call.aad ct = some call.msg →
      call.ciphertext = ct ∧
        ∃ t ∈ streams, ∃ i frame, t.frames[i]? = some frame ∧ call = t.sealCall i frame

omit [Aes256Gcm] in
lemma PlainStream.getElem?_sealed_chunks {s : PlainStream} {i : ℕ} {frame : List UInt8}
    (h : s.frames[i]? = some frame) :
    s.sealed.chunks[i]? = some (s.sealCall i frame).ciphertext := by
  have hchunks : s.sealed.chunks =
      s.frames.mapIdx fun i frame => (s.sealCall i frame).ciphertext := rfl
  rw [hchunks, List.getElem?_mapIdx, h]
  rfl

omit [Aes256Gcm] in
lemma PlainStream.length_sealed_chunks {s : PlainStream} :
    s.sealed.chunks.length = s.frames.length :=
  List.length_mapIdx

variable {streams : Set PlainStream} {ck : Bytes 32} {fileId : Id} {version : UInt64}
  {streamType : StreamType}

/-- A chunk of the streams that opens at place `i` of `n` is a chunk of the stream with that key and
context, sealed under the same index and the same flag.  The associated data decides: its encoding
is injective. -/
lemma IdealAead.opened (hideal : IdealAead streams) {i n : ℕ} (hn : 0 < n) {ct pt : List UInt8}
    (hct : ∃ s ∈ streams, ct ∈ s.sealed.chunks)
    (hopen : openChunk ck ⟨fileId, version, streamType, UInt64.ofNat i, i = n - 1⟩ ct = .ok pt) :
    ∃ s ∈ streams, s.context = (ck, fileId, version, streamType) ∧
      ∃ j, s.frames[j]? = some pt ∧ s.sealed.chunks[j]? = some ct ∧
        UInt64.ofNat j = UInt64.ofNat i ∧ (j + 1 = s.frames.length ↔ i + 1 = n) := by
  obtain ⟨sealer, hsealer, hmem⟩ := hct
  have hdecrypt := elim_eq_ok.mp hopen
  obtain ⟨hcipher, s, hs, j, frame, hframe, hcall⟩ :=
    hideal ⟨ck, nonceFor (UInt64.ofNat i), _, pt⟩ sealer hsealer ct hmem hdecrypt
  have hpt : frame = pt := (congrArg SealCall.msg hcall).symm
  have hck : s.ck = ck := (congrArg SealCall.key hcall).symm
  have haad := encode_inj trivial trivial (congrArg SealCall.aad hcall)
  have hfile : s.fileId = fileId := (congrArg ChunkAad.fileId haad).symm
  have hversion : s.version = version := (congrArg ChunkAad.version haad).symm
  have htype : s.streamType = streamType := (congrArg ChunkAad.streamType haad).symm
  have hindex : UInt64.ofNat j = UInt64.ofNat i := (congrArg ChunkAad.chunkIndex haad).symm
  have hflag : decide (i = n - 1) = decide (j = s.frames.length - 1) :=
    congrArg ChunkAad.isLast haad
  have hlast : i = n - 1 ↔ j = s.frames.length - 1 := decide_eq_decide.mp hflag
  subst hpt
  refine ⟨s, hs, ?_, j, hframe, ?_, hindex, ?_⟩
  · rw [PlainStream.context, hck, hfile, hversion, htype]
  · rw [s.getElem?_sealed_chunks hframe, ← hcall, hcipher]
  · have hframes : 0 < s.frames.length := List.length_pos_of_ne_nil s.frames_ne_nil
    omega

/-- Where every chunk of a list opens at its place, the list is the chunk list of the one stream
with that key and context, and it opens to that stream's frames. -/
lemma IdealAead.opened_all (hideal : IdealAead streams)
    (hone : Set.InjOn PlainStream.context streams) {l pts : List (List UInt8)} (hl : l ≠ [])
    (hct : ∀ ct ∈ l, ∃ s ∈ streams, ct ∈ s.sealed.chunks) (hlength : pts.length = l.length)
    (hopen : ∀ i pt, pts[i]? = some pt → ∃ ct, l[i]? = some ct ∧
      openChunk ck ⟨fileId, version, streamType, UInt64.ofNat i, i = l.length - 1⟩ ct = .ok pt) :
    ∃ s ∈ streams, s.context = (ck, fileId, version, streamType) ∧ l = s.sealed.chunks ∧
      pts = s.frames := by
  have hpos : 0 < l.length := List.length_pos_of_ne_nil hl
  have hat : ∀ i pt, pts[i]? = some pt → ∃ ct, l[i]? = some ct ∧
      ∃ s ∈ streams, s.context = (ck, fileId, version, streamType) ∧
      ∃ j, s.frames[j]? = some pt ∧ s.sealed.chunks[j]? = some ct ∧
        UInt64.ofNat j = UInt64.ofNat i ∧ (j + 1 = s.frames.length ↔ i + 1 = l.length) := by
    intro i pt hpt
    obtain ⟨ct, hi, hi'⟩ := hopen i pt hpt
    exact ⟨ct, hi, hideal.opened hpos (hct ct (List.mem_of_getElem? hi)) hi'⟩
  obtain ⟨-, -, s, hs, hcontext, -⟩ := hat 0 _ (List.getElem?_eq_getElem (by omega))
  -- One context has one stream, so every place is about `s`.
  have hats : ∀ i pt, pts[i]? = some pt → ∃ ct, l[i]? = some ct ∧
      ∃ j, s.frames[j]? = some pt ∧ s.sealed.chunks[j]? = some ct ∧
        UInt64.ofNat j = UInt64.ofNat i ∧ (j + 1 = s.frames.length ↔ i + 1 = l.length) := by
    intro i pt hpt
    obtain ⟨ct, hi, t, ht, hcontext', hrest⟩ := hat i pt hpt
    have hsame : t = s := hone ht hs (hcontext'.trans hcontext.symm)
    exact ⟨ct, hi, hsame ▸ hrest⟩
  have hmark : ∀ i j, i < s.sealed.chunks.length → j < s.sealed.chunks.length →
      UInt64.ofNat i = UInt64.ofNat j → i = j := by
    intro i j hi hj heq
    rw [s.length_sealed_chunks] at hi hj
    rw [← s.toNat_index hi, ← s.toNat_index hj, heq]
  have hchunks : l = s.sealed.chunks := by
    refine eq_of_marked hmark hl fun i ct hi => ?_
    have hil : i < pts.length := by
      rw [hlength]
      exact (List.getElem?_eq_some_iff.mp hi).1
    obtain ⟨ct', hi', j, -, hj, hindex, hlast⟩ := hats i _ (List.getElem?_eq_getElem hil)
    have hsame : ct' = ct := Option.some.inj (hi'.symm.trans hi)
    rw [s.length_sealed_chunks]
    exact ⟨j, hsame ▸ hj, hindex, hlast⟩
  refine ⟨s, hs, hcontext, hchunks, ?_⟩
  have hframes : pts.length = s.frames.length := by
    rw [hlength, hchunks, s.length_sealed_chunks]
  apply List.ext_getElem hframes
  intro i hi hi'
  obtain ⟨_, -, j, hj, hchunk, hindex, -⟩ := hats i _ (List.getElem?_eq_getElem hi)
  have hplace : j = i := by
    apply hmark _ _ (List.getElem?_eq_some_iff.mp hchunk).1 _ hindex
    rw [s.length_sealed_chunks]
    exact hi'
  rw [hplace, List.getElem?_eq_getElem hi'] at hj
  exact (Option.some.inj hj).symm

end Ideal

/-! ## What the two openers release -/

section Opening

variable [Aes256Gcm] {ck : Bytes 32} {aad : ℕ → ChunkAad}

lemma openChunks_pieces {chunks : List (List UInt8)} {i : ℕ} {out out' : List UInt8}
    (h : openChunks ck aad i out chunks = .ok out') :
    ∃ pts : List (List UInt8), pts.length = chunks.length ∧ out' = out ++ pts.flatten ∧
      ∀ j pt, pts[j]? = some pt → ∃ ct, chunks[j]? = some ct ∧
        openChunk ck (aad (i + j)) ct = .ok pt := by
  induction chunks generalizing i out with
  | nil =>
    have hout : out = out' := pure_eq_ok.mp h
    exact ⟨[], rfl, by simp [hout], by simp⟩
  | cons ct chunks ih =>
    obtain ⟨pt, hpt, hrest⟩ := bind_eq_ok.mp h
    obtain ⟨pts, hlength, hout, hopen⟩ := ih hrest
    refine ⟨pt :: pts, by simp [hlength], by simp [hout], fun j p hj => ?_⟩
    cases j with
    | zero =>
      obtain rfl : pt = p := by simpa using hj
      exact ⟨ct, rfl, hpt⟩
    | succ j =>
      obtain ⟨ct', hct', hp⟩ := hopen j p (by simpa using hj)
      have hplace : i + (j + 1) = i + 1 + j := by omega
      exact ⟨ct', by simpa using hct', by rw [hplace]; exact hp⟩

variable {σ : Type}

/-- The fetches, on a state that also lists the frames handed to the sink. -/
def besideHanded (fetch : UInt64 → ExceptT CryptoError (StateM σ) (List UInt8)) (i : UInt64) :
    ExceptT CryptoError (StateM (σ × List (List UInt8))) (List UInt8) :=
  .mk fun s => ((runFrom (fetch i) s.1).1, ((runFrom (fetch i) s.1).2, s.2))

def recordHanded (sink : List UInt8 → ExceptT CryptoError (StateM σ) Unit) (frame : List UInt8) :
    ExceptT CryptoError (StateM (σ × List (List UInt8))) Unit :=
  .mk fun s => ((runFrom (sink frame) s.1).1, ((runFrom (sink frame) s.1).2, s.2 ++ [frame]))

variable {fetch : UInt64 → ExceptT CryptoError (StateM σ) (List UInt8)}
  {sink : List UInt8 → ExceptT CryptoError (StateM σ) Unit}

lemma streamChunks_projects (n i : ℕ) :
    Projects Prod.fst (streamChunks ck aad (besideHanded fetch) (recordHanded sink) n i)
      (streamChunks ck aad fetch sink n i) := by
  induction n generalizing i with
  | zero => exact .pure ()
  | succ n ih =>
    have hfetch : Projects Prod.fst (besideHanded fetch (UInt64.ofNat i))
        (fetch (UInt64.ofNat i)) := fun _ => rfl
    have hsink : ∀ pt, Projects Prod.fst (recordHanded sink pt) (sink pt) := fun _ _ => rfl
    unfold streamChunks
    exact hfetch.bind fun ct => (Projects.lift _).bind fun pt => (hsink pt).bind fun _ => ih (i + 1)

variable (ck aad fetch) in
/-- Each of the frames is a fetched chunk, opened at its place; the first place is `i`. -/
def OpenedFrom (i : ℕ) (frames : List (List UInt8)) : Prop :=
  ∀ j pt, frames[j]? = some pt → ∃ ct u v,
    runFrom (fetch (UInt64.ofNat (i + j))) u = (.ok ct, v) ∧ openChunk ck (aad (i + j)) ct = .ok pt

lemma OpenedFrom.nil {i : ℕ} : OpenedFrom ck aad fetch i [] := by
  intro j pt hj
  cases hj

lemma OpenedFrom.cons {i : ℕ} {ct pt : List UInt8} {frames : List (List UInt8)} {u v : σ}
    (hfetch : runFrom (fetch (UInt64.ofNat i)) u = (.ok ct, v))
    (hpt : openChunk ck (aad i) ct = .ok pt) (h : OpenedFrom ck aad fetch (i + 1) frames) :
    OpenedFrom ck aad fetch i (pt :: frames) := by
  intro j p hj
  cases j with
  | zero =>
    obtain rfl : pt = p := by simpa using hj
    exact ⟨ct, u, v, hfetch, hpt⟩
  | succ j =>
    have hplace : i + (j + 1) = i + 1 + j := by omega
    rw [hplace]
    exact h j p (by simpa using hj)

variable (ck aad fetch sink) in
/-- However the streaming loop ends, each frame it handed over is a fetched chunk opened at its
place, and it ends well only after the last place. -/
lemma streamChunks_handed (n i : ℕ) (s : σ) (handed : List (List UInt8)) :
    let ended := runFrom (streamChunks ck aad (besideHanded fetch) (recordHanded sink) n i)
      (s, handed)
    ∃ pts, ended.2.2 = handed ++ pts ∧ OpenedFrom ck aad fetch i pts ∧ pts.length ≤ n ∧
      (ended.1 = .ok () → pts.length = n) := by
  induction n generalizing i s handed with
  | zero => exact ⟨[], (List.append_nil _).symm, .nil, le_rfl, fun _ => rfl⟩
  | succ n ih =>
    rw [streamChunks]
    rcases hfetch : runFrom (fetch (UInt64.ofNat i)) s with ⟨r, u⟩
    have hfetched : runFrom (besideHanded fetch (UInt64.ofNat i)) (s, handed) = (r, u, handed) := by
      unfold besideHanded
      rw [runFrom_mk, hfetch]
    cases r with
    | error e =>
      rw [runFrom_bind_error hfetched]
      exact ⟨[], (List.append_nil _).symm, .nil, Nat.zero_le _, fun h => absurd h (by simp)⟩
    | ok ct =>
      rw [runFrom_bind_ok hfetched]
      have hlift := runFrom_liftM (openChunk ck (aad i) ct) (u, handed)
      cases hopen : openChunk ck (aad i) ct with
      | error e =>
        rw [hopen] at hlift
        rw [runFrom_bind_error hlift]
        exact ⟨[], (List.append_nil _).symm, .nil, Nat.zero_le _, fun h => absurd h (by simp)⟩
      | ok pt =>
        rw [hopen] at hlift
        rw [runFrom_bind_ok hlift]
        rcases hsink : runFrom (sink pt) u with ⟨r, t⟩
        have hsunk : runFrom (recordHanded sink pt) (u, handed) = (r, t, handed ++ [pt]) := by
          unfold recordHanded
          rw [runFrom_mk, hsink]
        cases r with
        | error e =>
          rw [runFrom_bind_error hsunk]
          exact ⟨[pt], rfl, .cons hfetch hopen .nil, Nat.le_add_left 1 n, fun h => absurd h (by simp)⟩
        | ok _ =>
          rw [runFrom_bind_ok hsunk]
          obtain ⟨pts, hpts, hopened, hle, hend⟩ := ih (i + 1) t (handed ++ [pt])
          refine ⟨pt :: pts, ?_, .cons hfetch hopen hopened, Nat.succ_le_succ hle, fun hok => ?_⟩
          · rw [hpts, List.append_assoc, List.singleton_append]
          · rw [List.length_cons, hend hok]

end Opening

section Framing

variable [Aes256Gcm] {σ : Type} {list : List (List UInt8)} {ck : Bytes 32} {fileId : Id}
  {version : UInt64} {streamType : StreamType} {chunkCount : UInt64}
  {fetch : UInt64 → ExceptT CryptoError (StateM σ) (List UInt8)}
  {sink : List UInt8 → ExceptT CryptoError (StateM σ) Unit}

variable (ck fileId version streamType chunkCount fetch sink) in
/-- The frames that streaming hands to the sink, in order, however it ends. -/
def handedFrames (start : σ) : List (List UInt8) :=
  (runFrom (openStreamStreaming ck fileId version streamType chunkCount (besideHanded fetch)
    (recordHanded sink)) (start, [])).2.2

/-- The fetches serve the chunks of a list, or fail. -/
def Serves (fetch : UInt64 → ExceptT CryptoError (StateM σ) (List UInt8))
    (list : List (List UInt8)) : Prop :=
  ∀ i s ct t, runFrom (fetch i) s = (.ok ct, t) → list[i.toNat]? = some ct

variable (sink) in
/-- The frames handed over are chunks of the list opened at their places, and a run that ends well
has handed over as many as there are chunks. -/
lemma handedFrames_spec (hcount : chunkCount.toNat = list.length) (hserve : Serves fetch list)
    (start : σ) :
    let handed := handedFrames ck fileId version streamType chunkCount fetch sink start
    (∀ i pt, handed[i]? = some pt → ∃ ct, list[i]? = some ct ∧
      openChunk ck ⟨fileId, version, streamType, UInt64.ofNat i, i = list.length - 1⟩ ct =
        .ok pt) ∧
    ∀ t, runFrom (openStreamStreaming ck fileId version streamType chunkCount fetch sink) start =
      (.ok (), t) → handed.length = list.length := by
  intro handed
  by_cases hzero : chunkCount = 0
  · have hhanded : handed = [] := by
      simp only [handed, handedFrames, openStreamStreaming, if_pos hzero]
      rfl
    refine ⟨by simp [hhanded], fun t hok => ?_⟩
    rw [openStreamStreaming, if_pos hzero] at hok
    cases congrArg Prod.fst hok
  · set aad : ℕ → ChunkAad :=
      fun i => ⟨fileId, version, streamType, UInt64.ofNat i, i = chunkCount.toNat - 1⟩ with haad
    have hrun : ∀ {τ : Type} (fetch' : UInt64 → ExceptT CryptoError (StateM τ) (List UInt8)) sink',
        openStreamStreaming ck fileId version streamType chunkCount fetch' sink' =
          streamChunks ck aad fetch' sink' chunkCount.toNat 0 := by
      intro τ fetch' sink'
      rw [openStreamStreaming, if_neg hzero]
    obtain ⟨pts, hpts, hopened, hle, hend⟩ :=
      streamChunks_handed ck aad fetch sink chunkCount.toNat 0 start []
    have hhanded : handed = pts := by
      simp only [handed, handedFrames, hrun]
      simpa using hpts
    rw [hhanded]
    refine ⟨fun i pt hi => ?_, fun t hok => ?_⟩
    · obtain ⟨ct, u, v, hfetch, hopen⟩ := hopened i pt hi
      have hil : i < pts.length := (List.getElem?_eq_some_iff.mp hi).1
      have hindex : (UInt64.ofNat i).toNat = i := by
        rw [UInt64.toNat_ofNat']
        exact Nat.mod_eq_of_lt (by have := chunkCount.toNat_lt; omega)
      rw [Nat.zero_add] at hfetch hopen
      have hct := hserve _ _ _ _ hfetch
      rw [hindex] at hct
      rw [← hcount]
      exact ⟨ct, hct, hopen⟩
    · rw [hrun, streamChunks_projects chunkCount.toNat 0 (start, [])] at hok
      rw [← hcount]
      exact hend (congrArg Prod.fst hok)

/-- **The framing forbids splicing, reordering, truncation and extension.**  Streams were sealed
under any keys, at most one for each key, file, version and stream type, and the AEAD is ideal for
them.  A non-empty list assembled from their chunks opens only when it is the chunk list of the one
stream with that key and context, and then to its plaintext.  The same holds of the streaming
opener over fetches that serve the list; however it ends, each frame it hands to the sink is the
stream's frame at that place. -/
theorem sealedStreams_framing [Sha256] [Aes256GcmSeal] {streams : Set PlainStream}
    (hone : Set.InjOn PlainStream.context streams) (hideal : IdealAead streams) (hne : list ≠ [])
    (hlist : ∀ ct ∈ list, ∃ s ∈ streams, ct ∈ s.sealed.chunks) (ck : Bytes 32) (fileId : Id)
    (version : UInt64) (streamType : StreamType) :
    (∀ out, openStream ck fileId version streamType list = .ok out →
      ∃ s ∈ streams, s.context = (ck, fileId, version, streamType) ∧ list = s.sealed.chunks ∧
        out = s.plaintext) ∧
    ∀ {σ : Type} (fetch : UInt64 → ExceptT CryptoError (StateM σ) (List UInt8))
      (sink : List UInt8 → ExceptT CryptoError (StateM σ) Unit) (chunkCount : UInt64) (start : σ),
      chunkCount.toNat = list.length → Serves fetch list →
      (∀ t, runFrom (openStreamStreaming ck fileId version streamType chunkCount fetch sink) start =
          (.ok (), t) →
        ∃ s ∈ streams, s.context = (ck, fileId, version, streamType) ∧ list = s.sealed.chunks ∧
          handedFrames ck fileId version streamType chunkCount fetch sink start = s.frames ∧
          s.frames.flatten = s.plaintext) ∧
      ∀ (i : ℕ) frame,
        (handedFrames ck fileId version streamType chunkCount fetch sink start)[i]? = some frame →
        ∃ s ∈ streams, s.context = (ck, fileId, version, streamType) ∧ s.frames[i]? = some frame := by
  have hpos : 0 < list.length := List.length_pos_of_ne_nil hne
  refine ⟨fun out hout => ?_, fun fetch sink chunkCount start hcount hserve => ⟨?_, ?_⟩⟩
  · unfold openStream at hout
    rw [if_neg (by simpa using hne)] at hout
    obtain ⟨pts, hlength, hjoin, hopen⟩ := openChunks_pieces hout
    simp only [Nat.zero_add] at hopen
    obtain ⟨s, hs, hcontext, hchunks, hframes⟩ :=
      hideal.opened_all hone hne hlist hlength hopen
    refine ⟨s, hs, hcontext, hchunks, ?_⟩
    rw [hjoin, hframes, List.nil_append, s.flatten_frames]
  · intro t hok
    obtain ⟨hopen, hall⟩ := handedFrames_spec sink hcount hserve start
    obtain ⟨s, hs, hcontext, hchunks, hframes⟩ :=
      hideal.opened_all hone hne hlist (hall t hok) hopen
    exact ⟨s, hs, hcontext, hchunks, hframes, s.flatten_frames⟩
  · intro i frame hi
    obtain ⟨hopen, -⟩ := handedFrames_spec sink hcount hserve start
    obtain ⟨ct, hct, hpt⟩ := hopen i frame hi
    obtain ⟨s, hs, hcontext, j, hj, -, hindex, -⟩ :=
      hideal.opened hpos (hlist ct (List.mem_of_getElem? hct)) hpt
    -- Both places are below `2 ^ 64`, so equal counters are equal places.
    have hil : i < chunkCount.toNat := by
      rw [hcount]
      exact (List.getElem?_eq_some_iff.mp hct).1
    have hplace : j = i := by
      have htoNat := congrArg UInt64.toNat hindex
      rw [s.toNat_index (List.getElem?_eq_some_iff.mp hj).1, UInt64.toNat_ofNat',
        Nat.mod_eq_of_lt (hil.trans chunkCount.toNat_lt)] at htoNat
      exact htoNat
    exact ⟨s, hs, hcontext, hplace ▸ hj⟩

end Framing

/-! ## A cipher that shows what it was given -/

/-- Ciphertexts that spell out the key, the nonce and the associated data before the message. -/
abbrev spellingAeadSeal : Aes256GcmSeal where
  encrypt k n a p := k.toList ++ n.toList ++ a ++ p

/-- Opening compares what is spelt out; associated data is a chunk's, 36 bytes long. -/
abbrev spellingAead : Aes256Gcm where
  decrypt k n a ct :=
    if a.length = 36 ∧ k.toList ++ n.toList ++ a <+: ct then some (ct.drop 80) else none

/-- A version of one stream; all its versions are under one key. -/
def versionOf (version : UInt64) (plaintext : List UInt8) (h : plaintext.length < 2 ^ 63) :
    PlainStream :=
  ⟨.replicate 32 7, ⟨.replicate 16 1⟩, version, .content, 1, plaintext, Nat.one_pos, h⟩

lemma length_encode_chunkAad (aad : ChunkAad) : (encode aad).length = 36 := by
  simp [encode, Canonical.encodeBody]

lemma spelt_inj {k k' : Bytes 32} {n n' : Bytes 12} {a a' p p' : List UInt8}
    (ha : a.length = a'.length)
    (h : k.toList ++ n.toList ++ a ++ p = k'.toList ++ n'.toList ++ a' ++ p') :
    SealCall.mk k n a p = ⟨k', n', a', p'⟩ := by
  obtain ⟨h, hp⟩ := List.append_inj h (by simp [ha])
  obtain ⟨h, ha⟩ := List.append_inj h (by simp)
  obtain ⟨hk, hn⟩ := List.append_inj h (by simp)
  rw [List.Vector.toList_injective hk, List.Vector.toList_injective hn, ha, hp]

lemma spellingAead_ideal (streams : Set PlainStream) :
    letI := tailSha256
    letI := spellingAead
    letI := spellingAeadSeal
    IdealAead streams := by
  let _ := tailSha256
  let _ := spellingAead
  let _ := spellingAeadSeal
  intro call s hs ct hct hopen
  obtain ⟨i, hi, hchunk⟩ := List.mem_iff_getElem.mp hct
  have hi' : i < s.frames.length := by
    rw [← s.length_sealed_chunks]
    exact hi
  have hframe := List.getElem?_eq_getElem hi'
  have hsealed := s.getElem?_sealed_chunks hframe
  rw [List.getElem?_eq_getElem hi, hchunk] at hsealed
  have hspelt : (s.sealCall i s.frames[i]).ciphertext = ct := (Option.some.inj hsealed).symm
  change (if call.aad.length = 36 ∧ call.key.toList ++ call.nonce.toList ++ call.aad <+: ct then
    some (ct.drop 80) else none) = some call.msg at hopen
  by_cases hgood : call.aad.length = 36 ∧ call.key.toList ++ call.nonce.toList ++ call.aad <+: ct
  · rw [if_pos hgood] at hopen
    obtain ⟨hlength, rest, hrest⟩ := hgood
    have hmsg : ct.drop 80 = rest := by
      rw [← hrest]
      exact List.drop_left' (by simp [hlength])
    have hcall : call.ciphertext = ct := by
      rw [← hrest, ← hmsg, Option.some.inj hopen]
      rfl
    refine ⟨hcall, s, hs, i, _, hframe, ?_⟩
    exact spelt_inj (hlength.trans (length_encode_chunkAad _).symm) (hcall.trans hspelt.symm)
  · rw [if_neg hgood] at hopen
    cases hopen

/-- Two versions of a stream are sealed under one key.  The chunks of the first open, so they are
all of its chunks. -/
theorem sealedStreams_framing_twoVersions :
    letI := tailSha256
    letI := spellingAead
    letI := spellingAeadSeal
    let first := versionOf 1 [1, 2] (by decide)
    let second := versionOf 2 [3] (by decide)
    openStream first.ck first.fileId 1 .content first.sealed.chunks = .ok [1, 2] ∧
      ∃ s ∈ ({first, second} : Set PlainStream),
        s.context = (first.ck, first.fileId, 1, .content) ∧
          first.sealed.chunks = s.sealed.chunks ∧ [1, 2] = s.plaintext := by
  let _ := tailSha256
  let _ := spellingAead
  let _ := spellingAeadSeal
  intro first second
  have hopen : openStream first.ck first.fileId 1 .content first.sealed.chunks = .ok [1, 2] := by
    decide +kernel
  have hone : Set.InjOn PlainStream.context {first, second} := by
    have hversions : first.context ≠ second.context := by decide
    intro s hs t ht heq
    rcases hs with rfl | rfl <;> rcases ht with rfl | rfl
    · rfl
    · exact absurd heq hversions
    · exact absurd heq.symm hversions
    · rfl
  have hchunks : first.sealed.chunks ≠ [] := by decide +kernel
  have hlist : ∀ ct ∈ first.sealed.chunks, ∃ s ∈ ({first, second} : Set PlainStream),
      ct ∈ s.sealed.chunks := fun ct hct => ⟨first, Set.mem_insert _ _, hct⟩
  exact ⟨hopen, (sealedStreams_framing hone (spellingAead_ideal _) hchunks hlist
    first.ck first.fileId 1 .content).1 _ hopen⟩

end MaxSecu
