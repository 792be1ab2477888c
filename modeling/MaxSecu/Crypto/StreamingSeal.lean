import MaxSecu.Crypto.KeyPairs

/-!
# Sealing a stream while it is read

`sealStreamStreaming` holds one frame at a time.  Whether a frame is the last one it learns by reading
the next, and a frame that is not full ends the stream without another read.

A reader may split its data as it likes, as long as it hands out something while there is something
left (`Splits`).  Then the chunks are those of the whole buffer, each emitted under its index
(`runFrom_sealStreamStreaming`).
-/

namespace MaxSecu

open ExceptRules Framing

/-! ## Reading frames -/

/-- The size of the buffer that a single read fills. -/
def READ_BUFFER : ℕ := 8192

section Reading

variable {ρ ε : Type} (read : ℕ → ρ → Except ε (List UInt8 × ρ))

/-- Read up to `cap` bytes onto `buf`.  One read may bring less than was asked for; only an empty one
is the end of the input. -/
def readUpto (cap : ℕ) (buf : List UInt8) (r : ρ) : Except CryptoError (List UInt8 × ρ) :=
  if buf.length < cap then do
    let got ← (read (min (cap - buf.length) READ_BUFFER) r).mapError
      fun _ => CryptoError.framing "stream read"
    if got.1 = [] then
      pure (buf, got.2)
    else
      readUpto cap (buf ++ got.1) got.2
  else
    pure (buf, r)
termination_by cap - buf.length
decreasing_by
  have hpos : 0 < got.1.length := List.length_pos_of_ne_nil ‹_›
  rw [List.length_append]
  omega

/-- The frame after `cur`, which is empty after the last one.  A short frame already was the end of
the input. -/
def readNext (chunkSize : ℕ) (cur : List UInt8) (r : ρ) : Except CryptoError (List UInt8 × ρ) :=
  if cur.length < chunkSize then pure ([], r) else readUpto read chunkSize [] r

/-- A reader over data: a read brings the next bytes, as many as fit at most, and none only at the
end.  `rest` is what is still to come. -/
def Splits (rest : ρ → List UInt8) : Prop :=
  ∀ want r, 0 < want → ∃ bytes r', read want r = .ok (bytes, r') ∧ rest r = bytes ++ rest r' ∧
    bytes.length ≤ want ∧ (bytes = [] → rest r = [])

variable {read} {rest : ρ → List UInt8}

lemma Splits.readUpto (hread : Splits read rest) (cap : ℕ) (buf : List UInt8) (r : ρ) :
    ∃ r', MaxSecu.readUpto read cap buf r = .ok (buf ++ (rest r).take (cap - buf.length), r') ∧
      rest r' = (rest r).drop (cap - buf.length) := by
  induction hroom : cap - buf.length using Nat.strong_induction_on generalizing buf r with
  | _ room ih =>
    unfold MaxSecu.readUpto
    by_cases hcap : buf.length < cap
    · rw [if_pos hcap]
      have hwant : 0 < min (cap - buf.length) READ_BUFFER := lt_min (by omega) (by decide)
      obtain ⟨bytes, r₁, hgot, hrest, hle, hend⟩ := hread _ r hwant
      rw [hgot]
      show ∃ r', (if bytes = [] then pure (buf, r₁)
        else MaxSecu.readUpto read cap (buf ++ bytes) r₁) = _ ∧ _
      by_cases hempty : bytes = []
      · rw [if_pos hempty]
        refine ⟨r₁, ?_, ?_⟩
        · rw [hend hempty, List.take_nil, List.append_nil]
          rfl
        · rw [hempty, List.nil_append] at hrest
          rw [← hrest, hend hempty, List.drop_nil]
      · have hpos : 0 < bytes.length := List.length_pos_of_ne_nil hempty
        have hfits : bytes.length ≤ room := hroom ▸ hle.trans (min_le_left _ _)
        have hless : cap - (buf ++ bytes).length = room - bytes.length := by
          rw [List.length_append]
          omega
        obtain ⟨r', hloop, hleft⟩ := ih (room - bytes.length) (by omega) (buf ++ bytes) r₁ hless
        rw [if_neg hempty, hloop]
        refine ⟨r', ?_, ?_⟩
        · rw [hrest, List.take_append, List.take_of_length_le hfits, List.append_assoc]
        · rw [hleft, hrest, List.drop_append, List.drop_of_length_le hfits, List.nil_append]
    · have hzero : room = 0 := by omega
      rw [if_neg hcap, hzero]
      exact ⟨r, by rw [List.take_zero, List.append_nil]; rfl, by rw [List.drop_zero]⟩

lemma Splits.readNext (hread : Splits read rest) {chunkSize : ℕ} {plaintext : List UInt8} {r : ρ}
    (hrest : rest r = plaintext.drop chunkSize) :
    ∃ r', MaxSecu.readNext read chunkSize (plaintext.take chunkSize) r =
        .ok ((plaintext.drop chunkSize).take chunkSize, r') ∧
      rest r' = (plaintext.drop chunkSize).drop chunkSize := by
  unfold MaxSecu.readNext
  by_cases hshort : (plaintext.take chunkSize).length < chunkSize
  · have hle : plaintext.length ≤ chunkSize := by
      rw [List.length_take] at hshort
      omega
    have hnil : plaintext.drop chunkSize = [] := List.drop_of_length_le hle
    rw [if_pos hshort, hnil, List.take_nil, List.drop_nil]
    exact ⟨r, rfl, hrest.trans hnil⟩
  · rw [if_neg hshort, ← hrest]
    exact hread.readUpto chunkSize [] r

end Reading

/-! ## Frames in order -/

section Frames

variable {chunkSize : ℕ} {plaintext : List UInt8}

lemma framesOf_of_length_le (hle : plaintext.length ≤ chunkSize) :
    framesOf chunkSize plaintext = [plaintext] := by
  unfold framesOf
  by_cases hempty : plaintext = []
  · subst hempty
    rw [toChunks_nil]
    rfl
  · have hpos : 0 < plaintext.length := List.length_pos_of_ne_nil hempty
    have hone : plaintext.toChunks chunkSize = [plaintext] := by
      rw [toChunks_eq (hpos.trans_le hle) hempty, List.take_of_length_le hle,
        List.drop_of_length_le hle, toChunks_nil]
    rw [hone]
    rfl

lemma framesOf_of_lt_length (hsize : 0 < chunkSize) (hlt : chunkSize < plaintext.length) :
    framesOf chunkSize plaintext =
      plaintext.take chunkSize :: framesOf chunkSize (plaintext.drop chunkSize) := by
  have hne : plaintext ≠ [] := List.ne_nil_of_length_pos (by omega)
  have hrest : plaintext.drop chunkSize ≠ [] := by
    apply List.ne_nil_of_length_pos
    rw [List.length_drop]
    omega
  unfold framesOf
  rw [toChunks_eq hsize hne, toChunks_eq hsize hrest]
  rfl

end Frames

/-! ## The sealing loop -/

section Sealing

variable [Sha256] [Aes256GcmSeal] {ρ ε σ : Type}

section Loop

variable (read : ℕ → ρ → Except ε (List UInt8 × ρ)) (ck : Bytes 32) (fileId : Id) (version : UInt64)
  (streamType : StreamType) (chunkSize : ℕ)
  (emit : UInt64 → List UInt8 → ExceptT CryptoError (StateM σ) Unit)

/-- The loop, with the frame `cur` to be sealed under `index` and the tags of the chunks before it.
It is `none` when it goes on after `fuel` rounds, as it does over a reader without an end. -/
def sealFrames : ℕ → UInt64 → List UInt8 → List UInt8 → ρ →
    ExceptT CryptoError (StateM σ) (Option (UInt64 × Bytes 32))
  | 0, _, _, _, _ => pure none
  | fuel + 1, index, tags, cur, r => do
    let next ← liftM (readNext read chunkSize cur r)
    let isLast := next.1.isEmpty
    let ct := sealChunk ck ⟨fileId, version, streamType, index, isLast⟩ cur
    let tags := tags ++ ct.drop (ct.length - TAG_LEN)
    emit index ct
    if isLast then
      pure (some (index + 1, sha256 tags))
    else
      sealFrames fuel (index + 1) tags next.1 next.2

/-- Seal a stream from a reader, one frame at a time, and hand each chunk to `emit`.  It returns the
number of chunks and their digest.  `chunkSize` must be positive. -/
def sealStreamStreaming (fuel : ℕ) (r : ρ) :
    ExceptT CryptoError (StateM σ) (Option (UInt64 × Bytes 32)) := do
  let cur ← liftM (readUpto read chunkSize [] r)
  sealFrames read ck fileId version streamType chunkSize emit fuel 0 [] cur.1 cur.2

end Loop

/-- Hand out chunks one after the other under consecutive indices, up to the first that is
refused. -/
def emitAll (emit : UInt64 → List UInt8 → ExceptT CryptoError (StateM σ) Unit) :
    UInt64 → List (List UInt8) → ExceptT CryptoError (StateM σ) Unit
  | _, [] => pure ()
  | index, ct :: chunks => do
    emit index ct
    emitAll emit (index + 1) chunks

/-- The chunks of these frames, which come last in a stream and start at `index`. -/
def sealFrom (ck : Bytes 32) (fileId : Id) (version : UInt64) (streamType : StreamType)
    (index : UInt64) (frames : List (List UInt8)) : List (List UInt8) :=
  frames.mapIdx fun j frame =>
    sealChunk ck ⟨fileId, version, streamType, index + UInt64.ofNat j, j = frames.length - 1⟩ frame

section Runs

variable {ck : Bytes 32} {fileId : Id} {version : UInt64} {streamType : StreamType}
  {chunkSize : ℕ}

omit [Sha256] in
lemma sealFrom_cons {index : UInt64} {frame : List UInt8} {frames : List (List UInt8)}
    (hframes : frames ≠ []) :
    sealFrom ck fileId version streamType index (frame :: frames) =
      sealChunk ck ⟨fileId, version, streamType, index, false⟩ frame ::
        sealFrom ck fileId version streamType (index + 1) frames := by
  have hpos : 0 < frames.length := List.length_pos_of_ne_nil hframes
  unfold sealFrom
  rw [List.mapIdx_cons]
  refine congr (congrArg List.cons ?_) ?_
  · have hfirst : decide (0 = (frame :: frames).length - 1) = false := by
      rw [decide_eq_false_iff_not, List.length_cons]
      omega
    rw [hfirst]
    exact congrArg (fun i => sealChunk ck ⟨fileId, version, streamType, i, false⟩ frame)
      (UInt64.add_zero index)
  · congr 1
    funext j frame
    have hindex : index + UInt64.ofNat (j + 1) = index + 1 + UInt64.ofNat j := by
      rw [UInt64.ofNat_add, UInt64.add_assoc, UInt64.add_comm (UInt64.ofNat j)]
      rfl
    have hlast : decide (j + 1 = (frame :: frames).length - 1) = decide (j = frames.length - 1) := by
      rw [decide_eq_decide, List.length_cons]
      omega
    rw [hindex]
    congr 2

omit [Sha256] in
lemma sealFrom_singleton {index : UInt64} {frame : List UInt8} :
    sealFrom ck fileId version streamType index [frame] =
      [sealChunk ck ⟨fileId, version, streamType, index, true⟩ frame] := by
  exact congrArg (fun i => [sealChunk ck ⟨fileId, version, streamType, i, true⟩ frame])
    (UInt64.add_zero index)

lemma sealStream_eq_sealFrom {plaintext : List UInt8} :
    (sealStream ck fileId version streamType chunkSize plaintext).chunks =
      sealFrom ck fileId version streamType 0 (framesOf chunkSize plaintext) := by
  show List.mapIdx _ _ = List.mapIdx _ _
  congr 1
  funext j frame
  rw [UInt64.zero_add]

variable {read : ℕ → ρ → Except ε (List UInt8 × ρ)} {rest : ρ → List UInt8}
  {emit : UInt64 → List UInt8 → ExceptT CryptoError (StateM σ) Unit}

omit [Sha256] [Aes256GcmSeal] in
lemma runFrom_bind_congr {α β : Type} {x : ExceptT CryptoError (StateM σ) α}
    {f g : α → ExceptT CryptoError (StateM σ) β}
    (h : ∀ a u, runFrom (f a) u = runFrom (g a) u) {t : σ} :
    runFrom (x >>= f) t = runFrom (x >>= g) t := by
  rw [runFrom_bind, runFrom_bind]
  rcases runFrom x t with ⟨r, u⟩
  cases r with
  | error e => rfl
  | ok a => exact h a u

/-- From a frame and a reader that together hold `plaintext`, the loop emits the chunks of its frames.
The induction is on the rounds left, which are no fewer than the frames. -/
lemma Splits.sealFrames (hread : Splits read rest) (hsize : 0 < chunkSize) {fuel : ℕ}
    {plaintext : List UInt8} {r : ρ} (hrest : rest r = plaintext.drop chunkSize)
    (hfuel : (framesOf chunkSize plaintext).length ≤ fuel) (index : UInt64) (tags : List UInt8)
    (t : σ) :
    let chunks := sealFrom ck fileId version streamType index (framesOf chunkSize plaintext)
    runFrom (MaxSecu.sealFrames read ck fileId version streamType chunkSize emit fuel index tags
        (plaintext.take chunkSize) r) t =
      runFrom (do
        emitAll emit index chunks
        pure (some (index + UInt64.ofNat chunks.length,
          sha256 (tags ++ chunks.flatMap fun ct => ct.drop (ct.length - TAG_LEN))))) t := by
  intro chunks
  induction fuel generalizing plaintext r index tags t with
  | zero =>
    have hnil : framesOf chunkSize plaintext = [] := List.length_eq_zero_iff.mp (by omega)
    exact absurd hnil framesOf_ne_nil
  | succ fuel ih =>
    obtain ⟨r', hnext, hleft⟩ := hread.readNext hrest
    have hround : runFrom (liftM (MaxSecu.readNext read chunkSize (plaintext.take chunkSize) r) :
        ExceptT CryptoError (StateM σ) (List UInt8 × ρ)) t =
          (.ok ((plaintext.drop chunkSize).take chunkSize, r'), t) := by
      rw [runFrom_liftM, hnext]
    rw [MaxSecu.sealFrames, runFrom_bind_ok hround]
    by_cases hlast : plaintext.length ≤ chunkSize
    · have hnil : (plaintext.drop chunkSize).take chunkSize = [] := by
        rw [List.drop_of_length_le hlast, List.take_nil]
      have hchunks : chunks =
          [sealChunk ck ⟨fileId, version, streamType, index, true⟩ plaintext] := by
        show sealFrom _ _ _ _ _ _ = _
        rw [framesOf_of_length_le hlast, sealFrom_singleton]
      rw [hnil, hchunks, List.take_of_length_le hlast]
      show runFrom (emit index _ >>= fun _ => pure _) t =
        runFrom ((emit index _ >>= fun _ => pure ()) >>= fun _ => pure _) t
      rw [bind_assoc, List.flatMap_singleton]
      rfl
    · have hlt : chunkSize < plaintext.length := not_le.mp hlast
      have hne : (plaintext.drop chunkSize).take chunkSize ≠ [] := by
        apply List.ne_nil_of_length_pos
        rw [List.length_take, List.length_drop]
        omega
      have hframes := framesOf_of_lt_length hsize hlt
      have hchunks : chunks =
          sealChunk ck ⟨fileId, version, streamType, index, false⟩ (plaintext.take chunkSize) ::
            sealFrom ck fileId version streamType (index + 1)
              (framesOf chunkSize (plaintext.drop chunkSize)) := by
        show sealFrom _ _ _ _ _ _ = _
        rw [hframes, sealFrom_cons framesOf_ne_nil]
      have hrounds : (framesOf chunkSize (plaintext.drop chunkSize)).length ≤ fuel := by
        rw [hframes, List.length_cons] at hfuel
        omega
      have hisLast : ((plaintext.drop chunkSize).take chunkSize).isEmpty = false := by
        simpa using hne
      simp only [hisLast, Bool.false_eq_true, if_false]
      rw [hchunks, emitAll, bind_assoc]
      refine runFrom_bind_congr fun _ u => ?_
      rw [ih hleft hrounds]
      have hcount : ∀ n, index + 1 + UInt64.ofNat n = index + UInt64.ofNat (n + 1) := by
        intro n
        rw [UInt64.ofNat_add, UInt64.add_assoc, UInt64.add_comm (UInt64.ofNat n)]
        rfl
      rw [List.length_cons, List.flatMap_cons, List.append_assoc, hcount]

lemma Splits.sealStreamStreaming (hread : Splits read rest) (hsize : 0 < chunkSize) {fuel : ℕ}
    {plaintext : List UInt8} {r : ρ} (hrest : rest r = plaintext)
    (hfuel : (framesOf chunkSize plaintext).length ≤ fuel) (t : σ) :
    runFrom (MaxSecu.sealStreamStreaming read ck fileId version streamType chunkSize emit fuel r) t =
      runFrom (do
        emitAll emit 0 (sealStream ck fileId version streamType chunkSize plaintext).chunks
        pure (some ((sealStream ck fileId version streamType chunkSize plaintext).chunkCount,
          (sealStream ck fileId version streamType chunkSize plaintext).digest))) t := by
  obtain ⟨r', hfirst, hleft⟩ := hread.readUpto chunkSize [] r
  have hcur : runFrom (liftM (MaxSecu.readUpto read chunkSize [] r) :
      ExceptT CryptoError (StateM σ) (List UInt8 × ρ)) t =
        (.ok (plaintext.take chunkSize, r'), t) := by
    rw [runFrom_liftM, hfirst, hrest]
    rfl
  have hafter : rest r' = plaintext.drop chunkSize := by
    rw [hleft, hrest]
    rfl
  unfold MaxSecu.sealStreamStreaming
  rw [runFrom_bind_ok hcur, hread.sealFrames hsize hafter hfuel, ← sealStream_eq_sealFrom,
    length_sealStream_chunks, UInt64.zero_add]
  rfl

end Runs

end Sealing

/-! ## Both ways, and back -/

section Opening

variable [Aes256Gcm] [Aes256GcmSeal] {σ : Type} {ck : Bytes 32} {aad : ℕ → ChunkAad}
  {fetch : UInt64 → ExceptT CryptoError (StateM σ) (List UInt8)}
  {sink : List UInt8 → ExceptT CryptoError (StateM σ) Unit}

/-- Over chunks that were sealed at their places, the streaming loop releases their frames in
order. -/
lemma AeadOpens.streamChunks (haead : AeadOpens) {frames : List (List UInt8)} {i : ℕ}
    (hfetch : ∀ j frame, frames[j]? = some frame → ∀ t,
      runFrom (fetch (UInt64.ofNat (i + j))) t = (.ok (sealChunk ck (aad (i + j)) frame), t))
    (t : σ) :
    runFrom (MaxSecu.streamChunks ck aad fetch sink frames.length i) t =
      runFrom (frames.forM sink) t := by
  induction frames generalizing i t with
  | nil => rfl
  | cons frame frames ih =>
    have hfirst : runFrom (fetch (UInt64.ofNat i)) t = (.ok (sealChunk ck (aad i) frame), t) :=
      hfetch 0 frame rfl t
    have hopen : openChunk ck (aad i) (sealChunk ck (aad i) frame) = .ok frame :=
      elim_eq_ok.mpr (haead.opens ck _ _ frame)
    have hopened : runFrom (liftM (openChunk ck (aad i) (sealChunk ck (aad i) frame)) :
        ExceptT CryptoError (StateM σ) (List UInt8)) t = (.ok frame, t) := by
      rw [runFrom_liftM, hopen]
    have hrest : ∀ j frame', frames[j]? = some frame' → ∀ t,
        runFrom (fetch (UInt64.ofNat (i + 1 + j))) t =
          (.ok (sealChunk ck (aad (i + 1 + j)) frame'), t) := by
      intro j frame' hj t
      have hindex : i + 1 + j = i + (j + 1) := by omega
      rw [hindex]
      exact hfetch (j + 1) frame' hj t
    rw [List.length_cons, MaxSecu.streamChunks, runFrom_bind_ok hfirst, runFrom_bind_ok hopened,
      List.forM_eq_forM, List.forM_cons]
    exact runFrom_bind_congr fun _ u => ih hrest u

variable [Sha256]

/-- What was sealed from a reader is what `sealStream` makes of the whole plaintext: the chunks, in
order and under consecutive indices, their number and their digest.  They open to the plaintext, all
at once and one by one.  Reads may be split in any way, and `emit` may stop the loop. -/
theorem PlainStream.sealStreamStreaming_eq (s : PlainStream) (haead : AeadOpens) {ρ ε : Type}
    {read : ℕ → ρ → Except ε (List UInt8 × ρ)} {rest : ρ → List UInt8} (hread : Splits read rest)
    {r : ρ} (hrest : rest r = s.plaintext) :
    (∀ (emit : UInt64 → List UInt8 → ExceptT CryptoError (StateM σ) Unit) (fuel : ℕ),
      s.frames.length ≤ fuel → ∀ t,
        runFrom (sealStreamStreaming read s.ck s.fileId s.version s.streamType s.chunkSize emit fuel
            r) t =
          runFrom (do
            emitAll emit 0 s.sealed.chunks
            pure (some (s.sealed.chunkCount, s.sealed.digest))) t) ∧
      openStream s.ck s.fileId s.version s.streamType s.sealed.chunks = .ok s.plaintext ∧
      s.frames.flatten = s.plaintext ∧
      ∀ (fetch : UInt64 → ExceptT CryptoError (StateM σ) (List UInt8))
        (sink : List UInt8 → ExceptT CryptoError (StateM σ) Unit),
        (∀ i ct, s.sealed.chunks[i]? = some ct → ∀ t,
          runFrom (fetch (UInt64.ofNat i)) t = (.ok ct, t)) → ∀ t,
        runFrom (openStreamStreaming s.ck s.fileId s.version s.streamType s.sealed.chunkCount fetch
            sink) t =
          runFrom (s.frames.forM sink) t := by
  refine ⟨fun emit fuel hfuel t => ?_, haead.openStream s.chunkSize_pos, s.flatten_frames,
    fun fetch sink hfetch t => ?_⟩
  · exact hread.sealStreamStreaming s.chunkSize_pos hrest hfuel t
  · have hcount : s.sealed.chunkCount.toNat = s.frames.length := by
      show (UInt64.ofNat s.frames.length).toNat = _
      rw [UInt64.toNat_ofNat']
      exact Nat.mod_eq_of_lt s.length_frames_lt
    have hpos : 0 < s.frames.length := List.length_pos_of_ne_nil s.frames_ne_nil
    have hzero : s.sealed.chunkCount ≠ 0 := by
      intro hzero
      rw [hzero] at hcount
      exact absurd hcount.symm (Nat.pos_iff_ne_zero.mp hpos)
    unfold openStreamStreaming
    rw [if_neg hzero, hcount]
    refine haead.streamChunks (fun j frame hj u => ?_) t
    rw [Nat.zero_add]
    exact hfetch j _ (s.getElem?_sealed_chunks hj) u

end Opening

section OneByteReads

open ClosedRuns

/-- Four bytes in frames of two: the length is a multiple of the frame. -/
def fourBytes : PlainStream :=
  ⟨.replicate 32 7, ⟨.replicate 16 1⟩, 1, .content, 2, [1, 2, 3, 4], Nat.two_pos, by decide⟩

def readByte (_ : ℕ) (r : List UInt8) : Except Unit (List UInt8 × List UInt8) :=
  .ok (r.take 1, r.drop 1)

lemma readByte_splits : Splits readByte id := by
  intro want r hwant
  refine ⟨r.take 1, r.drop 1, rfl, (List.take_append_drop 1 r).symm, ?_, ?_⟩
  · rw [List.length_take]
    omega
  · intro hempty
    cases r with
    | nil => rfl
    | cons b r => cases hempty

theorem sealStreamStreaming_oneByteReads :
    runFrom (sealStreamStreaming readByte fourBytes.ck fourBytes.fileId fourBytes.version
        fourBytes.streamType fourBytes.chunkSize
        (fun index ct => modify fun emitted => emitted ++ [(index, ct)]) 2 fourBytes.plaintext) [] =
      (.ok (some (2, fourBytes.sealed.digest)),
        [0, 1].zip fourBytes.sealed.chunks) :=
  (fourBytes.sealStreamStreaming_eq aeadOpens readByte_splits rfl).1 _ 2 (by decide +kernel) []

end OneByteReads

end MaxSecu
