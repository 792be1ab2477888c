import MaxSecu.App.VideoCache

/-!
# Byte ranges, chunks and fragments

A requested range is clamped to the content, mapped to the fragments that cover it, and cut out of
their plaintext.  With an empty cache and the chunks that were sealed, what comes out is the content's
bytes at that place, for every fragment index that covers the content's chunks; the index that the
uploader writes is one (`parseFragmentIndex_grouped`).  Asking for the rest again and again goes
through the content once (`flatMap_requests`).
-/

namespace MaxSecu

open ExceptRules

/-! ## The index that the uploader writes -/

/-- The loop from chunk `start` on, which is fragment `seq`.  The number of a fragment has 32 bits,
and counting beyond them panics. -/
def chunkGroupedFrom (nChunks fragChunks : ℕ) (hpos : 0 < fragChunks) (start seq : ℕ) :
    Option (List FragmentEntry) :=
  if hstart : start < nChunks then
    if seq + 1 < 2 ^ 32 then
      (chunkGroupedFrom nChunks fragChunks hpos (start + min fragChunks (nChunks - start))
        (seq + 1)).map (⟨seq, 0, start, min fragChunks (nChunks - start)⟩ :: ·)
    else none
  else some []
termination_by nChunks - start

/-- Fragments of so many chunks each, the last of which may be short. -/
def chunkGroupedIndex (nChunks fragChunks : ℕ) (hpos : 0 < fragChunks) :
    Option (List FragmentEntry) := chunkGroupedFrom nChunks fragChunks hpos 0 0

/-- A fragment as it is written to the metadata. -/
def FragmentEntry.item (e : FragmentEntry) : FragmentItem :=
  ⟨some (UInt64.ofNat e.seq), some (UInt64.ofNat e.ptsMs), some (UInt64.ofNat e.chunkStart),
    some (UInt64.ofNat e.chunkLen)⟩

section Grouped

variable {nChunks fragChunks start seq : ℕ} {hpos : 0 < fragChunks} {frags : List FragmentEntry}

lemma chunkGroupedFrom_eq_some (h : chunkGroupedFrom nChunks fragChunks hpos start seq = some frags) :
    (nChunks ≤ start ∧ frags = []) ∨
      (start < nChunks ∧ seq + 1 < 2 ^ 32 ∧ ∃ rest,
        chunkGroupedFrom nChunks fragChunks hpos (start + min fragChunks (nChunks - start))
          (seq + 1) = some rest ∧
        frags = ⟨seq, 0, start, min fragChunks (nChunks - start)⟩ :: rest) := by
  unfold chunkGroupedFrom at h
  split at h
  · rename_i hlt
    split at h
    · rename_i hseq
      obtain ⟨rest, hrest, rfl⟩ := Option.map_eq_some_iff.mp h
      exact Or.inr ⟨hlt, hseq, rest, hrest, rfl⟩
    · cases h
  · rename_i hge
    exact Or.inl ⟨not_lt.mp hge, (Option.some.inj h).symm⟩

lemma parseFragments_grouped (hn : nChunks < 2 ^ 64)
    (h : chunkGroupedFrom nChunks fragChunks hpos start seq = some frags) :
    parseFragments seq start 0 (frags.map FragmentEntry.item) = .ok frags ∧
      (frags.map FragmentEntry.chunkLen).sum = nChunks - start := by
  induction hleft : nChunks - start using Nat.strong_induction_on generalizing start seq frags with
  | _ left ih =>
    rcases chunkGroupedFrom_eq_some h with ⟨hdone, rfl⟩ | ⟨hlt, hseq, rest, hrest, rfl⟩
    · exact ⟨rfl, by rw [List.map_nil, List.sum_nil]; omega⟩
    · have hlen : 1 ≤ min fragChunks (nChunks - start) := by omega
      obtain ⟨hparse, hsum⟩ := ih _ (by omega) hrest rfl
      have hword : ∀ m < 2 ^ 64, (UInt64.ofNat m).toNat = m := fun m hm =>
        UInt64.toNat_ofNat_of_lt' hm
      have hzero : (UInt64.ofNat 0).toNat = 0 := rfl
      constructor
      · rw [List.map_cons]
        unfold parseFragments FragmentEntry.item
        simp only [bind_eq_ok, elim_eq_ok, guard_eq_ok, pure_eq_ok, Option.some.injEq,
          exists_eq_left']
        rw [hword seq (by omega), hword start (by omega), hzero,
          hword (min fragChunks (nChunks - start)) (by omega)]
        refine ⟨not_not.mpr rfl, Nat.not_lt_zero _, ?_, not_not.mpr rfl, by omega, rest, hparse, rfl⟩
        rw [UInt64.not_lt, UInt64.le_iff_toNat_le, hword _ (by omega)]
        exact hlen
      · rw [List.map_cons, List.sum_cons, hsum]
        dsimp only
        omega

/-- The index that the uploader writes is accepted, and covers the chunks. -/
theorem parseFragmentIndex_grouped (hn : nChunks < 2 ^ 64) (hsome : 0 < nChunks)
    (h : chunkGroupedIndex nChunks fragChunks hpos = some frags) :
    ∃ index, parseFragmentIndex (some (frags.map FragmentEntry.item)) = .ok index ∧
      index.entries = frags ∧ index.chunkCount = nChunks := by
  obtain ⟨hparse, hsum⟩ := parseFragments_grouped hn h
  have hne : frags.map FragmentEntry.item ≠ [] := by
    intro hnil
    obtain rfl := List.map_eq_nil_iff.mp hnil
    rw [List.map_nil, List.sum_nil] at hsum
    omega
  refine ⟨⟨frags, parseFragments_ne_nil hparse hne, contiguous_of_parse hparse⟩, ?_, rfl, hsum⟩
  unfold parseFragmentIndex
  dsimp only
  rw [dif_neg hne]
  split
  · rename_i e herror
    rw [hparse] at herror
    cases herror
  · rename_i entries hok
    have heq : frags = entries := Except.ok.inj (hparse.symm.trans hok)
    subst heq
    rfl

lemma exists_chunkGroupedFrom (hseq : seq + (nChunks - start) < 2 ^ 32) :
    ∃ frags, chunkGroupedFrom nChunks fragChunks hpos start seq = some frags := by
  induction hleft : nChunks - start using Nat.strong_induction_on generalizing start seq with
  | _ left ih =>
    unfold chunkGroupedFrom
    by_cases hlt : start < nChunks
    · obtain ⟨rest, hrest⟩ := ih (nChunks - (start + min fragChunks (nChunks - start)))
        (by omega) (by omega : seq + 1 + (nChunks - (start + min fragChunks (nChunks - start))) <
          2 ^ 32) rfl
      rw [dif_pos hlt, if_pos (by omega), hrest]
      exact ⟨_, rfl⟩
    · rw [dif_neg hlt]
      exact ⟨_, rfl⟩

end Grouped

/-! ## Clamping -/

section Resolve

variable {first total maxBody : ℕ} {lastInclusive : Option ℕ} {req : RangeReq}

/-- The last byte of a range, within the content. -/
def clampedLast (lastInclusive : Option ℕ) (total : ℕ) : ℕ :=
  min (lastInclusive.getD (total - 1)) (total - 1)

lemma resolveRange_eq_none_iff :
    resolveRange first lastInclusive total maxBody = none ↔
      total ≤ first ∨ ∃ last, lastInclusive = some last ∧ last < first := by
  unfold resolveRange
  by_cases hbeyond : total = 0 ∨ total ≤ first
  · rw [if_pos hbeyond]
    exact ⟨fun _ => Or.inl (by omega), fun _ => rfl⟩
  · rw [if_neg hbeyond]
    dsimp only
    cases lastInclusive with
    | none =>
      rw [Option.getD_none, if_neg (by omega)]
      constructor
      · intro h
        cases h
      · rintro (h | ⟨last, h, -⟩)
        · omega
        · cases h
    | some last =>
      rw [Option.getD_some]
      by_cases hback : min last (total - 1) < first
      · rw [if_pos hback]
        exact ⟨fun _ => Or.inr ⟨last, rfl, by omega⟩, fun _ => rfl⟩
      · rw [if_neg hback]
        constructor
        · intro h
          cases h
        · rintro (h | ⟨last', h, hlt⟩)
          · omega
          · obtain rfl := Option.some.inj h
            omega

lemma resolveRange_eq_some (h : resolveRange first lastInclusive total maxBody = some req) :
    req.start = first ∧ 1 ≤ req.len ∧
      req.len = min (clampedLast lastInclusive total - first + 1) (max maxBody 1) ∧
      req.start + req.len ≤ total := by
  unfold resolveRange at h
  by_cases hbeyond : total = 0 ∨ total ≤ first
  · rw [if_pos hbeyond] at h
    cases h
  · rw [if_neg hbeyond] at h
    dsimp only at h
    by_cases hback : min (lastInclusive.getD (total - 1)) (total - 1) < first
    · rw [if_pos hback] at h
      cases h
    · rw [if_neg hback] at h
      obtain rfl := Option.some.inj h
      unfold clampedLast
      dsimp only
      refine ⟨rfl, ?_, rfl, ?_⟩ <;> omega

/-- The ranges of a player that asks for the rest, each time from where the last one ended. -/
def requests (total maxBody pos : ℕ) : List RangeReq :=
  match _hreq : resolveRange pos none total maxBody with
  | none => []
  | some req => req :: requests total maxBody (pos + req.len)
termination_by total - pos
decreasing_by
  obtain ⟨hstart, hlen, -, hend⟩ := resolveRange_eq_some _hreq
  omega

/-- The ranges follow each other from `pos` up to the end. -/
def Follow (total : ℕ) : ℕ → List RangeReq → Prop
  | pos, [] => total ≤ pos
  | pos, req :: rest => req.start = pos ∧ 1 ≤ req.len ∧ Follow total (pos + req.len) rest

lemma follow_requests (total maxBody pos : ℕ) : Follow total pos (requests total maxBody pos) := by
  induction hleft : total - pos using Nat.strong_induction_on generalizing pos with
  | _ left ih =>
    unfold requests
    split
    · rename_i hnone
      rcases resolveRange_eq_none_iff.mp hnone with h | ⟨last, h, -⟩
      · exact h
      · cases h
    · rename_i req hsome
      obtain ⟨hstart, hlen, -, hend⟩ := resolveRange_eq_some hsome
      exact ⟨hstart, hlen, ih _ (by omega) _ rfl⟩

lemma flatMap_of_follow {content : List UInt8} {pos : ℕ} {reqs : List RangeReq}
    (h : Follow content.length pos reqs) :
    (reqs.flatMap fun req => (content.drop req.start).take req.len) = content.drop pos := by
  induction reqs generalizing pos with
  | nil => exact (List.drop_eq_nil_of_le h).symm
  | cons req reqs ih =>
    obtain ⟨rfl, -, hrest⟩ := h
    rw [List.flatMap_cons, ih hrest, ← List.drop_drop, List.take_append_drop]

end Resolve

/-! ## What a range comes to -/

section Serve

variable [Sha256] [Aes256Gcm] [Aes256GcmSeal]

/-- A range and its bytes, or nothing if it cannot be satisfied. -/
def VideoJob.rangeBody (job : VideoJob) (fetchChunk : ℕ → Except UiError (List UInt8)) (first : ℕ)
    (lastInclusive : Option ℕ) (maxBody : ℕ) (cache : MediaCache) :
    Option (RangeReq × Except UiError (List UInt8)) :=
  (resolveRange first lastInclusive job.totalLen maxBody).map fun req =>
    (req, (planRange job.index job.chunkSize req).bind fun plan =>
      (job.assembleRange plan req fetchChunk cache).1)

variable {s : PlainStream} {job : VideoJob} {cache : MediaCache} {span : List ℕ}
  {fetchChunk : ℕ → Except UiError (List UInt8)}

lemma VideoJob.feedFragment_fresh (hopens : s.Opens) (hcontent : s.streamType = .content)
    (hreads : job.Reads s) (hfetch : ∀ i < s.frames.length, fetchChunk i = .ok (s.chunk i))
    {seq : ℕ} (hplace : (job.index.chunksForFragment seq).isSome = true)
    (hheld : job.held cache seq = none) :
    job.feedFragment fetchChunk seq cache =
      (.ok (job.plain s seq), job.feed s (fun _ => false) cache seq) := by
  obtain ⟨⟨a, l⟩, hplace⟩ := Option.isSome_iff_exists.mp hplace
  have hle := (job.index.chunksForFragment_bound hplace).2
  rw [hreads.covers] at hle
  have hgenuine : (List.range' a l).mapM fetchChunk = .ok (s.piece a l) := by
    have hall : (job.chunksOf seq).mapM fetchChunk = .ok (job.genuine s seq) := by
      rw [hreads.genuine_eq]
      refine mapM_eq_ok.mpr (List.forall₂_map_right_iff.mpr (List.forall₂_same.mpr fun i hi => ?_))
      exact hfetch i (hreads.mem_chunksOf hi)
    unfold chunksOf genuine at hall
    rwa [hplace] at hall
  have hopen := hopens.openRange hcontent hle
  rw [held_eq hplace] at hheld
  unfold feedFragment feed plain genuine
  rw [hplace]
  dsimp only
  rw [if_neg (not_beyond hreads hplace), BlobCache.get_fst, hheld]
  dsimp only
  rw [hgenuine]
  dsimp only
  rw [hreads.decryptor, hopen]
  rfl

lemma VideoJob.feedSpan_fresh (hopens : s.Opens) (hcontent : s.streamType = .content)
    (hreads : job.Reads s) (hfetch : ∀ i < s.frames.length, fetchChunk i = .ok (s.chunk i))
    (hnodup : span.Nodup)
    (hplaces : ∀ seq ∈ span, (job.index.chunksForFragment seq).isSome = true)
    (hheld : ∀ seq ∈ span, job.held cache seq = none) :
    (job.feedSpan fetchChunk span cache).1 = .ok (span.flatMap (job.plain s)) := by
  induction span generalizing cache with
  | nil => rfl
  | cons seq span ih =>
    obtain ⟨hnew, hnodup⟩ := List.nodup_cons.mp hnodup
    have hfeed := feedFragment_fresh hopens hcontent hreads hfetch
      (hplaces seq List.mem_cons_self) (hheld seq List.mem_cons_self)
    have hlater : ∀ other ∈ span,
        job.held (job.feed s (fun _ => false) cache seq) other = none := by
      intro other hother
      rw [Option.eq_none_iff_forall_ne_some]
      intro chunks hchunks
      have hbefore := held_of_feed (fun heq : other = seq => hnew (heq ▸ hother)) hchunks
      rw [hheld other (List.mem_cons_of_mem _ hother)] at hbefore
      cases hbefore
    have hrest := ih hnodup (fun other hother => hplaces other (List.mem_cons_of_mem _ hother))
      hlater
    unfold feedSpan
    rw [hfeed]
    dsimp only
    cases hrun : job.feedSpan fetchChunk span (job.feed s (fun _ => false) cache seq) with
    | mk result cache' =>
      rw [hrun] at hrest
      obtain rfl : result = .ok (span.flatMap (job.plain s)) := hrest
      rfl

lemma VideoJob.assembled_eq (hopens : s.Opens) (hcontent : s.streamType = .content)
    (hreads : job.Reads s) (hfetch : ∀ i < s.frames.length, fetchChunk i = .ok (s.chunk i))
    (hheld : ∀ seq, job.held cache seq = none) {req : RangeReq} (hpos : 0 < req.len)
    (hend : req.start + req.len ≤ s.plaintext.length) :
    ((planRange job.index s.chunkSize req).bind fun plan =>
      (job.assembleRange plan req fetchChunk cache).1) =
        .ok ((s.plaintext.drop req.start).take req.len) := by
  obtain ⟨plan, a, l, b, m, hplan, ha, hb, horder, hbase, hlow, hhigh⟩ :=
    exists_plan hreads.covers hpos hend
  have hplaces : ∀ seq ∈ plan.span, (job.index.chunksForFragment seq).isSome = true :=
    fun _ hseq => isSome_of_mem_span hb hseq
  have hfeed := feedSpan_fresh hopens hcontent hreads hfetch nodup_span hplaces
    fun seq _ => hheld seq
  rw [hplan]
  show (job.assembleRange plan req fetchChunk cache).1 = _
  rw [assembleRange_fst, hfeed]
  exact slice_span hend ha hb horder hbase hlow hhigh

omit [Sha256] [Aes256Gcm] [Aes256GcmSeal] in
lemma trustedTotalLen_of_content (hword : s.chunkSize < 2 ^ 64) (hne : s.plaintext ≠ []) :
    trustedTotalLen s.frames.length s.chunkSize s.plaintext.length =
      some s.plaintext.length := by
  have hpos := List.length_pos_of_ne_nil s.frames_ne_nil
  have hsize := s.chunkSize_pos
  have hlow := s.mul_lt_length hne
  have hhigh := s.length_le_mul
  have hlt := s.length_lt
  have hcontent : 0 < s.plaintext.length := List.length_pos_of_ne_nil hne
  have hfits : s.frames.length * s.chunkSize < 2 ^ 64 := by
    obtain ⟨k, hk⟩ := Nat.exists_eq_add_of_le' hpos
    rw [hk, Nat.add_sub_cancel] at hlow
    rw [hk, Nat.succ_mul]
    rcases Nat.eq_zero_or_pos k with rfl | hk
    · omega
    · have hle : s.chunkSize ≤ k * s.chunkSize := Nat.le_mul_of_pos_left _ hk
      omega
  unfold trustedTotalLen
  rw [if_neg (by omega), if_neg (by omega), if_pos ⟨hlow, hhigh⟩]

/-- **Range arithmetic.**  For every index that covers the content, with an empty cache and the chunks
that were sealed: a range is refused exactly if it begins behind the content or ends before it begins,
any other is served with the content's bytes, asking for the rest again and again goes through the
content once, what the uploader writes is such an index, and the true length of a content that is not
empty is trusted. -/
theorem rangeArithmetic_exact (s : PlainStream) (job : VideoJob) (cap : Option ℕ)
    (fetchChunk : ℕ → Except UiError (List UInt8)) (hopens : s.Opens)
    (hcontent : s.streamType = .content) (hreads : job.Reads s)
    (hsize : job.chunkSize = s.chunkSize) (hword : s.chunkSize < 2 ^ 64)
    (htotal : job.totalLen = s.plaintext.length)
    (hfetch : ∀ i < s.frames.length, fetchChunk i = .ok (s.chunk i)) :
    (∀ first lastInclusive maxBody,
      (job.rangeBody fetchChunk first lastInclusive maxBody (.empty cap) = none ↔
        s.plaintext.length ≤ first ∨ ∃ last, lastInclusive = some last ∧ last < first) ∧
      ∀ req body, job.rangeBody fetchChunk first lastInclusive maxBody (.empty cap) =
          some (req, body) →
        req.start = first ∧ 1 ≤ req.len ∧
          req.len = min (clampedLast lastInclusive s.plaintext.length - first + 1)
            (max maxBody 1) ∧
          body = .ok ((s.plaintext.drop req.start).take req.len)) ∧
    (∀ maxBody, Follow s.plaintext.length 0 (requests s.plaintext.length maxBody 0) ∧
      ((requests s.plaintext.length maxBody 0).flatMap fun req =>
        (s.plaintext.drop req.start).take req.len) = s.plaintext) ∧
    (∀ nChunks fragChunks (hpos : 0 < fragChunks), 0 < nChunks → nChunks < 2 ^ 64 →
      (nChunks < 2 ^ 32 → ∃ frags, chunkGroupedIndex nChunks fragChunks hpos = some frags) ∧
      ∀ frags, chunkGroupedIndex nChunks fragChunks hpos = some frags →
        ∃ index, parseFragmentIndex (some (frags.map FragmentEntry.item)) = .ok index ∧
          index.entries = frags ∧ index.chunkCount = nChunks) ∧
    (s.plaintext ≠ [] → trustedTotalLen s.frames.length s.chunkSize s.plaintext.length =
      some s.plaintext.length) := by
  have hheld : ∀ seq, job.held (.empty cap) seq = none := by
    intro seq
    unfold VideoJob.held
    cases job.index.chunksForFragment seq <;> rfl
  refine ⟨fun first lastInclusive maxBody => ⟨?_, ?_⟩, fun maxBody => ⟨?_, ?_⟩, ?_,
    trustedTotalLen_of_content hword⟩
  · unfold VideoJob.rangeBody
    rw [Option.map_eq_none_iff, htotal]
    exact resolveRange_eq_none_iff
  · intro req body h
    unfold VideoJob.rangeBody at h
    obtain ⟨req', hreq, heq⟩ := Option.map_eq_some_iff.mp h
    obtain ⟨rfl, rfl⟩ := Prod.mk.inj heq
    rw [htotal] at hreq
    obtain ⟨hstart, hlen, hlength, hend⟩ := resolveRange_eq_some hreq
    refine ⟨hstart, hlen, hlength, ?_⟩
    rw [hsize]
    exact VideoJob.assembled_eq hopens hcontent hreads hfetch hheld hlen hend
  · exact follow_requests _ _ _
  · exact (flatMap_of_follow (follow_requests _ _ _)).trans (List.drop_zero)
  · intro nChunks fragChunks hpos hsome hn
    refine ⟨fun hfew => exists_chunkGroupedFrom (by omega), fun frags hfrags => ?_⟩
    exact parseFragmentIndex_grouped hn hsome hfrags

end Serve

section ClosedRuns

open ClosedRuns

/-- The bytes of a content of two chunks, from the second one on. -/
theorem rangeArithmetic_exact_two :
    letI := tableAead [versionOne, versionTwo]
    ∃ req body, (twoFragmentJob versionTwo).rangeBody (fun i => .ok (versionTwo.chunk i)) 1 none 8
        (.empty none) = some (req, body) ∧
      req.start = 1 ∧ body = .ok ((versionTwo.plaintext.drop req.start).take req.len) := by
  let _ := tableAead [versionOne, versionTwo]
  have hideal := twoVersions_ideal (List.mem_cons_of_mem _ List.mem_cons_self) rfl
  have hplays : (twoFragmentJob versionTwo).Plays versionTwo :=
    twoFragmentJob_plays (by decide) (by decide)
  obtain ⟨hnone, hsome⟩ := (rangeArithmetic_exact versionTwo (twoFragmentJob versionTwo) none
    (fun i => .ok (versionTwo.chunk i)) hideal.opens rfl hplays.reads rfl (by decide) rfl
    fun _ _ => rfl).1 1 none 8
  have hserved : (twoFragmentJob versionTwo).rangeBody (fun i => .ok (versionTwo.chunk i)) 1 none 8
      (.empty none) ≠ none := by
    intro h
    rcases hnone.mp h with hshort | ⟨last, hlast, -⟩
    · exact absurd hshort (by decide)
    · cases hlast
  obtain ⟨⟨req, body⟩, h⟩ := Option.ne_none_iff_exists'.mp hserved
  obtain ⟨hstart, -, -, hbody⟩ := hsome req body h
  exact ⟨req, body, h, hstart, hbody⟩

end ClosedRuns

/-- An empty content is one empty chunk, and its length, which is zero, counts as not said. -/
theorem trustedTotalLen_emptyContent :
    (framesOf 4096 ([] : List UInt8)).length = 1 ∧ trustedTotalLen 1 4096 0 = none := by
  decide +kernel

end MaxSecu
