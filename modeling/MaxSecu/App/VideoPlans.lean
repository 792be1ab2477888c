import MaxSecu.App.VideoRanges

/-!
# Plans of a video that is framed as signed

Where the fragments make up the content, and the session has the signed size of a chunk and the length
of the content, every range that can be satisfied has a plan (`VideoJob.Plays.planned`), and it is cut
out of the plaintext of the plan's fragments (`VideoJob.slice_span`).
-/

namespace MaxSecu

open ExceptRules Framing

/-! ## Fragments and their chunks -/

lemma Contiguous.seq {seq start : ℕ} {entries : List FragmentEntry}
    (h : Contiguous seq start entries) {i : ℕ} {e : FragmentEntry} (he : entries[i]? = some e) :
    e.seq = seq + i ∧ start ≤ e.chunkStart ∧ 1 ≤ e.chunkLen := by
  induction entries generalizing seq start i with
  | nil => cases he
  | cons first rest ih =>
    obtain ⟨hseq, hstart, hlen, -, hrest⟩ := h
    cases i with
    | zero =>
      obtain rfl := Option.some.inj he
      exact ⟨hseq, hstart.ge, hlen⟩
    | succ i =>
      obtain ⟨hseq', hstart', hlen'⟩ := ih hrest he
      exact ⟨by omega, by omega, hlen'⟩

lemma Contiguous.ordered {seq start : ℕ} {entries : List FragmentEntry}
    (h : Contiguous seq start entries) {i j : ℕ} {e e' : FragmentEntry} (hij : i < j)
    (he : entries[i]? = some e) (he' : entries[j]? = some e') :
    e.chunkStart + e.chunkLen ≤ e'.chunkStart := by
  induction entries generalizing seq start i j with
  | nil => cases he
  | cons first rest ih =>
    obtain ⟨-, hstart, -, -, hrest⟩ := h
    obtain ⟨j, rfl⟩ : ∃ k, j = k + 1 := ⟨j - 1, by omega⟩
    cases i with
    | zero =>
      obtain rfl := Option.some.inj he
      obtain ⟨-, hlater, -⟩ := hrest.seq he'
      omega
    | succ i => exact ih hrest (by omega) he he'

lemma Contiguous.exists_covers {seq start : ℕ} {entries : List FragmentEntry}
    (h : Contiguous seq start entries) {chunk : ℕ} (hstart : start ≤ chunk)
    (hend : chunk < start + (entries.map FragmentEntry.chunkLen).sum) :
    ∃ e ∈ entries, e.covers chunk = true := by
  induction entries generalizing seq start with
  | nil =>
    rw [List.map_nil, List.sum_nil] at hend
    omega
  | cons first rest ih =>
    obtain ⟨-, hfirst, -, -, hrest⟩ := h
    rw [List.map_cons, List.sum_cons] at hend
    by_cases hin : chunk < start + first.chunkLen
    · refine ⟨first, List.mem_cons_self, ?_⟩
      unfold FragmentEntry.covers
      rw [hfirst]
      exact decide_eq_true ⟨hstart, hin⟩
    · obtain ⟨e, he, hcovers⟩ := ih hrest (not_lt.mp hin) (by omega)
      exact ⟨e, List.mem_cons_of_mem _ he, hcovers⟩

lemma Contiguous.within {seq start : ℕ} {entries : List FragmentEntry}
    (h : Contiguous seq start entries) {e : FragmentEntry} (he : e ∈ entries) :
    e.chunkStart + e.chunkLen ≤ start + (entries.map FragmentEntry.chunkLen).sum := by
  induction entries generalizing seq start with
  | nil => cases he
  | cons first rest ih =>
    obtain ⟨-, hfirst, -, -, hrest⟩ := h
    rw [List.map_cons, List.sum_cons]
    rcases List.mem_cons.mp he with rfl | hlater
    · omega
    · have hle := ih hrest hlater
      omega

namespace FragmentIndex

variable (index : FragmentIndex)

def chunkCount : ℕ := (index.entries.map FragmentEntry.chunkLen).sum

variable {index}

lemma chunksForFragment_bound {seq a l : ℕ} (h : index.chunksForFragment seq = some (a, l)) :
    1 ≤ l ∧ a + l ≤ index.chunkCount := by
  rw [chunksForFragment_eq, Option.map_eq_some_iff] at h
  obtain ⟨e, he, heq⟩ := h
  obtain ⟨rfl, rfl⟩ := Prod.mk.inj heq
  have hwithin := index.contiguous.within (List.mem_of_getElem? he)
  rw [Nat.zero_add] at hwithin
  exact ⟨(index.contiguous.seq he).2.2, hwithin⟩

lemma chunksForFragment_ordered {seq seq' a l a' l' : ℕ} (hlt : seq < seq')
    (h : index.chunksForFragment seq = some (a, l))
    (h' : index.chunksForFragment seq' = some (a', l')) : a + l ≤ a' := by
  rw [chunksForFragment_eq, Option.map_eq_some_iff] at h h'
  obtain ⟨e, he, heq⟩ := h
  obtain ⟨e', he', heq'⟩ := h'
  obtain ⟨rfl, rfl⟩ := Prod.mk.inj heq
  obtain ⟨rfl, -⟩ := Prod.mk.inj heq'
  exact index.contiguous.ordered hlt he he'

lemma chunksForFragment_le {seq seq' a l a' l' : ℕ} (hle : seq ≤ seq')
    (h : index.chunksForFragment seq = some (a, l))
    (h' : index.chunksForFragment seq' = some (a', l')) : a + l ≤ a' + l' := by
  rcases Nat.eq_or_lt_of_le hle with rfl | hlt
  · obtain ⟨rfl, rfl⟩ := Prod.mk.inj (Option.some.inj (h.symm.trans h'))
    rfl
  · have hord := chunksForFragment_ordered hlt h h'
    omega

lemma chunksForFragment_disjoint {seq seq' a l a' l' i : ℕ}
    (h : index.chunksForFragment seq = some (a, l))
    (h' : index.chunksForFragment seq' = some (a', l')) (hi : i ∈ List.range' a l)
    (hi' : i ∈ List.range' a' l') : seq = seq' := by
  rw [List.mem_range'_1] at hi hi'
  by_contra hne
  rcases Nat.lt_or_gt_of_ne hne with hlt | hlt
  · have hle := chunksForFragment_ordered hlt h h'
    omega
  · have hle := chunksForFragment_ordered hlt h' h
    omega

lemma fragmentOf_spec {chunk seq : ℕ} (h : index.fragmentOf chunk = some seq) :
    ∃ a l, index.chunksForFragment seq = some (a, l) ∧ a ≤ chunk ∧ chunk < a + l := by
  unfold fragmentOf at h
  obtain ⟨e, hlast, rfl⟩ := Option.map_eq_some_iff.mp h
  obtain ⟨he, hcovers⟩ := List.mem_filter.mp (List.mem_of_getLast? hlast)
  obtain ⟨hlow, hhigh⟩ := of_decide_eq_true hcovers
  obtain ⟨i, hi⟩ := List.mem_iff_getElem?.mp he
  have hseq := (index.contiguous.seq hi).1
  rw [Nat.zero_add] at hseq
  refine ⟨e.chunkStart, e.chunkLen, ?_, hlow, hhigh⟩
  rw [chunksForFragment_eq, hseq, hi]
  rfl

lemma exists_fragmentOf {chunk : ℕ} (h : chunk < index.chunkCount) :
    ∃ seq, index.fragmentOf chunk = some seq := by
  obtain ⟨e, he, hcovers⟩ :=
    index.contiguous.exists_covers (Nat.zero_le chunk) (by rwa [Nat.zero_add])
  have hne : index.entries.filter (·.covers chunk) ≠ [] :=
    List.ne_nil_of_mem (List.mem_filter.mpr ⟨he, hcovers⟩)
  refine ⟨((index.entries.filter (·.covers chunk)).getLast hne).seq, ?_⟩
  unfold fragmentOf
  rw [List.getLast?_eq_getLast_of_ne_nil hne]
  rfl

lemma exists_of_le {seq last a l : ℕ} (h : index.chunksForFragment last = some (a, l))
    (hle : seq ≤ last) : ∃ b m, index.chunksForFragment seq = some (b, m) := by
  rw [chunksForFragment_eq, Option.map_eq_some_iff] at h
  obtain ⟨e, he, -⟩ := h
  have hlt := (List.getElem?_eq_some_iff.mp he).1
  have hget := List.getElem?_eq_getElem (lt_of_le_of_lt hle hlt : seq < index.entries.length)
  refine ⟨index.entries[seq].chunkStart, index.entries[seq].chunkLen, ?_⟩
  rw [chunksForFragment_eq, hget]
  rfl

end FragmentIndex

/-! ## Sessions that are framed as signed -/

/-- The session has the keys, the framing and the length of the content, its chunks are within the
bounds that were checked, and its fragments make up the content. -/
structure VideoJob.Plays (job : VideoJob) (s : PlainStream) : Prop where
  decryptor : job.decryptor = s.decryptor
  chunkSize : job.chunkSize = s.chunkSize
  totalLen : job.totalLen = s.plaintext.length
  chunkSize_le : s.chunkSize ≤ 2 ^ 23
  frames_lt : s.frames.length < 2 ^ 32
  covers : job.index.chunkCount = s.frames.length

def VideoJob.plain (job : VideoJob) (s : PlainStream) (seq : ℕ) : List UInt8 :=
  (job.index.chunksForFragment seq).elim [] fun place =>
    ((s.frames.drop place.1).take place.2).flatten

section Frames

variable {n : ℕ} {α : Type}

lemma mul_lt_length_of_toChunks (hn : 0 < n) {xs : List α} (hxs : xs ≠ []) :
    ((xs.toChunks n).length - 1) * n < xs.length := by
  induction hlength : xs.length using Nat.strong_induction_on generalizing xs with
  | _ len ih =>
    have hpos : 0 < xs.length := List.length_pos_of_ne_nil hxs
    rw [toChunks_eq hn hxs, List.length_cons, Nat.add_sub_cancel]
    by_cases hrest : xs.drop n = []
    · rw [hrest, toChunks_nil, List.length_nil, Nat.zero_mul]
      omega
    · have hdrop : 0 < (xs.drop n).length := List.length_pos_of_ne_nil hrest
      have hpieces : 0 < ((xs.drop n).toChunks n).length :=
        List.length_pos_of_ne_nil fun hnil => hrest ((toChunks_eq_nil hn).mp hnil)
      rw [List.length_drop] at hdrop
      have hlt := ih (xs.drop n).length (by rw [List.length_drop]; omega) hrest rfl
      rw [List.length_drop] at hlt
      obtain ⟨k, hk⟩ := Nat.exists_eq_add_of_le' hpieces
      rw [hk, Nat.add_sub_cancel] at hlt
      rw [hk, Nat.succ_mul]
      omega

end Frames

namespace PlainStream

variable {s : PlainStream}

lemma mul_lt_length (hcontent : s.plaintext ≠ []) :
    (s.frames.length - 1) * s.chunkSize < s.plaintext.length := by
  have hlt := mul_lt_length_of_toChunks s.chunkSize_pos hcontent
  unfold frames framesOf
  by_cases hempty : (s.plaintext.toChunks s.chunkSize).isEmpty = true
  · rw [if_pos hempty, List.length_singleton, Nat.sub_self, Nat.zero_mul]
    exact List.length_pos_of_ne_nil hcontent
  · rw [if_neg hempty]
    exact hlt

lemma mul_le_length : (s.frames.length - 1) * s.chunkSize ≤ s.plaintext.length := by
  by_cases hcontent : s.plaintext = []
  · have hone : s.frames = [[]] := by
      unfold frames framesOf
      rw [hcontent, toChunks_nil]
      rfl
    rw [hone, List.length_singleton, Nat.sub_self, Nat.zero_mul]
    exact Nat.zero_le _
  · exact (mul_lt_length hcontent).le

lemma length_le_mul : s.plaintext.length ≤ s.frames.length * s.chunkSize :=
  length_le_framesOf s.chunkSize_pos

lemma div_chunkSize_lt {byte : ℕ} (h : byte < s.plaintext.length) :
    byte / s.chunkSize < s.frames.length := by
  have hle := s.length_le_mul
  exact Nat.div_lt_of_lt_mul (by rw [Nat.mul_comm]; omega)

lemma flatten_take_frames (a : ℕ) :
    (s.frames.take a).flatten = s.plaintext.take (a * s.chunkSize) := by
  have hdrop := s.flatten_drop_frames a
  have hall : (s.frames.take a).flatten ++ (s.frames.drop a).flatten = s.plaintext := by
    rw [← List.flatten_append, List.take_append_drop, s.flatten_frames]
  have hsplit : s.plaintext.take (a * s.chunkSize) ++ s.plaintext.drop (a * s.chunkSize) =
      s.plaintext := List.take_append_drop _ _
  rw [hdrop] at hall
  exact List.append_cancel_right (hall.trans hsplit.symm)

lemma flatten_frames_between (a l : ℕ) :
    ((s.frames.drop a).take l).flatten =
      (s.plaintext.take ((a + l) * s.chunkSize)).drop (a * s.chunkSize) := by
  have hfirst : (s.frames.take (a + l)).flatten =
      (s.frames.take a).flatten ++ ((s.frames.drop a).take l).flatten := by
    rw [List.take_add, List.flatten_append]
  rw [← flatten_take_frames, hfirst, flatten_take_frames]
  by_cases hlong : a * s.chunkSize ≤ s.plaintext.length
  · rw [List.drop_left' (by rw [List.length_take]; omega)]
  · have hempty : ((s.frames.drop a).take l).flatten = [] := by
      have hdrop := s.flatten_drop_frames a
      rw [List.drop_eq_nil_of_le (not_le.mp hlong).le, ← List.take_append_drop l (s.frames.drop a),
        List.flatten_append] at hdrop
      exact (List.append_eq_nil_iff.mp hdrop).1
    rw [hempty, List.append_nil, List.drop_eq_nil_of_le]
    rw [List.length_take]
    omega

end PlainStream

namespace VideoJob

variable {job : VideoJob} {s : PlainStream}

lemma plain_span {f0 k a l b m : ℕ} (hfirst : job.index.chunksForFragment f0 = some (a, l))
    (hlast : job.index.chunksForFragment (f0 + k) = some (b, m)) :
    (List.range' f0 (k + 1)).flatMap (job.plain s) =
      ((s.frames.drop a).take (b + m - a)).flatten := by
  induction k generalizing f0 a l with
  | zero =>
    obtain ⟨rfl, rfl⟩ := Prod.mk.inj (Option.some.inj (hfirst.symm.trans hlast))
    rw [List.range'_one, List.flatMap_singleton, Nat.add_sub_cancel_left]
    unfold plain
    rw [hfirst]
    rfl
  | succ k ih =>
    obtain ⟨c, n, hnext⟩ := job.index.exists_of_le hlast (show f0 + 1 ≤ f0 + (k + 1) by omega)
    obtain rfl := job.index.next hfirst hnext
    have hrest := ih hnext (by rwa [Nat.add_right_comm, Nat.add_assoc])
    have hle := job.index.chunksForFragment_le (Nat.le_add_right _ _) hfirst hlast
    rw [List.range'_succ, List.flatMap_cons, hrest]
    unfold plain
    rw [hfirst, Option.elim_some, ← List.flatten_append]
    have hlen : b + m - a = l + (b + m - (a + l)) := by omega
    rw [hlen, List.take_add, List.drop_drop]

lemma slice_span {plan : RangePlan} {req : RangeReq} {a l b m : ℕ}
    (hend : req.start + req.len ≤ s.plaintext.length)
    (ha : job.index.chunksForFragment plan.f0 = some (a, l))
    (hb : job.index.chunksForFragment plan.f1 = some (b, m)) (horder : plan.f0 ≤ plan.f1)
    (hbase : plan.base = a * s.chunkSize) (hlow : a * s.chunkSize ≤ req.start)
    (hhigh : req.start + req.len ≤ (b + m) * s.chunkSize) :
    sliceRange (plan.span.flatMap (job.plain s)) plan.base req =
      .ok ((s.plaintext.drop req.start).take req.len) := by
  have hle := job.index.chunksForFragment_le horder ha hb
  obtain ⟨k, hk⟩ := Nat.exists_eq_add_of_le horder
  rw [hk] at hb
  have hspan : plan.span = List.range' plan.f0 (k + 1) := by
    unfold RangePlan.span
    rw [hk]
    congr 1
    omega
  rw [hspan, plain_span ha hb, s.flatten_frames_between, Nat.add_sub_cancel' (by omega), hbase]
  unfold sliceRange
  rw [guard_eq_ok, guard_eq_ok, pure_eq_ok, List.length_drop, List.length_take]
  refine ⟨by omega, by omega, ?_⟩
  rw [List.drop_drop, Nat.add_sub_cancel' hlow, List.drop_take, List.take_take]
  congr 1
  omega

lemma exists_plan (hcovers : job.index.chunkCount = s.frames.length) {req : RangeReq}
    (hpos : 0 < req.len) (hend : req.start + req.len ≤ s.plaintext.length) :
    ∃ plan a l b m, planRange job.index s.chunkSize req = .ok plan ∧
      job.index.chunksForFragment plan.f0 = some (a, l) ∧
      job.index.chunksForFragment plan.f1 = some (b, m) ∧ plan.f0 ≤ plan.f1 ∧
      plan.base = a * s.chunkSize ∧ a * s.chunkSize ≤ req.start ∧
      req.start + req.len ≤ (b + m) * s.chunkSize := by
  have hsize := s.chunkSize_pos
  have hlt := s.length_lt
  have hfirst : req.start / s.chunkSize < job.index.chunkCount := by
    rw [hcovers]
    exact s.div_chunkSize_lt (by omega)
  have hlast : (req.start + (req.len - 1)) / s.chunkSize < job.index.chunkCount := by
    rw [hcovers]
    exact s.div_chunkSize_lt (by omega)
  obtain ⟨f0, hf0⟩ := job.index.exists_fragmentOf hfirst
  obtain ⟨f1, hf1⟩ := job.index.exists_fragmentOf hlast
  obtain ⟨a, l, ha, hlow, -⟩ := job.index.fragmentOf_spec hf0
  obtain ⟨b, m, hb, -, hhigh⟩ := job.index.fragmentOf_spec hf1
  have hbase : a * s.chunkSize ≤ req.start := (Nat.le_div_iff_mul_le hsize).mp hlow
  have htop : req.start + (req.len - 1) < (b + m) * s.chunkSize :=
    (Nat.div_lt_iff_lt_mul hsize).mp hhigh
  have horder : f0 ≤ f1 := by
    by_contra hnot
    have hle := job.index.chunksForFragment_ordered (not_le.mp hnot) hb ha
    have hmono : req.start / s.chunkSize ≤ (req.start + (req.len - 1)) / s.chunkSize :=
      Nat.div_le_div_right (Nat.le_add_right _ _)
    omega
  refine ⟨⟨f0, f1, a * s.chunkSize⟩, a, l, b, m, ?_, ha, hb, horder, rfl, hbase, by omega⟩
  unfold planRange
  simp only [bind_eq_ok, elim_eq_ok, guard_eq_ok, pure_eq_ok]
  have hsmall : ¬ 2 ^ 64 ≤ a * s.chunkSize := by omega
  exact ⟨by omega, by omega, f0, hf0, f1, hf1, (a, l), ha, hsmall, rfl⟩

namespace Plays

variable (hplays : job.Plays s) {first : ℕ} {lastInclusive : Option ℕ} {req : RangeReq}

include hplays

lemma resolved (h : resolveRange first lastInclusive job.totalLen MAX_RANGE_BODY = some req) :
    req.start = first ∧ 0 < req.len ∧ req.start + req.len ≤ s.plaintext.length := by
  unfold resolveRange at h
  rw [hplays.totalLen] at h
  by_cases hnone : s.plaintext.length = 0 ∨ s.plaintext.length ≤ first
  · rw [if_pos hnone] at h
    cases h
  · rw [if_neg hnone] at h
    dsimp only at h
    by_cases hback : min (lastInclusive.getD (s.plaintext.length - 1)) (s.plaintext.length - 1) < first
    · rw [if_pos hback] at h
      cases h
    · rw [if_neg hback] at h
      obtain rfl := Option.some.inj h
      have hmax : max MAX_RANGE_BODY 1 = 2097152 := by decide
      dsimp only
      rw [hmax]
      refine ⟨rfl, ?_, ?_⟩ <;> omega

lemma planned (h : resolveRange first lastInclusive job.totalLen MAX_RANGE_BODY = some req) :
    ∃ plan a l b m, job.planned first lastInclusive = .ok (req, plan) ∧
      job.index.chunksForFragment plan.f0 = some (a, l) ∧
      job.index.chunksForFragment plan.f1 = some (b, m) ∧ plan.f0 ≤ plan.f1 ∧
      plan.base = a * s.chunkSize ∧ a * s.chunkSize ≤ req.start ∧
      req.start + req.len ≤ (b + m) * s.chunkSize := by
  obtain ⟨-, hpos, hend⟩ := hplays.resolved h
  obtain ⟨plan, a, l, b, m, hplan, hplace⟩ := exists_plan hplays.covers hpos hend
  refine ⟨plan, a, l, b, m, ?_, hplace⟩
  unfold VideoJob.planned
  rw [hplays.chunkSize]
  simp only [bind_eq_ok, elim_eq_ok, pure_eq_ok, Prod.mk.injEq]
  exact ⟨req, h, plan, hplan, rfl, rfl⟩

end Plays

end VideoJob

/-! ## Opening what an honest server serves -/

section Open

variable [Sha256] [Aes256Gcm] [Aes256GcmSeal] {streams : Set PlainStream} {s : PlainStream}

omit [Aes256GcmSeal] [Sha256] [Aes256Gcm] in
lemma totalLen_ok {last total : ℕ} (hlast : last = s.plaintext.length -
    (s.frames.length - 1) * s.chunkSize)
    (h : MaxSecu.totalLen s.frames.length s.chunkSize last = .ok total) :
    total = s.plaintext.length := by
  have hle := s.mul_le_length
  unfold MaxSecu.totalLen at h
  rw [guard_eq_ok, guard_eq_ok, pure_eq_ok] at h
  obtain ⟨-, -, rfl⟩ := h
  omega

lemma SealedOnly.last_length (hsealed : SealedOnly streams s.ck)
    (hone : Set.InjOn PlainStream.context streams) (hs : s ∈ streams)
    (hcontent : s.streamType = .content) {ct pt : List UInt8}
    (hopen : s.decryptor.openRange (s.frames.length - 1) [ct] = .ok pt) :
    pt.length = s.plaintext.length - (s.frames.length - 1) * s.chunkSize := by
  have hpos := List.length_pos_of_ne_nil s.frames_ne_nil
  have hone' : (s.frames.drop (s.frames.length - 1)).length ≤ [ct].length := by
    rw [List.length_drop, List.length_singleton]
    omega
  rw [(hsealed.openRange hone hs hcontent hopen).2, List.take_of_length_le hone',
    s.flatten_drop_frames, List.length_drop]

lemma probeTotalLen_ok (hsealed : SealedOnly streams s.ck)
    (hone : Set.InjOn PlainStream.context streams) (hs : s ∈ streams)
    (hcontent : s.streamType = .content) {routes : ChunkRoutes} {total : ℕ}
    (h : probeTotalLen s.decryptor s.chunkSize routes = .ok total) :
    total = s.plaintext.length := by
  have hcount : s.decryptor.contentChunkCount.toNat = s.frames.length := s.toNat_count
  unfold probeTotalLen at h
  rw [hcount] at h
  dsimp only at h
  rw [guard_eq_ok] at h
  obtain ⟨-, ⟨ct, direct⟩, -, h⟩ := h.imp_right bind_eq_ok.mp
  dsimp only at h
  cases hopen : s.decryptor.openRange (s.frames.length - 1) [ct] with
  | ok pt =>
    rw [hopen] at h
    exact totalLen_ok (hsealed.last_length hone hs hcontent hopen) h
  | error e =>
    rw [hopen] at h
    dsimp only at h
    by_cases hdirect : direct = true
    · rw [if_pos hdirect] at h
      obtain ⟨again, -, h⟩ := bind_eq_ok.mp h
      obtain ⟨pt, hagain, h⟩ := bind_eq_ok.mp h
      exact totalLen_ok (hsealed.last_length hone hs hcontent (mapError_eq_ok.mp hagain)) h
    · rw [if_neg hdirect] at h
      cases h

/-- **What a session takes from the server unsigned.**  A video that is opened with the header of a
stream plays this stream exactly if the server's view has the size of its chunks, if its length, where
that is taken instead of the one of the last chunk, is the length of the content, and if the index of
the clip covers its chunks. -/
theorem openVideo_plays_iff [Ed25519] [Hkdf] [Hpke] [X25519] [MlKem768] [MetadataJson]
    (hsealed : SealedOnly streams s.ck) (hone : Set.InjOn PlainStream.context streams)
    (hs : s ∈ streams) (hcontent : s.streamType = .content) {ctx : VerifyContext}
    {view : ParsedView} {fetch : HeaderFetch} {opening : ChunkRoutes} {job : VideoJob}
    (hcarries : fetch.header.Carries s) (hagain : ∀ h, fetch.again = .ok h → h.Carries s)
    (hopen : openVideo ctx view fetch opening = .ok job) :
    job.Plays s ↔ ∃ spec, view.contentSpec = some spec ∧ spec.chunkSize.toNat = s.chunkSize ∧
      (∀ total, trustedTotalLen s.frames.length s.chunkSize spec.totalBytes.toNat = some total →
        total = s.plaintext.length) ∧ job.index.chunkCount = s.frames.length := by
  obtain ⟨hjob, ⟨hbound, hfew⟩, -⟩ := openVideo_ok hcarries hagain hopen
  unfold openVideo at hopen
  obtain ⟨⟨d, index⟩, -, hopen⟩ := bind_eq_ok.mp hopen
  obtain ⟨spec, hspec, hopen⟩ := bind_eq_ok.mp hopen
  obtain ⟨length, hlength, hopen⟩ := bind_eq_ok.mp hopen
  obtain rfl := pure_eq_ok.mp hopen
  obtain rfl : d = s.decryptor := hjob
  have hcount : s.decryptor.contentChunkCount.toNat = s.frames.length := s.toNat_count
  rw [elim_eq_ok.mp hspec]
  unfold videoLen at hlength
  rw [hcount] at hlength
  constructor
  · intro hplays
    have hsize : spec.chunkSize.toNat = s.chunkSize := hplays.chunkSize
    refine ⟨spec, rfl, hsize, fun total htrusted => ?_, hplays.covers⟩
    rw [hsize, htrusted] at hlength
    exact (pure_eq_ok.mp hlength).trans hplays.totalLen
  · rintro ⟨_, hsame, hsize, htotal, hcovers⟩
    obtain rfl := Option.some.inj hsame
    rw [hsize] at hlength
    refine ⟨rfl, hsize, ?_, hbound, hfew, hcovers⟩
    show length = s.plaintext.length
    cases htrusted : trustedTotalLen s.frames.length s.chunkSize spec.totalBytes.toNat with
    | some total =>
      rw [htrusted] at hlength
      exact (pure_eq_ok.mp hlength).symm.trans (htotal total htrusted)
    | none =>
      rw [htrusted] at hlength
      exact probeTotalLen_ok hsealed hone hs hcontent hlength

end Open

end MaxSecu
