import MaxSecu.App.VideoFetch

/-!
# What a range comes to

A request first looks every fragment of its plan up, then fetches what is not held, and then feeds the
fragments one after the other.  `VideoJob.first_ok_iff` says when this comes off, and
`VideoJob.retry_eq` what the second attempt comes to, for which the fragments of the plan are dropped
from the cache.
-/

namespace MaxSecu

open ExceptRules

section Conditions

variable (job : VideoJob) (s : PlainStream) [Sha256] [Aes256GcmSeal]

/-- The fragments that a plan does not fetch. -/
def VideoJob.hits (cache : MediaCache) (seq : ℕ) : Bool := (job.held cache seq).isSome

/-- What the cache holds for a span is what was sealed, and what it holds stays there until its turn
comes: storing the fragments before it does not take its room. -/
structure VideoJob.Agrees (span : List ℕ) (cache : MediaCache) : Prop where
  genuine : ∀ seq ∈ span, ∀ chunks, job.held cache seq = some chunks → chunks = job.genuine s seq
  stays : job.Stays s (job.hits cache) span (span.foldl job.touch cache)

def VideoJob.evictSpan (span : List ℕ) (cache : MediaCache) : MediaCache :=
  span.foldl (fun cache seq => cache.evict (job.key seq)) cache

end Conditions

namespace VideoJob

section Lemmas

variable {job : VideoJob} {s : PlainStream} {cache : MediaCache} {span : List ℕ} {hit : ℕ → Bool}

lemma bytesAt_of_evictSpan {key : Ns × Id × ℕ} {blob : List UInt8}
    (h : (job.evictSpan span cache).bytesAt key = some blob) : cache.bytesAt key = some blob := by
  induction span generalizing cache with
  | nil => exact h
  | cons seq span ih => exact BlobCache.bytesAt_of_evict (ih h)

lemma bytesAt_evictSpan {seq : ℕ} (hseq : seq ∈ span) :
    (job.evictSpan span cache).bytesAt (job.key seq) = none := by
  induction span generalizing cache with
  | nil => cases hseq
  | cons other span ih =>
    rcases List.mem_cons.mp hseq with rfl | hlater
    · rw [Option.eq_none_iff_forall_ne_some]
      intro blob hblob
      have hbefore : (cache.evict (job.key seq)).bytesAt (job.key seq) = some blob :=
        bytesAt_of_evictSpan hblob
      rw [BlobCache.bytesAt_evict_self] at hbefore
      cases hbefore
    · exact ih hlater

lemma held_evictSpan {seq : ℕ} (hseq : seq ∈ span) :
    job.held (job.evictSpan span cache) seq = none := by
  unfold held
  rw [bytesAt_evictSpan hseq]
  cases job.index.chunksForFragment seq <;> rfl

lemma held_of_not_hits {seq : ℕ} (h : job.hits cache seq = false) : job.held cache seq = none := by
  unfold hits at h
  exact Option.not_isSome_iff_eq_none.mp (by rw [h]; decide)

variable [Sha256] [Aes256GcmSeal]

lemma stays_of_no_hit (h : ∀ seq ∈ span, hit seq = false) : job.Stays s hit span cache := by
  induction span generalizing cache with
  | nil => trivial
  | cons seq span ih =>
    refine ⟨?_, ih fun other hother => h other (List.mem_cons_of_mem _ hother)⟩
    intro htrue
    rw [h seq List.mem_cons_self] at htrue
    cases htrue

lemma not_stays_of_gone (hnodup : span.Nodup) (hgone : ∀ seq ∈ span, job.held cache seq = none)
    (hhit : ∃ seq ∈ span, hit seq = true) : ¬ job.Stays s hit span cache := by
  induction span generalizing cache with
  | nil =>
    obtain ⟨seq, hseq, -⟩ := hhit
    cases hseq
  | cons seq span ih =>
    obtain ⟨hnew, hnodup⟩ := List.nodup_cons.mp hnodup
    rintro ⟨hnow, hlater⟩
    by_cases hfirst : hit seq = true
    · have hheld := hnow hfirst
      rw [hgone seq List.mem_cons_self] at hheld
      cases hheld
    · refine ih hnodup ?_ ?_ hlater
      · intro other hother
        rw [Option.eq_none_iff_forall_ne_some]
        intro chunks hchunks
        have hbefore := held_of_feed (fun heq : other = seq => hnew (heq ▸ hother)) hchunks
        rw [hgone other (List.mem_cons_of_mem _ hother)] at hbefore
        cases hbefore
      · obtain ⟨other, hother, htrue⟩ := hhit
        rcases List.mem_cons.mp hother with rfl | hother
        · exact absurd htrue hfirst
        · exact ⟨other, hother, htrue⟩

lemma agrees_empty (cap : Option ℕ) : job.Agrees s span (.empty cap) := by
  have hnone : ∀ seq, job.held (.empty cap) seq = none := by
    intro seq
    unfold held
    cases job.index.chunksForFragment seq <;> rfl
  refine ⟨?_, stays_of_no_hit ?_⟩
  · intro seq _ chunks hchunks
    rw [hnone] at hchunks
    cases hchunks
  · intro seq _
    unfold hits
    rw [hnone]
    rfl

end Lemmas

section Attempts

variable [Sha256] [Aes256Gcm] [Aes256GcmSeal] {streams : Set PlainStream} {s : PlainStream}
  {job : VideoJob} {cache cache' : MediaCache} {span : List ℕ} {routes : ChunkRoutes}

omit [Aes256Gcm] in
lemma answers_genuine (hreads : job.Reads s) {f : ℕ → Fetched} {seq : ℕ} :
    ((job.chunksOf seq).map fun i => (f i).bytes) = job.genuine s seq ↔
      ∀ i ∈ job.chunksOf seq, (f i).bytes = s.chunk i := by
  rw [hreads.genuine_eq]
  exact List.map_inj_left

/-- The first attempt comes off if the cache agrees and everything that was fetched is what was
sealed. -/
lemma first_plays (hideal : s.Ideal streams) (hreads : job.Reads s) (hnodup : span.Nodup)
    (hplaces : ∀ seq ∈ span, (job.index.chunksForFragment seq).isSome = true)
    (hagrees : job.Agrees s span cache)
    (hanswers : ∀ i ∈ job.missing cache span, (routes.answer s i).bytes = s.chunk i) :
    (job.feedSpan (fetchedChunk ((job.missing cache span).map (routes.answer s))) span
      (span.foldl job.touch cache)).1 = .ok (span.flatMap (job.plain s)) := by
  have hindex : ∀ i, (routes.answer s i).index = i := fun _ => rfl
  refine congrArg Prod.fst (feedSpan_plays hideal hreads hnodup hplaces ?_ ?_ hagrees.stays)
  · intro seq hseq chunks hchunks
    rw [held_foldl_touch] at hchunks
    exact ⟨Option.isSome_iff_exists.mpr ⟨chunks, hchunks⟩, hagrees.genuine seq hseq chunks hchunks⟩
  · intro seq hseq hfalse
    have hnone := held_of_not_hits hfalse
    rw [mapM_missing hindex hseq hnone, (answers_genuine hreads).mpr]
    intro i hi
    exact hanswers i (mem_missing.mpr ⟨seq, hseq, hnone, hi⟩)

lemma first_ok_only (hideal : s.Ideal streams) (hreads : job.Reads s) (hnodup : span.Nodup)
    {out : List UInt8}
    (hout : (job.feedSpan (fetchedChunk ((job.missing cache span).map (routes.answer s))) span
      (span.foldl job.touch cache)).1 = .ok out) :
    job.Agrees s span cache ∧
      ∀ i ∈ job.missing cache span, (routes.answer s i).bytes = s.chunk i := by
  have hindex : ∀ i, (routes.answer s i).index = i := fun _ => rfl
  obtain ⟨hgenuine, hfetched, hstays⟩ := feedSpan_ok_only hideal hreads hnodup
    (fun _ => show job.hits cache _ = (job.held cache _).isSome from rfl)
    (fun seq _ chunks hchunks => by rwa [held_foldl_touch] at hchunks)
    (fun seq _ htrue => by
      obtain ⟨chunks, hchunks⟩ := Option.isSome_iff_exists.mp htrue
      exact mapM_held hindex hchunks) hout
  refine ⟨⟨hgenuine, hstays⟩, ?_⟩
  intro i hi
  obtain ⟨seq, hseq, hnone, hi⟩ := mem_missing.mp hi
  have hsame := hfetched seq hseq (by unfold hits; rw [hnone]; rfl)
  rw [mapM_missing hindex hseq hnone] at hsame
  exact (answers_genuine hreads).mp (Except.ok.inj hsame) i hi

/-- The second attempt comes off exactly if nothing was held: what was held has been dropped, and was
not fetched. -/
lemma retry_eq (cache cache' : MediaCache) (routes : ChunkRoutes) (hideal : s.Ideal streams) (hreads : job.Reads s) (hnodup : span.Nodup)
    (hplaces : ∀ seq ∈ span, (job.index.chunksForFragment seq).isSome = true) :
    (job.feedSpan (fetchedChunk ((job.missing cache span).map (routes.corrected s))) span
        (job.evictSpan span cache')).1 =
      if ∃ seq ∈ span, job.hits cache seq = true then .error playerErr
      else .ok (span.flatMap (job.plain s)) := by
  have hindex : ∀ i, (routes.corrected s i).index = i := fun _ => rfl
  have hheld : ∀ seq ∈ span, ∀ chunks,
      job.held (job.evictSpan span cache') seq = some chunks →
        job.hits cache seq = true ∧ chunks = job.genuine s seq := by
    intro seq hseq chunks hchunks
    rw [held_evictSpan hseq] at hchunks
    cases hchunks
  have hfetch : ∀ seq ∈ span, job.hits cache seq = false →
      (job.chunksOf seq).mapM (fetchedChunk ((job.missing cache span).map (routes.corrected s))) =
        .ok (job.genuine s seq) := by
    intro seq hseq hfalse
    rw [mapM_missing hindex hseq (held_of_not_hits hfalse),
      (answers_genuine hreads).mpr fun _ _ => rfl]
  by_cases hhit : ∃ seq ∈ span, job.hits cache seq = true
  · rw [if_pos hhit]
    refine feedSpan_lost hideal hreads hnodup hplaces hheld hfetch ?_
      (not_stays_of_gone (s := s) hnodup (fun seq hseq => held_evictSpan hseq) hhit)
    intro seq _ htrue
    obtain ⟨chunks, hchunks⟩ := Option.isSome_iff_exists.mp htrue
    exact mapM_held hindex hchunks
  · rw [if_neg hhit]
    have hnever : ∀ seq ∈ span, job.hits cache seq = false := by
      intro seq hseq
      by_contra htrue
      exact hhit ⟨seq, hseq, eq_true_of_ne_false htrue⟩
    rw [feedSpan_plays hideal hreads hnodup hplaces hheld hfetch (stays_of_no_hit hnever)]

end Attempts

/-! ## The whole request -/

section Request

variable [Sha256] [Aes256Gcm] [Aes256GcmSeal] {streams : Set PlainStream} {s : PlainStream}
  {job : VideoJob} {cache cache' : MediaCache} {routes : ChunkRoutes} {plan : RangePlan}
  {req : RangeReq} {first : ℕ} {lastInclusive : Option ℕ}

omit [Sha256] [Aes256Gcm] [Aes256GcmSeal] in
lemma nodup_span : plan.span.Nodup := List.nodup_range'

omit [Sha256] [Aes256Gcm] [Aes256GcmSeal] in
lemma isSome_of_mem_span {b m : ℕ} (hb : job.index.chunksForFragment plan.f1 = some (b, m))
    {seq : ℕ} (hseq : seq ∈ plan.span) : (job.index.chunksForFragment seq).isSome = true := by
  unfold RangePlan.span at hseq
  rw [List.mem_range'_1] at hseq
  obtain ⟨c, n, hplace⟩ := job.index.exists_of_le hb (show seq ≤ plan.f1 by omega)
  rw [hplace]
  rfl

lemma serveRange_eq (hreads : job.Reads s) (hhonest : routes.Honest s)
    (hplanned : job.planned first lastInclusive = .ok (req, plan))
    (hplaces : ∀ seq ∈ plan.span, (job.index.chunksForFragment seq).isSome = true) :
    job.serveRange routes first lastInclusive cache =
      ((job.assembleTwice routes plan req ((job.missing cache plan.span).map (routes.answer s))
          (plan.span.foldl job.touch cache)).1.map fun body =>
            ⟨req.start, req.len, job.totalLen, body⟩,
        (job.assembleTwice routes plan req ((job.missing cache plan.span).map (routes.answer s))
          (plan.span.foldl job.touch cache)).2) := by
  have hindices : ∀ i ∈ job.missing cache plan.span, i < s.frames.length := by
    intro i hi
    obtain ⟨seq, -, -, hmem⟩ := mem_missing.mp hi
    exact hreads.mem_chunksOf hmem
  unfold serveRange
  rw [hplanned]
  dsimp only
  rw [planFetch_eq hplaces]
  dsimp only
  rw [hhonest.prefetch hindices]
  dsimp only
  cases job.assembleTwice routes plan req ((job.missing cache plan.span).map (routes.answer s))
      (plan.span.foldl job.touch cache) with
  | mk result cache₁ => cases result <;> rfl

omit [Sha256] [Aes256GcmSeal] in
lemma assembleRange_fst {fetchChunk : ℕ → Except UiError (List UInt8)} :
    (job.assembleRange plan req fetchChunk cache).1 =
      (job.feedSpan fetchChunk plan.span cache).1.bind fun out => sliceRange out plan.base req := by
  unfold assembleRange
  cases job.feedSpan fetchChunk plan.span cache with
  | mk result cache₁ => cases result <;> rfl

omit [Sha256] [Aes256GcmSeal] in
lemma assembleRange_snd {fetchChunk : ℕ → Except UiError (List UInt8)} :
    (job.assembleRange plan req fetchChunk cache).2 =
      (job.feedSpan fetchChunk plan.span cache).2 := by
  unfold assembleRange
  cases job.feedSpan fetchChunk plan.span cache with
  | mk result cache₁ => cases result <;> rfl

variable {body : List UInt8}

section Twice

variable (hideal : s.Ideal streams) (hreads : job.Reads s)
  (hplaces : ∀ seq ∈ plan.span, (job.index.chunksForFragment seq).isSome = true)

include hideal hreads hplaces

lemma twice_ok (hslice : sliceRange (plan.span.flatMap (job.plain s)) plan.base req = .ok body)
    (hagrees : job.Agrees s plan.span cache)
    (hanswers : ∀ i ∈ job.missing cache plan.span, (routes.answer s i).bytes = s.chunk i) :
    (job.assembleTwice routes plan req ((job.missing cache plan.span).map (routes.answer s))
      (plan.span.foldl job.touch cache)).1 = .ok body := by
  have hfeed := first_plays hideal hreads nodup_span hplaces hagrees hanswers
  have hfirst : (job.assembleRange plan req
      (fetchedChunk ((job.missing cache plan.span).map (routes.answer s)))
      (plan.span.foldl job.touch cache)).1 = _ := assembleRange_fst
  rw [hfeed] at hfirst
  unfold assembleTwice
  cases hrun : job.assembleRange plan req
      (fetchedChunk ((job.missing cache plan.span).map (routes.answer s)))
      (plan.span.foldl job.touch cache) with
  | mk result cache₁ =>
    rw [hrun] at hfirst
    obtain rfl : result = .ok body := hfirst.trans hslice
    rfl

omit hplaces in
lemma first_fails (req : RangeReq) (hnot : ¬ (job.Agrees s plan.span cache ∧
      ∀ i ∈ job.missing cache plan.span, (routes.answer s i).bytes = s.chunk i)) :
    ∃ e, (job.feedSpan (fetchedChunk ((job.missing cache plan.span).map (routes.answer s))) plan.span
        (plan.span.foldl job.touch cache)).1 = .error e ∧
      (job.assembleRange plan req
        (fetchedChunk ((job.missing cache plan.span).map (routes.answer s)))
        (plan.span.foldl job.touch cache)).1 = .error e := by
  rw [assembleRange_fst]
  cases hfeed : (job.feedSpan
      (fetchedChunk ((job.missing cache plan.span).map (routes.answer s))) plan.span
        (plan.span.foldl job.touch cache)).1 with
  | ok out => exact absurd (first_ok_only hideal hreads nodup_span hfeed) hnot
  | error e => exact ⟨e, rfl, rfl⟩

lemma twice_retried (hhonest : routes.Honest s)
    (hslice : sliceRange (plan.span.flatMap (job.plain s)) plan.base req = .ok body)
    (hnot : ¬ (job.Agrees s plan.span cache ∧
      ∀ i ∈ job.missing cache plan.span, (routes.answer s i).bytes = s.chunk i))
    (hdirect : ∃ i ∈ job.missing cache plan.span, (routes.direct i).isSome = true) :
    (job.assembleTwice routes plan req ((job.missing cache plan.span).map (routes.answer s))
      (plan.span.foldl job.touch cache)).1 =
        if ∃ seq ∈ plan.span, job.hits cache seq = true then .error playerErr else .ok body := by
  obtain ⟨e, -, he⟩ := first_fails hideal hreads req hnot
  have hindices : ∀ i ∈ job.missing cache plan.span, i < s.frames.length := by
    intro i hi
    obtain ⟨seq, -, -, hmem⟩ := mem_missing.mp hi
    exact hreads.mem_chunksOf hmem
  have hany : ((job.missing cache plan.span).map (routes.answer s)).any Fetched.direct = true := by
    obtain ⟨i, hi, hsome⟩ := hdirect
    exact List.any_eq_true.mpr ⟨_, List.mem_map_of_mem hi, hsome⟩
  unfold assembleTwice
  cases hrun : job.assembleRange plan req
      (fetchedChunk ((job.missing cache plan.span).map (routes.answer s)))
      (plan.span.foldl job.touch cache) with
  | mk result cache₁ =>
    rw [hrun] at he
    obtain rfl : result = .error e := he
    dsimp only
    rw [if_pos hany, hhonest.refetch hindices]
    dsimp only
    rw [assembleRange_fst]
    have hretry := retry_eq cache cache₁ routes hideal hreads nodup_span hplaces
    unfold evictSpan at hretry
    rw [hretry]
    by_cases hhit : ∃ seq ∈ plan.span, job.hits cache seq = true
    · rw [if_pos hhit, if_pos hhit]
      rfl
    · rw [if_neg hhit, if_neg hhit]
      exact hslice

omit hplaces in
lemma twice_failed (req : RangeReq) (hnot : ¬ (job.Agrees s plan.span cache ∧
      ∀ i ∈ job.missing cache plan.span, (routes.answer s i).bytes = s.chunk i))
    (hdirect : ¬ ∃ i ∈ job.missing cache plan.span, (routes.direct i).isSome = true) :
    ∃ e, (job.feedSpan (fetchedChunk ((job.missing cache plan.span).map (routes.answer s))) plan.span
        (plan.span.foldl job.touch cache)).1 = .error e ∧
      (job.assembleTwice routes plan req ((job.missing cache plan.span).map (routes.answer s))
        (plan.span.foldl job.touch cache)).1 = .error e := by
  obtain ⟨e, hfeed, he⟩ := first_fails hideal hreads req hnot
  refine ⟨e, hfeed, ?_⟩
  have hany : ¬ ((job.missing cache plan.span).map (routes.answer s)).any Fetched.direct = true := by
    intro hany
    obtain ⟨f, hf, hsome⟩ := List.any_eq_true.mp hany
    obtain ⟨i, hi, rfl⟩ := List.mem_map.mp hf
    exact hdirect ⟨i, hi, hsome⟩
  unfold assembleTwice
  cases hrun : job.assembleRange plan req
      (fetchedChunk ((job.missing cache plan.span).map (routes.answer s)))
      (plan.span.foldl job.touch cache) with
  | mk result cache₁ =>
    rw [hrun] at he
    obtain rfl : result = .error e := he
    dsimp only
    rw [if_neg hany]

/-- An honest server whose links are honest too: the range is served exactly if the cache agrees. -/
lemma twice_ok_iff (hhonest : routes.Honest s)
    (hslice : sliceRange (plan.span.flatMap (job.plain s)) plan.base req = .ok body)
    (hanswers : ∀ i ∈ job.missing cache plan.span, (routes.answer s i).bytes = s.chunk i) :
    (job.assembleTwice routes plan req ((job.missing cache plan.span).map (routes.answer s))
      (plan.span.foldl job.touch cache)).1 = .ok body ↔ job.Agrees s plan.span cache := by
  constructor
  · intro hok
    by_contra hnot
    have hhit : ∃ seq ∈ plan.span, job.hits cache seq = true := by
      by_contra hnone
      refine hnot ⟨?_, stays_of_no_hit ?_⟩
      · intro seq hseq chunks hchunks
        exact absurd ⟨seq, hseq, Option.isSome_iff_exists.mpr ⟨chunks, hchunks⟩⟩ hnone
      · intro seq hseq
        by_contra htrue
        exact hnone ⟨seq, hseq, eq_true_of_ne_false htrue⟩
    have hnot' : ¬ (job.Agrees s plan.span cache ∧
        ∀ i ∈ job.missing cache plan.span, (routes.answer s i).bytes = s.chunk i) :=
      fun hboth => hnot hboth.1
    by_cases hdirect : ∃ i ∈ job.missing cache plan.span, (routes.direct i).isSome = true
    · have hretry := twice_retried hideal hreads hplaces hhonest hslice hnot' hdirect
      rw [hok, if_pos hhit] at hretry
      cases hretry
    · obtain ⟨e, -, he⟩ := twice_failed hideal hreads req hnot' hdirect
      rw [hok] at he
      cases he
  · intro hagrees
    exact twice_ok hideal hreads hplaces hslice hagrees hanswers

end Twice

end Request

end VideoJob

/-! ## Videos of two fragments -/

section TwoFragments

def twoEntries : List FragmentEntry := [⟨0, 0, 0, 1⟩, ⟨1, 0, 1, 1⟩]

lemma twoEntries_ne_nil : twoEntries ≠ [] := List.cons_ne_nil _ _

lemma twoEntries_contiguous : Contiguous 0 0 twoEntries :=
  ⟨rfl, rfl, le_rfl, by decide, rfl, rfl, le_rfl, by decide, trivial⟩

def twoFragments : FragmentIndex := ⟨twoEntries, twoEntries_ne_nil, twoEntries_contiguous⟩

/-- The session of a video that has these fragments. -/
def twoFragmentJob (s : PlainStream) : VideoJob :=
  ⟨s.decryptor, twoFragments, s.fileId, s.chunkSize, s.plaintext.length⟩

lemma twoFragmentJob_plays {s : PlainStream} (hsize : s.chunkSize ≤ 2 ^ 23)
    (hframes : s.frames.length = 2) : (twoFragmentJob s).Plays s :=
  ⟨rfl, rfl, rfl, hsize, by omega, hframes.symm⟩

/-- An honest server without direct links. -/
def proxyOnly [Sha256] [Aes256GcmSeal] (s : PlainStream) : ChunkRoutes :=
  ⟨fun _ => none, fun i => .ok (s.chunk i), fun i => .ok (s.chunk i)⟩

lemma proxyOnly_honest [Sha256] [Aes256GcmSeal] (s : PlainStream) : (proxyOnly s).Honest s :=
  ⟨fun _ _ => rfl, fun _ _ => rfl⟩

lemma proxyOnly_answer [Sha256] [Aes256GcmSeal] (s : PlainStream) (i : ℕ) :
    ((proxyOnly s).answer s i).bytes = s.chunk i := rfl

end TwoFragments

end MaxSecu
