import MaxSecu.App.VideoCache

/-!
# What a tampered direct link does to a video

A direct link may answer with anything.  If the fragments then do not open, what the links brought is
fetched again from the server, and the range is put together once more, after its fragments were
dropped from the cache.

`serveRange_links_iff` says that the links change what is served in one case only: a link was
tampered with, and another fragment of the range was held.  That fragment is dropped as well, and it
was never fetched.  What the cache holds afterwards is genuine in any case.
-/

namespace MaxSecu

open ExceptRules Framing

/-- The same server, without direct links. -/
def ChunkRoutes.proxied (routes : ChunkRoutes) : ChunkRoutes :=
  { routes with direct := fun _ => none }

lemma length_le_of_mem_framesOf {chunkSize : ℕ} (hsize : 0 < chunkSize) {plaintext : List UInt8}
    {frame : List UInt8} (h : frame ∈ framesOf chunkSize plaintext) : frame.length ≤ chunkSize := by
  unfold framesOf at h
  by_cases hempty : (plaintext.toChunks chunkSize).isEmpty = true
  · rw [if_pos hempty, List.mem_singleton] at h
    rw [h]
    exact Nat.zero_le _
  · rw [if_neg hempty] at h
    clear hempty
    induction hlength : plaintext.length using Nat.strong_induction_on generalizing plaintext with
    | _ len ih =>
      by_cases hnil : plaintext = []
      · rw [hnil, toChunks_nil] at h
        cases h
      · have hpos : 0 < plaintext.length := List.length_pos_of_ne_nil hnil
        rw [toChunks_eq hsize hnil] at h
        rcases List.mem_cons.mp h with rfl | hlater
        · rw [List.length_take]
          exact Nat.min_le_left _ _
        · exact ih _ (by rw [List.length_drop]; omega) hlater rfl

lemma PlainStream.Ideal.short [Sha256] [Aes256Gcm] [Aes256GcmSeal] {streams : Set PlainStream}
    {s : PlainStream} (hideal : s.Ideal streams) (hsize : s.chunkSize ≤ 2 ^ 23) :
    ∀ ct ∈ s.sealed.chunks, ct.length < 2 ^ 32 := by
  intro ct hct
  obtain ⟨i, hi⟩ := List.mem_iff_getElem?.mp hct
  have hlt : i < s.frames.length := by
    rw [← s.length_sealed_chunks]
    exact (List.getElem?_eq_some_iff.mp hi).1
  have hframe := List.getElem?_eq_getElem hlt
  have hcipher := s.getElem?_sealed_chunks hframe
  obtain rfl := Option.some.inj (hi.symm.trans hcipher)
  have hle := length_le_of_mem_framesOf s.chunkSize_pos (List.getElem_mem hlt)
  unfold SealCall.ciphertext
  rw [hideal.tag]
  have htag : TAG_LEN = 16 := rfl
  show s.frames[i].length + TAG_LEN < 2 ^ 32
  omega

namespace VideoJob

section Genuine

variable [Sha256] [Aes256GcmSeal] {s : PlainStream} {job : VideoJob} {cache : MediaCache}
  {all span : List ℕ}

lemma Genuine.held (hplays : job.Plays s)
    (hshort : ∀ ct ∈ s.sealed.chunks, ct.length < 2 ^ 32) (hgenuine : job.Genuine s all cache) {seq : ℕ}
    (hseq : seq ∈ all) {chunks : List (List UInt8)} (h : job.held cache seq = some chunks) :
    chunks = job.genuine s seq := by
  obtain ⟨a, l, hplace, hcached, -⟩ := chunksForFragment_of_held h
  have hle := (job.index.chunksForFragment_bound hplace).2
  have hfew := hplays.frames_lt
  rw [hplays.covers] at hle
  obtain ⟨hdeframed, -⟩ := Option.filter_eq_some_iff.mp hcached
  obtain ⟨blob, hblob, hchunks⟩ := Option.bind_eq_some_iff.mp hdeframed
  have hpiece : job.genuine s seq = s.piece a l := by
    unfold genuine
    rw [hplace]
    rfl
  have hlength : (job.genuine s seq).length < 2 ^ 32 := by
    rw [hpiece, s.length_piece hle]
    omega
  have hsmall : ∀ ct ∈ job.genuine s seq, ct.length < 2 ^ 32 := by
    intro ct hct
    rw [hpiece] at hct
    exact hshort ct (List.mem_of_mem_drop (List.mem_of_mem_take hct))
  rw [hgenuine seq hseq blob hblob, deframeChunks_frameChunks hlength hsmall] at hchunks
  exact (Option.some.inj hchunks).symm

lemma Genuine.touch (hgenuine : job.Genuine s all cache) (seqs : List ℕ) :
    job.Genuine s all (seqs.foldl job.touch cache) := by
  induction seqs generalizing cache with
  | nil => exact hgenuine
  | cons seq seqs ih =>
    refine ih ?_
    intro other hother blob hblob
    unfold VideoJob.touch at hblob
    rw [BlobCache.bytesAt_get] at hblob
    exact hgenuine other hother blob hblob

lemma genuine_evictSpan : job.Genuine s span (job.evictSpan span cache) := by
  intro seq hseq blob hblob
  rw [bytesAt_evictSpan hseq] at hblob
  cases hblob

lemma fetched_genuine (hreads : job.Reads s) {f : ℕ → Fetched} (hindex : ∀ i, (f i).index = i)
    (hanswers : ∀ i ∈ job.missing cache span, (f i).bytes = s.chunk i) {seq : ℕ}
    (hseq : seq ∈ span) {chunks : List (List UInt8)}
    (h : (job.chunksOf seq).mapM (fetchedChunk ((job.missing cache span).map f)) = .ok chunks) :
    chunks = job.genuine s seq := by
  cases hheld : job.held cache seq with
  | some held =>
    rw [mapM_held hindex hheld] at h
    cases h
  | none =>
    rw [mapM_missing hindex hseq hheld] at h
    rw [← Except.ok.inj h, answers_genuine hreads]
    intro i hi
    exact hanswers i (mem_missing.mpr ⟨seq, hseq, hheld, hi⟩)

end Genuine

section Links

variable [Sha256] [Aes256Gcm] [Aes256GcmSeal] {streams : Set PlainStream} {s : PlainStream}
  {job : VideoJob} {cache : MediaCache} {routes : ChunkRoutes} {plan : RangePlan} {req : RangeReq}

/-- After a range was put together, with a second attempt or without, the cache holds what was
sealed. -/
lemma genuine_assembleTwice (hideal : s.Ideal streams) (hreads : job.Reads s)
    (hhonest : routes.Honest s) (hgenuine : job.Genuine s plan.span cache) :
    job.Genuine s plan.span
      (job.assembleTwice routes plan req ((job.missing cache plan.span).map (routes.answer s))
        (plan.span.foldl job.touch cache)).2 := by
  have hindices : ∀ i ∈ job.missing cache plan.span, i < s.frames.length := by
    intro i hi
    obtain ⟨seq, -, -, hmem⟩ := mem_missing.mp hi
    exact hreads.mem_chunksOf hmem
  have htouched := hgenuine.touch plan.span
  -- an attempt with genuine answers keeps the cache genuine
  have hattempt : ∀ {f : ℕ → Fetched} {cache' : MediaCache}, (∀ i, (f i).index = i) →
      (∀ i ∈ job.missing cache plan.span, (f i).bytes = s.chunk i) →
      job.Genuine s plan.span cache' →
      job.Genuine s plan.span (job.assembleRange plan req
        (fetchedChunk ((job.missing cache plan.span).map f)) cache').2 := by
    intro f cache' hindex hanswers hbefore
    rw [assembleRange_snd]
    exact genuine_feedSpan hbefore fun seq hseq chunks hchunks =>
      fetched_genuine hreads hindex hanswers hseq hchunks
  unfold assembleTwice
  cases hrun : job.assembleRange plan req
      (fetchedChunk ((job.missing cache plan.span).map (routes.answer s)))
      (plan.span.foldl job.touch cache) with
  | mk result cache₁ =>
    cases result with
    | ok body =>
      have hfirst := congrArg Prod.fst hrun
      rw [assembleRange_fst] at hfirst
      obtain ⟨out, hout⟩ : ∃ out, (job.feedSpan
          (fetchedChunk ((job.missing cache plan.span).map (routes.answer s))) plan.span
          (plan.span.foldl job.touch cache)).1 = .ok out := by
        cases hfeed : (job.feedSpan
            (fetchedChunk ((job.missing cache plan.span).map (routes.answer s))) plan.span
            (plan.span.foldl job.touch cache)).1 with
        | ok out => exact ⟨out, rfl⟩
        | error e =>
          rw [hfeed] at hfirst
          cases hfirst
      have hkeeps := hattempt (fun _ => rfl) (first_ok_only hideal hreads nodup_span hout).2 htouched
      rw [hrun] at hkeeps
      exact hkeeps
    | error e =>
      dsimp only
      by_cases hany : ((job.missing cache plan.span).map (routes.answer s)).any Fetched.direct = true
      · rw [if_pos hany, hhonest.refetch hindices]
        exact hattempt (fun _ => rfl) (fun _ _ => rfl) genuine_evictSpan
      · rw [if_neg hany]
        have hanswers : ∀ i ∈ job.missing cache plan.span, (routes.answer s i).bytes = s.chunk i := by
          intro i hi
          cases hdirect : routes.direct i with
          | none =>
            unfold ChunkRoutes.answer
            rw [hdirect]
            rfl
          | some body =>
            refine absurd (List.any_eq_true.mpr ⟨_, List.mem_map_of_mem hi, ?_⟩) hany
            unfold ChunkRoutes.answer
            rw [hdirect]
            rfl
        have hkeeps := hattempt (fun _ => rfl) hanswers htouched
        rw [hrun] at hkeeps
        exact hkeeps

lemma first_lost (hideal : s.Ideal streams) (hreads : job.Reads s)
    (hplaces : ∀ seq ∈ plan.span, (job.index.chunksForFragment seq).isSome = true)
    (hheld : ∀ seq ∈ plan.span, ∀ chunks, job.held cache seq = some chunks →
      chunks = job.genuine s seq)
    (hanswers : ∀ i ∈ job.missing cache plan.span, (routes.answer s i).bytes = s.chunk i)
    (hstays : ¬ job.Stays s (job.hits cache) plan.span (plan.span.foldl job.touch cache)) :
    (job.feedSpan (fetchedChunk ((job.missing cache plan.span).map (routes.answer s))) plan.span
      (plan.span.foldl job.touch cache)).1 = .error playerErr := by
  have hindex : ∀ i, (routes.answer s i).index = i := fun _ => rfl
  refine feedSpan_lost hideal hreads nodup_span hplaces ?_ ?_ ?_ hstays
  · intro seq hseq chunks hchunks
    rw [held_foldl_touch] at hchunks
    exact ⟨Option.isSome_iff_exists.mpr ⟨chunks, hchunks⟩, hheld seq hseq chunks hchunks⟩
  · intro seq hseq hfalse
    have hnone := held_of_not_hits hfalse
    rw [mapM_missing hindex hseq hnone, (answers_genuine hreads).mpr]
    intro i hi
    exact hanswers i (mem_missing.mpr ⟨seq, hseq, hnone, hi⟩)
  · intro seq _ htrue
    obtain ⟨chunks, hchunks⟩ := Option.isSome_iff_exists.mp htrue
    exact mapM_held hindex hchunks

lemma proxied_fst (routes : ChunkRoutes) (hideal : s.Ideal streams) (hreads : job.Reads s)
    (hplaces : ∀ seq ∈ plan.span, (job.index.chunksForFragment seq).isSome = true)
    {body : List UInt8}
    (hslice : sliceRange (plan.span.flatMap (job.plain s)) plan.base req = .ok body)
    (hheld : ∀ seq ∈ plan.span, ∀ chunks, job.held cache seq = some chunks →
      chunks = job.genuine s seq) :
    (job.Stays s (job.hits cache) plan.span (plan.span.foldl job.touch cache) →
      (job.assembleTwice routes.proxied plan req
        ((job.missing cache plan.span).map (routes.proxied.answer s))
        (plan.span.foldl job.touch cache)).1 = .ok body) ∧
    (¬ job.Stays s (job.hits cache) plan.span (plan.span.foldl job.touch cache) →
      (job.assembleTwice routes.proxied plan req
        ((job.missing cache plan.span).map (routes.proxied.answer s))
        (plan.span.foldl job.touch cache)).1 = .error playerErr) := by
  have hanswers : ∀ i ∈ job.missing cache plan.span,
      (routes.proxied.answer s i).bytes = s.chunk i := fun _ _ => rfl
  constructor
  · intro hstays
    exact twice_ok hideal hreads hplaces hslice ⟨hheld, hstays⟩ hanswers
  · intro hstays
    have hdirect : ¬ ∃ i ∈ job.missing cache plan.span, (routes.proxied.direct i).isSome = true := by
      rintro ⟨i, -, hsome⟩
      cases hsome
    obtain ⟨e, hfeed, he⟩ := twice_failed hideal hreads req
      (fun hboth => hstays hboth.1.stays) hdirect
    rw [first_lost hideal hreads hplaces hheld hanswers hstays] at hfeed
    rw [he, ← Except.error.inj hfeed]

lemma twice_eq_iff (hideal : s.Ideal streams) (hreads : job.Reads s) (hhonest : routes.Honest s)
    (hplaces : ∀ seq ∈ plan.span, (job.index.chunksForFragment seq).isSome = true)
    {body : List UInt8}
    (hslice : sliceRange (plan.span.flatMap (job.plain s)) plan.base req = .ok body)
    (hheld : ∀ seq ∈ plan.span, ∀ chunks, job.held cache seq = some chunks →
      chunks = job.genuine s seq) :
    (job.assembleTwice routes plan req ((job.missing cache plan.span).map (routes.answer s))
        (plan.span.foldl job.touch cache)).1 =
      (job.assembleTwice routes.proxied plan req
        ((job.missing cache plan.span).map (routes.proxied.answer s))
        (plan.span.foldl job.touch cache)).1 ↔
      (∀ i ∈ job.missing cache plan.span, ∀ b, routes.direct i = some b → b = s.chunk i) ∨
        (∀ seq ∈ plan.span, job.held cache seq = none) ∨
        ¬ job.Stays s (job.hits cache) plan.span (plan.span.foldl job.touch cache) := by
  obtain ⟨halone, hlost⟩ := proxied_fst routes hideal hreads hplaces hslice hheld
  have hanswers : (∀ i ∈ job.missing cache plan.span, ∀ b, routes.direct i = some b →
      b = s.chunk i) ↔
      ∀ i ∈ job.missing cache plan.span, (routes.answer s i).bytes = s.chunk i := by
    refine forall₂_congr fun i _ => ?_
    unfold ChunkRoutes.answer
    cases routes.direct i with
    | none => simp
    | some body => simp
  have hnohit : (∀ seq ∈ plan.span, job.held cache seq = none) ↔
      ¬ ∃ seq ∈ plan.span, job.hits cache seq = true := by
    constructor
    · rintro hnone ⟨seq, hseq, hhit⟩
      unfold hits at hhit
      rw [hnone seq hseq] at hhit
      cases hhit
    · intro hnone seq hseq
      apply held_of_not_hits
      by_contra hhit
      exact hnone ⟨seq, hseq, eq_true_of_ne_false hhit⟩
  rw [hanswers, hnohit]
  by_cases hstays : job.Stays s (job.hits cache) plan.span (plan.span.foldl job.touch cache)
  · rw [halone hstays]
    by_cases hall : ∀ i ∈ job.missing cache plan.span, (routes.answer s i).bytes = s.chunk i
    · rw [twice_ok hideal hreads hplaces hslice ⟨hheld, hstays⟩ hall]
      exact iff_of_true rfl (.inl hall)
    · have hdirect : ∃ i ∈ job.missing cache plan.span, (routes.direct i).isSome = true := by
        by_contra hnone
        refine hall (hanswers.mp fun i hi b hb => ?_)
        exact absurd ⟨i, hi, by rw [hb]; rfl⟩ hnone
      rw [twice_retried hideal hreads hplaces hhonest hslice (fun hboth => hall hboth.2) hdirect]
      by_cases hhit : ∃ seq ∈ plan.span, job.hits cache seq = true
      · rw [if_pos hhit]
        refine iff_of_false (fun heq => by cases heq) ?_
        rintro (hall' | hnone | hnot)
        · exact hall hall'
        · exact hnone hhit
        · exact hnot hstays
      · rw [if_neg hhit]
        exact iff_of_true rfl (.inr (.inl hhit))
  · rw [hlost hstays]
    refine iff_of_true ?_ (.inr (.inr hstays))
    have hnot : ¬ (job.Agrees s plan.span cache ∧
        ∀ i ∈ job.missing cache plan.span, (routes.answer s i).bytes = s.chunk i) :=
      fun hboth => hstays hboth.1.stays
    by_cases hdirect : ∃ i ∈ job.missing cache plan.span, (routes.direct i).isSome = true
    · have hhit : ∃ seq ∈ plan.span, job.hits cache seq = true := by
        by_contra hnone
        refine hstays (stays_of_no_hit fun seq hseq => ?_)
        by_contra hhit
        exact hnone ⟨seq, hseq, eq_true_of_ne_false hhit⟩
      rw [twice_retried hideal hreads hplaces hhonest hslice hnot hdirect, if_pos hhit]
    · have hall := hanswers.mp fun i hi b hb =>
        absurd ⟨i, hi, by rw [hb]; rfl⟩ hdirect
      obtain ⟨e, hfeed, he⟩ := twice_failed hideal hreads req hnot hdirect
      rw [first_lost hideal hreads hplaces hheld hall hstays] at hfeed
      rw [he, ← Except.error.inj hfeed]

end Links

end VideoJob

lemma map_inj_of_injective {ε α β : Type} {f : α → β} (hf : ∀ a b, f a = f b → a = b)
    {x y : Except ε α} : x.map f = y.map f ↔ x = y := by
  constructor
  · intro h
    cases x with
    | error e =>
      cases y with
      | error e' => exact congrArg Except.error (Except.error.inj h)
      | ok b => cases h
    | ok a =>
      cases y with
      | error e' => cases h
      | ok b => rw [hf a b (Except.ok.inj h)]
  · intro h
    rw [h]

/-- **What tampered links do, exactly.**  With an honest server and a cache that holds this version's
chunks only, a range is served as it is without links if and only if no answer of a link was tampered
with, or no fragment of the range was held, or one that was held is dropped for room on the way.
Afterwards the cache holds this version's chunks only, in any case. -/
theorem serveRange_links_iff [Sha256] [Aes256Gcm] [Aes256GcmSeal] {streams : Set PlainStream}
    {s : PlainStream} {job : VideoJob} {routes : ChunkRoutes} {cache : MediaCache} (first : ℕ)
    (lastInclusive : Option ℕ) (hideal : s.Ideal streams) (hplays : job.Plays s)
    (hhonest : routes.Honest s) :
    (∀ e, job.planned first lastInclusive = .error e →
      job.serveRange routes first lastInclusive cache =
        job.serveRange routes.proxied first lastInclusive cache) ∧
    ∀ req plan, job.planned first lastInclusive = .ok (req, plan) →
      job.Genuine s plan.span cache →
      ((job.serveRange routes first lastInclusive cache).1 =
          (job.serveRange routes.proxied first lastInclusive cache).1 ↔
        (∀ i ∈ job.missing cache plan.span, ∀ b, routes.direct i = some b → b = s.chunk i) ∨
          (∀ seq ∈ plan.span, job.held cache seq = none) ∨
          ¬ job.Stays s (job.hits cache) plan.span (plan.span.foldl job.touch cache)) ∧
        job.Genuine s plan.span (job.serveRange routes first lastInclusive cache).2 := by
  constructor
  · intro e hplanned
    unfold VideoJob.serveRange
    rw [hplanned]
  intro req plan hplanned hgenuine
  have hreads := hplays.reads
  have hreq : resolveRange first lastInclusive job.totalLen MAX_RANGE_BODY = some req := by
    unfold VideoJob.planned at hplanned
    simp only [bind_eq_ok, elim_eq_ok, pure_eq_ok, Prod.mk.injEq] at hplanned
    obtain ⟨req', hreq, _, -, rfl, -⟩ := hplanned
    exact hreq
  obtain ⟨plan', a, l, b, m, hplanned', ha, hb, horder, hbase, hlow, hhigh⟩ := hplays.planned hreq
  obtain rfl : plan' = plan := (Prod.mk.inj (Except.ok.inj (hplanned'.symm.trans hplanned))).2
  have hslice := VideoJob.slice_span (hplays.resolved hreq).2.2 ha hb horder hbase hlow hhigh
  have hplaces := fun seq (hseq : seq ∈ plan'.span) =>
    VideoJob.isSome_of_mem_span hb hseq
  have hheld : ∀ seq ∈ plan'.span, ∀ chunks, job.held cache seq = some chunks →
      chunks = job.genuine s seq := fun seq hseq chunks hchunks =>
    hgenuine.held hplays (hideal.short hplays.chunkSize_le) hseq hchunks
  have hproxied : routes.proxied.Honest s := ⟨hhonest.proxy, hhonest.proxyAgain⟩
  rw [VideoJob.serveRange_eq hreads hhonest hplanned hplaces,
    VideoJob.serveRange_eq hreads hproxied hplanned hplaces]
  refine ⟨?_, VideoJob.genuine_assembleTwice hideal hreads hhonest hgenuine⟩
  rw [map_inj_of_injective fun _ _ heq => (RangeResponse.mk.inj heq).2.2.2]
  exact VideoJob.twice_eq_iff hideal hreads hhonest hplaces hslice hheld

/-! ## A link that is tampered with -/

section ClosedRuns

open ClosedRuns

/-- The link to the first chunk answers with nothing. -/
def tamperedLink (s : PlainStream) : ChunkRoutes :=
  { proxyOnly s with direct := fun i => if i = 0 then some [] else none }

lemma tamperedLink_honest (s : PlainStream) : (tamperedLink s).Honest s :=
  ⟨fun _ _ => rfl, fun _ _ => rfl⟩

/-- With nothing held the video is served all the same. -/
theorem serveRange_links_empty :
    letI := tableAead [versionOne, versionTwo]
    ((twoFragmentJob versionTwo).serveRange (tamperedLink versionTwo) 0 none (.empty none)).1 =
        ((twoFragmentJob versionTwo).serveRange (tamperedLink versionTwo).proxied 0 none
          (.empty none)).1 ∧
      (twoFragmentJob versionTwo).Genuine versionTwo [0, 1]
        ((twoFragmentJob versionTwo).serveRange (tamperedLink versionTwo) 0 none (.empty none)).2 := by
  let _ := tableAead [versionOne, versionTwo]
  have hideal := twoVersions_ideal (List.mem_cons_of_mem _ List.mem_cons_self) rfl
  have hgenuine : (twoFragmentJob versionTwo).Genuine versionTwo [0, 1] (.empty none) := by
    intro seq _ blob hblob
    cases hblob
  obtain ⟨hiff, hafter⟩ := (serveRange_links_iff 0 none hideal (twoFragmentJob_plays (by decide) (by decide))
    (tamperedLink_honest versionTwo)).2 ⟨0, 2⟩ ⟨0, 1, 0⟩ rfl hgenuine
  exact ⟨hiff.mpr (.inr (.inl (by decide +kernel))), hafter⟩

/-- The second fragment was played before and is held.  The link to the first one is tampered with:
now neither is played. -/
theorem serveRange_links_denied :
    letI := tableAead [versionOne, versionTwo]
    versionTwo.Ideal {t | t ∈ [versionOne, versionTwo]} ∧
      (twoFragmentJob versionTwo).Plays versionTwo ∧ (tamperedLink versionTwo).Honest versionTwo ∧
      ((twoFragmentJob versionTwo).serveRange (tamperedLink versionTwo).proxied 0 none
        (cacheAfter none [.serve (twoFragmentJob versionTwo) (proxyOnly versionTwo) 1 none])).1 =
          .ok ⟨0, 2, 2, [3, 4]⟩ ∧
      ((twoFragmentJob versionTwo).serveRange (tamperedLink versionTwo) 0 none
        (cacheAfter none [.serve (twoFragmentJob versionTwo) (proxyOnly versionTwo) 1 none])).1 =
          .error playerErr := by
  let _ := tableAead [versionOne, versionTwo]
  have hideal := twoVersions_ideal (List.mem_cons_of_mem _ List.mem_cons_self) rfl
  refine ⟨hideal, twoFragmentJob_plays (by decide) (by decide), tamperedLink_honest versionTwo, ?_, ?_⟩
  · decide +kernel
  · decide +kernel

end ClosedRuns

end MaxSecu
