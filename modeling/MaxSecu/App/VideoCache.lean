import MaxSecu.App.VideoServe

/-!
# What the cache does to a video

All videos, and all versions of a video, share one cache, and a fragment is cached before it is
decrypted.  `serveRange_transparent_iff` says when a range is served as if the cache were empty: when
what is held for the range is what was sealed, and storing the rest of the range does not drop it.
-/

namespace MaxSecu

open ExceptRules

section Uses

variable [Aes256Gcm]

/-- What becomes of the cache between two requests: requests of any sessions, payloads that are no
fragments, another cap, deleted posts, and a cleared cache. -/
inductive CacheUse
  | serve (job : VideoJob) (routes : ChunkRoutes) (first : ℕ) (lastInclusive : Option ℕ)
  | store (ns : Ns) (id : Id) (sub : ℕ) (bytes : List UInt8) (notFrag : ns ≠ .frag)
  | look (key : Ns × Id × ℕ)
  | setCap (cap : ℕ)
  | evictPrefix (ns : Ns) (id : Id)
  | clear

def CacheUse.apply (cache : MediaCache) : CacheUse → MediaCache
  | .serve job routes first lastInclusive => (job.serveRange routes first lastInclusive cache).2
  | .store ns id sub bytes _ => cache.put (ns, id, sub) bytes
  | .look key => (cache.get key).2
  | .setCap cap => cache.setCap cap
  | .evictPrefix ns id => cache.evictWhere fun key => key.1 = ns ∧ key.2.1 = id
  | .clear => cache.clear

/-- The cache after a history that began with an empty one. -/
def cacheAfter (cap : Option ℕ) (history : List CacheUse) : MediaCache :=
  history.foldl CacheUse.apply (.empty cap)

end Uses

section Transparent

variable [Sha256] [Aes256Gcm] [Aes256GcmSeal] {streams : Set PlainStream} {s : PlainStream}
  {job : VideoJob} {routes : ChunkRoutes}

/-- **When the cache is transparent.**  With an empty cache an honest server's video is served as the
content.  After any history of the cache it is served so if and only if the cache holds nothing but
this version's chunks for the range, and drops none of them while the rest is stored. -/
theorem serveRange_transparent_iff (hideal : s.Ideal streams) (hplays : job.Plays s)
    (hhonest : routes.Honest s)
    (hlinks : ∀ i < s.frames.length, ∀ b, routes.direct i = some b → b = s.chunk i)
    (cap cap' : Option ℕ) (history : List CacheUse) (first : ℕ) (lastInclusive : Option ℕ) :
    (resolveRange first lastInclusive s.plaintext.length MAX_RANGE_BODY = none →
      (job.serveRange routes first lastInclusive (cacheAfter cap history)).1 =
        (job.serveRange routes first lastInclusive (.empty cap')).1) ∧
    ∀ req, resolveRange first lastInclusive s.plaintext.length MAX_RANGE_BODY = some req →
      ∃ plan, job.planned first lastInclusive = .ok (req, plan) ∧
        (job.serveRange routes first lastInclusive (.empty cap')).1 =
          .ok ⟨req.start, req.len, s.plaintext.length,
            (s.plaintext.drop req.start).take req.len⟩ ∧
        ((job.serveRange routes first lastInclusive (cacheAfter cap history)).1 =
            (job.serveRange routes first lastInclusive (.empty cap')).1 ↔
          job.Agrees s plan.span (cacheAfter cap history)) := by
  rw [← hplays.totalLen]
  constructor
  · intro hnone
    have hplanned : job.planned first lastInclusive = .error ⟨"range_not_satisfiable", "range"⟩ := by
      unfold VideoJob.planned
      rw [hnone]
      rfl
    unfold VideoJob.serveRange
    rw [hplanned]
  · intro req hreq
    obtain ⟨plan, a, l, b, m, hplanned, ha, hb, horder, hbase, hlow, hhigh⟩ := hplays.planned hreq
    obtain ⟨-, -, hend⟩ := hplays.resolved hreq
    have hslice := VideoJob.slice_span hend ha hb horder hbase hlow hhigh
    have hplaces := fun seq (hseq : seq ∈ plan.span) =>
      VideoJob.isSome_of_mem_span hb hseq
    have hanswers : ∀ cache : MediaCache, ∀ i ∈ job.missing cache plan.span,
        (routes.answer s i).bytes = s.chunk i := by
      intro cache i hi
      obtain ⟨seq, -, -, hmem⟩ := VideoJob.mem_missing.mp hi
      unfold ChunkRoutes.answer
      cases hdirect : routes.direct i with
      | none => rfl
      | some body => exact hlinks i (hplays.reads.mem_chunksOf hmem) body hdirect
    have hiff : ∀ cache : MediaCache,
        (job.serveRange routes first lastInclusive cache).1 =
          .ok ⟨req.start, req.len, job.totalLen, (s.plaintext.drop req.start).take req.len⟩ ↔
        job.Agrees s plan.span cache := by
      intro cache
      rw [VideoJob.serveRange_eq hplays.reads hhonest hplanned hplaces,
        ← VideoJob.twice_ok_iff hideal hplays.reads hplaces hhonest hslice (hanswers cache)]
      cases (job.assembleTwice routes plan req ((job.missing cache plan.span).map (routes.answer s))
        (plan.span.foldl job.touch cache)).1 with
      | error e => simp [Except.map]
      | ok body => simp [Except.map]
    have hempty := (hiff (.empty cap')).mpr (VideoJob.agrees_empty cap')
    refine ⟨plan, hplanned, hempty, ?_⟩
    rw [hempty]
    exact hiff _

end Transparent

/-! ## A video and the version before it -/

section ClosedRuns

open ClosedRuns

def versionOne : PlainStream := versionOf 1 [1, 2] (by decide)

def versionTwo : PlainStream := versionOf 2 [3, 4] (by decide)

lemma injOn_twoVersions :
    Set.InjOn PlainStream.context {t | t ∈ [versionOne, versionTwo]} := by
  have hversions : versionOne.context ≠ versionTwo.context := by decide
  intro s hs t ht heq
  rcases List.mem_pair.mp hs with rfl | rfl <;> rcases List.mem_pair.mp ht with rfl | rfl
  · rfl
  · exact absurd heq hversions
  · exact absurd heq.symm hversions
  · rfl

lemma tagAppending_inj (k : Bytes 32) (n : Bytes 12) (a p p' : List UInt8)
    (h : Aes256GcmSeal.encrypt k n a p = Aes256GcmSeal.encrypt k n a p') : p = p' :=
  List.append_cancel_right h

lemma twoVersions_ideal {s : PlainStream} (hs : s ∈ [versionOne, versionTwo])
    (hcontent : s.streamType = .content) :
    letI := tableAead [versionOne, versionTwo]
    s.Ideal {t | t ∈ [versionOne, versionTwo]} :=
  tableAead_ideal tagAppending_inj aeadOpens.length injOn_twoVersions hs hcontent

/-- A video was played from its second fragment on, and is played from its beginning. -/
theorem serveRange_transparent_resumed :
    letI := tableAead [versionOne, versionTwo]
    ∃ plan, (twoFragmentJob versionTwo).planned 0 none = .ok (⟨0, 2⟩, plan) ∧
      ((twoFragmentJob versionTwo).serveRange (proxyOnly versionTwo) 0 none (.empty none)).1 =
        .ok ⟨0, 2, 2, [3, 4]⟩ ∧
      (((twoFragmentJob versionTwo).serveRange (proxyOnly versionTwo) 0 none (cacheAfter none
          [.serve (twoFragmentJob versionTwo) (proxyOnly versionTwo) 1 none])).1 =
        ((twoFragmentJob versionTwo).serveRange (proxyOnly versionTwo) 0 none (.empty none)).1 ↔
        (twoFragmentJob versionTwo).Agrees versionTwo plan.span (cacheAfter none
          [.serve (twoFragmentJob versionTwo) (proxyOnly versionTwo) 1 none])) := by
  let _ := tableAead [versionOne, versionTwo]
  have hideal := twoVersions_ideal (List.mem_cons_of_mem _ List.mem_cons_self) rfl
  exact (serveRange_transparent_iff hideal (twoFragmentJob_plays (by decide) (by decide))
    (proxyOnly_honest versionTwo) (fun _ _ _ h => by cases h) none none _ 0 none).2 ⟨0, 2⟩ rfl

/-- The first version was played, and is rotated: the second one is not served from the cache it left
behind.  And in a cache with room for one fragment, the first fragment of a video takes the place of
the second one, which is then neither held nor fetched. -/
theorem serveRange_notTransparent :
    letI := tableAead [versionOne, versionTwo]
    versionTwo.Ideal {t | t ∈ [versionOne, versionTwo]} ∧
      (twoFragmentJob versionTwo).Plays versionTwo ∧ (proxyOnly versionTwo).Honest versionTwo ∧
      ((twoFragmentJob versionTwo).serveRange (proxyOnly versionTwo) 0 none (.empty none)).1 =
        .ok ⟨0, 2, 2, [3, 4]⟩ ∧
      ((twoFragmentJob versionTwo).serveRange (proxyOnly versionTwo) 0 none (cacheAfter none
        [.serve (twoFragmentJob versionOne) (proxyOnly versionOne) 0 none])).1 =
          .error videoErr ∧
      ((twoFragmentJob versionTwo).serveRange (proxyOnly versionTwo) 0 none (cacheAfter (some 25)
        [.serve (twoFragmentJob versionTwo) (proxyOnly versionTwo) 1 none])).1 =
          .error playerErr := by
  let _ := tableAead [versionOne, versionTwo]
  have hideal := twoVersions_ideal (List.mem_cons_of_mem _ List.mem_cons_self) rfl
  refine ⟨hideal, twoFragmentJob_plays (by decide) (by decide), proxyOnly_honest versionTwo, ?_, ?_, ?_⟩
  · decide +kernel
  · decide +kernel
  · decide +kernel

end ClosedRuns

end MaxSecu
