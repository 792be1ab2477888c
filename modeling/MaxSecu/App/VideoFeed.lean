import MaxSecu.App.VideoPlans

/-!
# Feeding fragments through the cache

A fragment that the cache holds is decrypted from there, and any other is fetched and cached first.
Which fragments are fetched is settled before, and a fragment that was held then must still be held
when its turn comes: there is nothing to fall back on (`VideoJob.Stays`).

`VideoJob.feedSpan_plays` and `VideoJob.feedSpan_lost` say what becomes of a plan whose held fragments
are the sealed ones, and `VideoJob.genuine_feedSpan` what the cache holds after it.
-/

namespace MaxSecu

open ExceptRules

/-! ## What the cache holds -/

section Held

variable (job : VideoJob) (s : PlainStream)

def VideoJob.chunksOf (seq : ℕ) : List ℕ :=
  (job.index.chunksForFragment seq).elim [] fun place => List.range' place.1 place.2

/-- The chunks of a fragment that the cache holds, if they count as the fragment's. -/
def VideoJob.held (cache : MediaCache) (seq : ℕ) : Option (List (List UInt8)) :=
  (job.index.chunksForFragment seq).bind fun place =>
    cachedChunks (cache.bytesAt (job.key seq)) place.2

/-- Look a fragment up, which makes it the most recently used one. -/
def VideoJob.touch (cache : MediaCache) (seq : ℕ) : MediaCache := (cache.get (job.key seq)).2

def VideoJob.missing (cache : MediaCache) (span : List ℕ) : List ℕ :=
  span.flatMap fun seq => if (job.held cache seq).isSome then [] else job.chunksOf seq

variable [Sha256] [Aes256GcmSeal]

/-- The chunks of a fragment as they were sealed. -/
def VideoJob.genuine (seq : ℕ) : List (List UInt8) :=
  (job.index.chunksForFragment seq).elim [] fun place => s.piece place.1 place.2

/-- Read a fragment: look it up, and cache what was sealed if it is not among those that are held. -/
def VideoJob.feed (hit : ℕ → Bool) (cache : MediaCache) (seq : ℕ) : MediaCache :=
  if hit seq then job.touch cache seq
  else (job.touch cache seq).put (job.key seq) (frameChunks (job.genuine s seq))

/-- The fragments that are to be held are, each when its turn comes. -/
def VideoJob.Stays (hit : ℕ → Bool) : List ℕ → MediaCache → Prop
  | [], _ => True
  | seq :: span, cache =>
    (hit seq = true → (job.held cache seq).isSome = true) ∧
      VideoJob.Stays hit span (job.feed s hit cache seq)

/-- Under the keys of these fragments the cache holds nothing but what was sealed. -/
def VideoJob.Genuine (span : List ℕ) (cache : MediaCache) : Prop :=
  ∀ seq ∈ span, ∀ blob, cache.bytesAt (job.key seq) = some blob →
    blob = frameChunks (job.genuine s seq)

end Held

namespace VideoJob

section Held

variable {job : VideoJob} {s : PlainStream} {cache cache' : MediaCache} {seq other : ℕ}

lemma key_inj (h : job.key seq = job.key other) : seq = other :=
  (Prod.mk.inj (Prod.mk.inj h).2).2

lemma held_congr (h : cache.bytesAt (job.key seq) = cache'.bytesAt (job.key seq)) :
    job.held cache seq = job.held cache' seq := by
  unfold held
  rw [h]

@[simp] lemma held_touch : job.held (job.touch cache other) seq = job.held cache seq := by
  apply held_congr
  unfold touch
  exact BlobCache.bytesAt_get

lemma held_foldl_touch (span : List ℕ) :
    job.held (span.foldl job.touch cache) seq = job.held cache seq := by
  induction span generalizing cache with
  | nil => rfl
  | cons first span ih => rw [List.foldl_cons, ih, held_touch]

lemma held_of_put {bytes : List UInt8} {chunks : List (List UInt8)} (hne : seq ≠ other)
    (h : job.held (cache.put (job.key other) bytes) seq = some chunks) :
    job.held cache seq = some chunks := by
  unfold held at h ⊢
  obtain ⟨place, hplace, hchunks⟩ := Option.bind_eq_some_iff.mp h
  refine Option.bind_eq_some_iff.mpr ⟨place, hplace, ?_⟩
  cases hblob : (cache.put (job.key other) bytes).bytesAt (job.key seq) with
  | none =>
    rw [hblob] at hchunks
    cases hchunks
  | some blob =>
    rw [hblob] at hchunks
    rw [BlobCache.bytesAt_of_put (fun hkey => hne (key_inj hkey)) hblob]
    exact hchunks

lemma held_of_feed [Sha256] [Aes256GcmSeal] {hit : ℕ → Bool} {chunks : List (List UInt8)}
    (hne : seq ≠ other) (h : job.held (job.feed s hit cache other) seq = some chunks) :
    job.held cache seq = some chunks := by
  unfold feed at h
  by_cases hhit : hit other = true
  · rw [if_pos hhit, held_touch] at h
    exact h
  · rw [if_neg hhit] at h
    have hbefore := held_of_put hne h
    rwa [held_touch] at hbefore

lemma chunksForFragment_of_held {chunks : List (List UInt8)}
    (h : job.held cache seq = some chunks) :
    ∃ a l, job.index.chunksForFragment seq = some (a, l) ∧
      cachedChunks (cache.bytesAt (job.key seq)) l = some chunks ∧ chunks.length = l := by
  obtain ⟨⟨a, l⟩, hplace, hchunks⟩ := Option.bind_eq_some_iff.mp h
  exact ⟨a, l, hplace, hchunks, of_decide_eq_true (Option.filter_eq_some_iff.mp hchunks).2⟩

lemma held_eq {a l : ℕ} (hplace : job.index.chunksForFragment seq = some (a, l)) :
    job.held cache seq = cachedChunks (cache.bytesAt (job.key seq)) l := by
  unfold held
  rw [hplace]
  rfl

lemma deframeCount_eq_some {a l : ℕ} (hplace : job.index.chunksForFragment seq = some (a, l)) :
    (cache.bytesAt (job.key seq)).bind deframeCount = some l ↔
      (job.held cache seq).isSome = true := by
  rw [held_eq hplace]
  unfold cachedChunks
  cases cache.bytesAt (job.key seq) with
  | none => simp
  | some blob =>
    rw [Option.bind_some, Option.bind_some, deframeCount_eq]
    cases deframeChunks blob with
    | none => simp
    | some chunks => by_cases hlength : chunks.length = l <;> simp [Option.filter_some, hlength]

lemma planFetch_eq {span : List ℕ}
    (hspan : ∀ seq ∈ span, (job.index.chunksForFragment seq).isSome = true) :
    job.planFetch span cache = (.ok (job.missing cache span), span.foldl job.touch cache) := by
  induction span generalizing cache with
  | nil => rfl
  | cons seq span ih =>
    obtain ⟨⟨a, l⟩, hplace⟩ := Option.isSome_iff_exists.mp (hspan seq List.mem_cons_self)
    have hrest : job.planFetch span (job.touch cache seq) = _ := ih
      fun other hother => hspan other (List.mem_cons_of_mem _ hother)
    have hmissing : job.missing (job.touch cache seq) span = job.missing cache span := by
      unfold missing
      congr 1
      funext other
      rw [held_touch]
    have hvalid : (cache.bytesAt (job.key seq)).bind deframeCount = some l ↔ _ :=
      deframeCount_eq_some hplace
    have hchunks : job.chunksOf seq = List.range' a l := by
      unfold chunksOf
      rw [hplace]
      rfl
    unfold planFetch
    rw [hplace]
    dsimp only
    rw [show (cache.get (job.key seq)).2 = job.touch cache seq from rfl, hrest,
      BlobCache.get_fst, hmissing]
    dsimp only
    rw [List.foldl_cons]
    congr 2
    unfold missing
    rw [List.flatMap_cons, hchunks]
    by_cases hheld : (job.held cache seq).isSome = true
    · rw [if_pos (hvalid.mpr hheld), if_pos hheld, List.nil_append]
    · rw [if_neg fun hcount => hheld (hvalid.mp hcount), if_neg hheld]

lemma mem_missing {span : List ℕ} {i : ℕ} :
    i ∈ job.missing cache span ↔
      ∃ seq ∈ span, job.held cache seq = none ∧ i ∈ job.chunksOf seq := by
  unfold missing
  rw [List.mem_flatMap]
  constructor
  · rintro ⟨seq, hseq, hi⟩
    by_cases hheld : (job.held cache seq).isSome = true
    · rw [if_pos hheld] at hi
      cases hi
    · rw [if_neg hheld] at hi
      exact ⟨seq, hseq, Option.not_isSome_iff_eq_none.mp hheld, hi⟩
  · rintro ⟨seq, hseq, hheld, hi⟩
    refine ⟨seq, hseq, ?_⟩
    rw [hheld]
    exact hi

lemma chunksOf_disjoint {i : ℕ} (hi : i ∈ job.chunksOf seq) (hi' : i ∈ job.chunksOf other) :
    seq = other := by
  unfold chunksOf at hi hi'
  cases hplace : job.index.chunksForFragment seq with
  | none =>
    rw [hplace] at hi
    cases hi
  | some place =>
    cases hplace' : job.index.chunksForFragment other with
    | none =>
      rw [hplace'] at hi'
      cases hi'
    | some place' =>
      rw [hplace] at hi
      rw [hplace'] at hi'
      exact job.index.chunksForFragment_disjoint hplace hplace' hi hi'

lemma length_mapM_chunksOf {a l : ℕ} (hplace : job.index.chunksForFragment seq = some (a, l))
    {fetchChunk : ℕ → Except UiError (List UInt8)} {chunks : List (List UInt8)}
    (h : (job.chunksOf seq).mapM fetchChunk = .ok chunks) : chunks.length = l := by
  unfold chunksOf at h
  rw [hplace] at h
  rw [← (mapM_eq_ok.mp h).length_eq]
  exact List.length_range'

end Held

end VideoJob

/-! ## One fragment -/

section Feed

variable [Sha256] [Aes256Gcm] [Aes256GcmSeal]

/-- Of all that was encrypted under these keys, the content's chunks open, and at their places nothing
else does.  Encrypting adds a tag. -/
structure PlainStream.Ideal (s : PlainStream) (streams : Set PlainStream) : Prop where
  mem : s ∈ streams
  content : s.streamType = .content
  one : Set.InjOn PlainStream.context streams
  sealedOnly : SealedOnly streams s.ck
  opens : s.Opens
  tag : ∀ k n a p, (Aes256GcmSeal.encrypt k n a p).length = p.length + TAG_LEN

/-- The session has the keys of the content, and its fragments make up the content. -/
structure VideoJob.Reads (job : VideoJob) (s : PlainStream) : Prop where
  decryptor : job.decryptor = s.decryptor
  covers : job.index.chunkCount = s.frames.length

omit [Sha256] [Aes256Gcm] [Aes256GcmSeal] in
lemma VideoJob.Plays.reads {job : VideoJob} {s : PlainStream} (hplays : job.Plays s) :
    job.Reads s := ⟨hplays.decryptor, hplays.covers⟩

variable {streams : Set PlainStream} {s : PlainStream}

lemma PlainStream.Ideal.openRange (hideal : s.Ideal streams) {a : ℕ} {chunks : List (List UInt8)}
    (hle : a + chunks.length ≤ s.frames.length) :
    ((s.decryptor.openRange a chunks).mapError fun _ => videoErr) =
      if chunks = s.piece a chunks.length then
        .ok ((s.frames.drop a).take chunks.length).flatten
      else .error videoErr := by
  by_cases hsame : chunks = s.piece a chunks.length
  · rw [if_pos hsame]
    refine mapError_eq_ok.mpr ?_
    have hopen := hideal.opens.openRange hideal.content hle
    rwa [← hsame] at hopen
  · rw [if_neg hsame]
    cases hopen : s.decryptor.openRange a chunks with
    | ok pt =>
      exact absurd (hideal.sealedOnly.openRange hideal.one hideal.mem hideal.content hopen).1 hsame
    | error e => rfl

namespace VideoJob

variable {job : VideoJob} {cache cache' : MediaCache} {seq a l : ℕ}
  {fetchChunk : ℕ → Except UiError (List UInt8)} {chunks : List (List UInt8)}

lemma open_fragment (hideal : s.Ideal streams) (hreads : job.Reads s)
    (hplace : job.index.chunksForFragment seq = some (a, l)) (hlength : chunks.length = l) :
    ((job.decryptor.openRange a chunks).mapError fun _ => videoErr) =
      if chunks = job.genuine s seq then .ok (job.plain s seq) else .error videoErr := by
  have hle := (job.index.chunksForFragment_bound hplace).2
  rw [hreads.covers, ← hlength] at hle
  unfold genuine plain
  rw [hreads.decryptor, hideal.openRange hle, hplace, hlength]
  rfl

omit [Sha256] [Aes256Gcm] [Aes256GcmSeal] in
lemma not_beyond (hreads : job.Reads s)
    (hplace : job.index.chunksForFragment seq = some (a, l)) :
    ¬ job.decryptor.contentChunkCount.toNat < a + l := by
  have hle := (job.index.chunksForFragment_bound hplace).2
  have hcount : s.decryptor.contentChunkCount.toNat = s.frames.length := s.toNat_count
  rw [hreads.decryptor, hcount, ← hreads.covers]
  exact not_lt.mpr hle

lemma feedFragment_held (hideal : s.Ideal streams) (hreads : job.Reads s)
    (hheld : job.held cache seq = some chunks) :
    job.feedFragment fetchChunk seq cache =
      (if chunks = job.genuine s seq then .ok (job.plain s seq) else .error videoErr,
        job.touch cache seq) := by
  obtain ⟨a, l, hplace, hcached, hlength⟩ := chunksForFragment_of_held hheld
  have hopen := open_fragment hideal hreads hplace hlength
  unfold feedFragment
  rw [hplace]
  dsimp only
  rw [if_neg (not_beyond hreads hplace), BlobCache.get_fst, hcached]
  dsimp only
  rw [hopen]
  rfl

lemma feedFragment_fetched (hideal : s.Ideal streams) (hreads : job.Reads s)
    (hplace : job.index.chunksForFragment seq = some (a, l)) (hheld : job.held cache seq = none)
    (hfetch : (job.chunksOf seq).mapM fetchChunk = .ok chunks) :
    job.feedFragment fetchChunk seq cache =
      (if chunks = job.genuine s seq then .ok (job.plain s seq) else .error videoErr,
        (job.touch cache seq).put (job.key seq) (frameChunks chunks)) := by
  have hopen := open_fragment hideal hreads hplace (length_mapM_chunksOf hplace hfetch)
  rw [held_eq hplace] at hheld
  unfold chunksOf at hfetch
  rw [hplace, Option.elim_some] at hfetch
  unfold feedFragment
  rw [hplace]
  dsimp only at hfetch ⊢
  rw [if_neg (not_beyond hreads hplace), BlobCache.get_fst, hheld]
  dsimp only
  rw [hfetch]
  dsimp only
  rw [hopen]
  rfl

omit [Sha256] [Aes256GcmSeal] in
lemma feedFragment_lost (hreads : job.Reads s)
    (hplace : job.index.chunksForFragment seq = some (a, l)) (hheld : job.held cache seq = none)
    {e : UiError} (hfetch : (job.chunksOf seq).mapM fetchChunk = .error e) :
    job.feedFragment fetchChunk seq cache = (.error e, job.touch cache seq) := by
  rw [held_eq hplace] at hheld
  unfold chunksOf at hfetch
  rw [hplace, Option.elim_some] at hfetch
  unfold feedFragment
  rw [hplace]
  dsimp only at hfetch ⊢
  rw [if_neg (not_beyond hreads hplace), BlobCache.get_fst, hheld]
  dsimp only
  rw [hfetch]
  rfl

/-! ## A span -/

section Span

variable {hit : ℕ → Bool} {span : List ℕ}

lemma feedFragment_plays (hideal : s.Ideal streams) (hreads : job.Reads s)
    (hplace : (job.index.chunksForFragment seq).isSome = true)
    (hheld : ∀ chunks, job.held cache seq = some chunks →
      hit seq = true ∧ chunks = job.genuine s seq)
    (hfetch : hit seq = false → (job.chunksOf seq).mapM fetchChunk = .ok (job.genuine s seq))
    (hstays : hit seq = true → (job.held cache seq).isSome = true) :
    job.feedFragment fetchChunk seq cache = (.ok (job.plain s seq), job.feed s hit cache seq) := by
  obtain ⟨⟨a, l⟩, hplace⟩ := Option.isSome_iff_exists.mp hplace
  unfold feed
  by_cases hhit : hit seq = true
  · obtain ⟨chunks, hchunks⟩ := Option.isSome_iff_exists.mp (hstays hhit)
    rw [feedFragment_held hideal hreads hchunks, if_pos (hheld chunks hchunks).2, if_pos hhit]
  · have hnone : job.held cache seq = none := by
      rw [Option.eq_none_iff_forall_ne_some]
      intro chunks hchunks
      exact hhit (hheld chunks hchunks).1
    have hfetched := hfetch (eq_false_of_ne_true hhit)
    rw [feedFragment_fetched hideal hreads hplace hnone hfetched, if_pos rfl, if_neg hhit]

/-- A span plays if every fragment to be held is, each when its turn comes, as it was sealed, and
every other is fetched as it was sealed. -/
lemma feedSpan_plays (hideal : s.Ideal streams) (hreads : job.Reads s) (hnodup : span.Nodup)
    (hplaces : ∀ seq ∈ span, (job.index.chunksForFragment seq).isSome = true)
    (hheld : ∀ seq ∈ span, ∀ chunks, job.held cache seq = some chunks →
      hit seq = true ∧ chunks = job.genuine s seq)
    (hfetch : ∀ seq ∈ span, hit seq = false →
      (job.chunksOf seq).mapM fetchChunk = .ok (job.genuine s seq))
    (hstays : job.Stays s hit span cache) :
    job.feedSpan fetchChunk span cache =
      (.ok (span.flatMap (job.plain s)), span.foldl (job.feed s hit) cache) := by
  induction span generalizing cache with
  | nil => rfl
  | cons seq span ih =>
    obtain ⟨hnew, hnodup⟩ := List.nodup_cons.mp hnodup
    obtain ⟨hnow, hlater⟩ := hstays
    have hfeed := feedFragment_plays hideal hreads (hplaces seq List.mem_cons_self)
      (hheld seq List.mem_cons_self) (hfetch seq List.mem_cons_self) hnow
    have hrest := ih hnodup (fun other hother => hplaces other (List.mem_cons_of_mem _ hother))
      (fun other hother chunks hchunks => hheld other (List.mem_cons_of_mem _ hother) chunks
        (held_of_feed (fun heq : other = seq => hnew (heq ▸ hother)) hchunks))
      (fun other hother => hfetch other (List.mem_cons_of_mem _ hother)) hlater
    unfold feedSpan
    rw [hfeed]
    dsimp only
    rw [hrest]
    rfl

/-- A fragment that plays is as it was sealed, whether it was held or fetched.  What was to be held
cannot be fetched. -/
lemma feedFragment_ok_only (hideal : s.Ideal streams) (hreads : job.Reads s)
    {first : Option (List (List UInt8))} (hhit : hit seq = first.isSome)
    (hheld : ∀ chunks, job.held cache seq = some chunks → first = some chunks)
    (hlost : hit seq = true → (job.chunksOf seq).mapM fetchChunk = .error playerErr)
    {pt : List UInt8} (h : job.feedFragment fetchChunk seq cache = (.ok pt, cache')) :
    (∀ chunks, first = some chunks → chunks = job.genuine s seq) ∧
      (hit seq = false → (job.chunksOf seq).mapM fetchChunk = .ok (job.genuine s seq)) ∧
      (hit seq = true → (job.held cache seq).isSome = true) ∧ cache' = job.feed s hit cache seq := by
  obtain ⟨a, l, hplace, -⟩ := feedFragment_ok hideal.sealedOnly hideal.one hideal.mem
    hideal.content hreads.decryptor h
  have hsame : ∀ {chunks : List (List UInt8)} {cache₁ : MediaCache},
      ((if chunks = job.genuine s seq then .ok (job.plain s seq) else .error videoErr, cache₁) :
        Except UiError (List UInt8) × MediaCache) = (.ok pt, cache') →
      chunks = job.genuine s seq ∧ cache₁ = cache' := by
    intro chunks cache₁ heq
    obtain ⟨hresult, hcache⟩ := Prod.mk.inj heq
    by_cases hsame : chunks = job.genuine s seq
    · exact ⟨hsame, hcache⟩
    · rw [if_neg hsame] at hresult
      cases hresult
  unfold feed
  cases hnow : job.held cache seq with
  | some chunks =>
    have hfirst := hheld chunks hnow
    have htrue : hit seq = true := by
      rw [hhit, hfirst]
      rfl
    rw [feedFragment_held hideal hreads hnow] at h
    obtain ⟨hgenuine, rfl⟩ := hsame h
    rw [if_pos htrue]
    refine ⟨?_, ?_, fun _ => rfl, rfl⟩
    · intro chunks' hchunks'
      rw [← Option.some.inj (hfirst.symm.trans hchunks'), hgenuine]
    · intro hfalse
      rw [htrue] at hfalse
      cases hfalse
  | none =>
    cases hfetch : (job.chunksOf seq).mapM fetchChunk with
    | error e =>
      rw [feedFragment_lost hreads hplace hnow hfetch] at h
      cases (Prod.mk.inj h).1
    | ok chunks =>
      have hfalse : ¬ hit seq = true := by
        intro htrue
        rw [hlost htrue] at hfetch
        cases hfetch
      rw [feedFragment_fetched hideal hreads hplace hnow hfetch] at h
      obtain ⟨hgenuine, rfl⟩ := hsame h
      rw [if_neg hfalse, ← hgenuine]
      refine ⟨?_, fun _ => rfl, fun htrue => absurd htrue hfalse, rfl⟩
      intro chunks' hchunks'
      rw [hhit, hchunks'] at hfalse
      exact absurd rfl hfalse

lemma feedSpan_ok_only (hideal : s.Ideal streams) (hreads : job.Reads s) (hnodup : span.Nodup)
    {first : ℕ → Option (List (List UInt8))} (hhit : ∀ seq, hit seq = (first seq).isSome)
    (hheld : ∀ seq ∈ span, ∀ chunks, job.held cache seq = some chunks → first seq = some chunks)
    (hlost : ∀ seq ∈ span, hit seq = true →
      (job.chunksOf seq).mapM fetchChunk = .error playerErr)
    {out : List UInt8} (h : (job.feedSpan fetchChunk span cache).1 = .ok out) :
    (∀ seq ∈ span, ∀ chunks, first seq = some chunks → chunks = job.genuine s seq) ∧
      (∀ seq ∈ span, hit seq = false →
        (job.chunksOf seq).mapM fetchChunk = .ok (job.genuine s seq)) ∧
      job.Stays s hit span cache := by
  induction span generalizing cache out with
  | nil => exact ⟨by simp, by simp, trivial⟩
  | cons seq span ih =>
    obtain ⟨hnew, hnodup⟩ := List.nodup_cons.mp hnodup
    unfold feedSpan at h
    cases hfeed : job.feedFragment fetchChunk seq cache with
    | mk result cache₁ =>
      rw [hfeed] at h
      cases result with
      | error e => cases h
      | ok pt =>
        obtain ⟨hfirst, hfetched, hstay, rfl⟩ := feedFragment_ok_only hideal hreads (hhit seq)
          (hheld seq List.mem_cons_self) (hlost seq List.mem_cons_self) hfeed
        dsimp only at h
        cases hrest : job.feedSpan fetchChunk span (job.feed s hit cache seq) with
        | mk result cache₂ =>
          rw [hrest] at h
          cases result with
          | error e => cases h
          | ok rest =>
            obtain ⟨hfirsts, hfetcheds, hstays⟩ := ih hnodup
              (fun other hother chunks hchunks => hheld other (List.mem_cons_of_mem _ hother) chunks
                (held_of_feed (fun heq : other = seq => hnew (heq ▸ hother)) hchunks))
              (fun other hother => hlost other (List.mem_cons_of_mem _ hother))
              (congrArg Prod.fst hrest)
            exact ⟨List.forall_mem_cons.mpr ⟨hfirst, hfirsts⟩,
              List.forall_mem_cons.mpr ⟨hfetched, hfetcheds⟩, hstay, hstays⟩

lemma feedSpan_lost (hideal : s.Ideal streams) (hreads : job.Reads s) (hnodup : span.Nodup)
    (hplaces : ∀ seq ∈ span, (job.index.chunksForFragment seq).isSome = true)
    (hheld : ∀ seq ∈ span, ∀ chunks, job.held cache seq = some chunks →
      hit seq = true ∧ chunks = job.genuine s seq)
    (hfetch : ∀ seq ∈ span, hit seq = false →
      (job.chunksOf seq).mapM fetchChunk = .ok (job.genuine s seq))
    (hlost : ∀ seq ∈ span, hit seq = true →
      (job.chunksOf seq).mapM fetchChunk = .error playerErr)
    (hstays : ¬ job.Stays s hit span cache) :
    (job.feedSpan fetchChunk span cache).1 = .error playerErr := by
  induction span generalizing cache with
  | nil => exact absurd trivial hstays
  | cons seq span ih =>
    obtain ⟨hnew, hnodup⟩ := List.nodup_cons.mp hnodup
    obtain ⟨⟨a, l⟩, hplace⟩ := Option.isSome_iff_exists.mp (hplaces seq List.mem_cons_self)
    by_cases hnow : hit seq = true → (job.held cache seq).isSome = true
    · have hlater : ¬ job.Stays s hit span (job.feed s hit cache seq) := fun hlater =>
        hstays ⟨hnow, hlater⟩
      have hfeed := feedFragment_plays hideal hreads (hplaces seq List.mem_cons_self)
        (hheld seq List.mem_cons_self) (hfetch seq List.mem_cons_self) hnow
      have hrest := ih hnodup (fun other hother => hplaces other (List.mem_cons_of_mem _ hother))
        (fun other hother chunks hchunks => hheld other (List.mem_cons_of_mem _ hother) chunks
          (held_of_feed (fun heq : other = seq => hnew (heq ▸ hother)) hchunks))
        (fun other hother => hfetch other (List.mem_cons_of_mem _ hother))
        (fun other hother => hlost other (List.mem_cons_of_mem _ hother)) hlater
      unfold feedSpan
      rw [hfeed]
      dsimp only
      cases hlast : job.feedSpan fetchChunk span (job.feed s hit cache seq) with
      | mk result cache₁ =>
        rw [hlast] at hrest
        obtain rfl : result = .error playerErr := hrest
        rfl
    · obtain ⟨htrue, hgone⟩ := Classical.not_imp.mp hnow
      have hgone := Option.not_isSome_iff_eq_none.mp hgone
      unfold feedSpan
      rw [feedFragment_lost hreads hplace hgone (hlost seq List.mem_cons_self htrue)]

lemma genuine_feedFragment {all : List ℕ} (hgenuine : job.Genuine s all cache)
    (hfetch : ∀ chunks, (job.chunksOf seq).mapM fetchChunk = .ok chunks →
      chunks = job.genuine s seq) :
    job.Genuine s all (job.feedFragment fetchChunk seq cache).2 := by
  have htouch : job.Genuine s all (cache.get (job.key seq)).2 := by
    intro other hother blob hblob
    rw [BlobCache.bytesAt_get] at hblob
    exact hgenuine other hother blob hblob
  unfold chunksOf at hfetch
  unfold feedFragment
  cases hplace : job.index.chunksForFragment seq with
  | none => exact hgenuine
  | some place =>
    obtain ⟨a, l⟩ := place
    rw [hplace, Option.elim_some] at hfetch
    dsimp only at hfetch ⊢
    by_cases hbeyond : job.decryptor.contentChunkCount.toNat < a + l
    · rw [if_pos hbeyond]
      exact hgenuine
    · rw [if_neg hbeyond]
      cases cachedChunks (cache.get (job.key seq)).1 l with
      | some chunks => exact htouch
      | none =>
        dsimp only
        cases hfetched : (List.range' a l).mapM fetchChunk with
        | error e => exact htouch
        | ok chunks =>
          intro other hother blob hblob
          dsimp only at hblob
          by_cases hsame : other = seq
          · subst hsame
            rw [← hfetch chunks hfetched]
            exact BlobCache.bytesAt_put_self hblob
          · exact htouch other hother blob
              (BlobCache.bytesAt_of_put (fun hkey => hsame (key_inj hkey)) hblob)

lemma genuine_feedSpan {all : List ℕ} (hgenuine : job.Genuine s all cache)
    (hfetch : ∀ seq ∈ span, ∀ chunks, (job.chunksOf seq).mapM fetchChunk = .ok chunks →
      chunks = job.genuine s seq) :
    job.Genuine s all (job.feedSpan fetchChunk span cache).2 := by
  induction span generalizing cache with
  | nil => exact hgenuine
  | cons seq span ih =>
    have hone := genuine_feedFragment hgenuine (hfetch seq List.mem_cons_self)
    unfold feedSpan
    cases hfeed : job.feedFragment fetchChunk seq cache with
    | mk result cache₁ =>
      rw [hfeed] at hone
      cases result with
      | error e => exact hone
      | ok pt =>
        have hrest := ih hone fun other hother => hfetch other (List.mem_cons_of_mem _ hother)
        dsimp only at hrest ⊢
        cases hlast : job.feedSpan fetchChunk span cache₁ with
        | mk result cache₂ =>
          rw [hlast] at hrest
          cases result <;> exact hrest

end Span

end VideoJob

end Feed

/-! ## A cipher that opens what is listed -/

section Table

variable [Aes256GcmSeal] {streams : List PlainStream} {s : PlainStream}

def PlainStream.sealCalls (s : PlainStream) : List SealCall := s.frames.mapIdx s.sealCall

/-- Opening looks the encryption up among those of the streams. -/
abbrev tableAead (streams : List PlainStream) : Aes256Gcm where
  decrypt k n a ct := ((streams.flatMap PlainStream.sealCalls).find? fun call =>
    call.key = k ∧ call.nonce = n ∧ call.aad = a ∧
      Aes256GcmSeal.encrypt call.key call.nonce call.aad call.msg = ct).map SealCall.msg

omit [Aes256GcmSeal] in
lemma PlainStream.mem_sealCalls {call : SealCall} :
    call ∈ s.sealCalls ↔ ∃ i frame, s.frames[i]? = some frame ∧ s.sealCall i frame = call := by
  unfold sealCalls
  rw [List.mem_iff_getElem?]
  constructor
  · rintro ⟨i, hi⟩
    rw [List.getElem?_mapIdx, Option.map_eq_some_iff] at hi
    obtain ⟨frame, hframe, rfl⟩ := hi
    exact ⟨i, frame, hframe, rfl⟩
  · rintro ⟨i, frame, hframe, rfl⟩
    exact ⟨i, by rw [List.getElem?_mapIdx, hframe]; rfl⟩

lemma tableAead_sealedOnly (ck : Bytes 32) :
    letI := tableAead streams
    SealedOnly {t | t ∈ streams} ck := by
  let _ := tableAead streams
  intro nonce aad ct pt hopen
  obtain ⟨call, hfind, rfl⟩ := Option.map_eq_some_iff.mp hopen
  obtain ⟨t, ht, hcall⟩ := List.mem_flatMap.mp (List.mem_of_find?_eq_some hfind)
  obtain ⟨i, frame, hframe, rfl⟩ := PlainStream.mem_sealCalls.mp hcall
  have hmatch := List.find?_some hfind
  obtain ⟨rfl, rfl, rfl, rfl⟩ := of_decide_eq_true hmatch
  exact ⟨t, ht, i, frame, hframe, rfl, rfl⟩

lemma tableAead_opens (hinj : ∀ k n a p p', Aes256GcmSeal.encrypt k n a p =
      Aes256GcmSeal.encrypt k n a p' → p = p') (hs : s ∈ streams) :
    letI := tableAead streams
    s.Opens := by
  let _ := tableAead streams
  intro i frame hframe
  have hmem : s.sealCall i frame ∈ streams.flatMap PlainStream.sealCalls :=
    List.mem_flatMap.mpr ⟨s, hs, PlainStream.mem_sealCalls.mpr ⟨i, frame, hframe, rfl⟩⟩
  show ((streams.flatMap PlainStream.sealCalls).find? _).map SealCall.msg = some frame
  cases hfind : (streams.flatMap PlainStream.sealCalls).find? fun call =>
      call.key = s.ck ∧ call.nonce = nonceFor (s.chunkAad i).chunkIndex ∧
        call.aad = encode (s.chunkAad i) ∧
        Aes256GcmSeal.encrypt call.key call.nonce call.aad call.msg =
          (s.sealCall i frame).ciphertext with
  | none =>
    have hnone := List.find?_eq_none.mp hfind _ hmem
    exact absurd (decide_eq_true ⟨rfl, rfl, rfl, rfl⟩) hnone
  | some call =>
    have hmatch := List.find?_some hfind
    obtain ⟨hkey, hnonce, haad, hcipher⟩ := of_decide_eq_true hmatch
    rw [hkey, hnonce, haad] at hcipher
    exact congrArg some (hinj _ _ _ _ _ hcipher)

lemma tableAead_ideal [Sha256] (hinj : ∀ k n a p p', Aes256GcmSeal.encrypt k n a p =
      Aes256GcmSeal.encrypt k n a p' → p = p')
    (htag : ∀ k n a p, (Aes256GcmSeal.encrypt k n a p).length = p.length + TAG_LEN)
    (hone : Set.InjOn PlainStream.context {t | t ∈ streams}) (hs : s ∈ streams)
    (hcontent : s.streamType = .content) :
    letI := tableAead streams
    s.Ideal {t | t ∈ streams} := by
  let _ := tableAead streams
  exact ⟨hs, hcontent, hone, tableAead_sealedOnly _, tableAead_opens hinj hs, htag⟩

end Table

end MaxSecu
