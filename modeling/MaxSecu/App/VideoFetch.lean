import MaxSecu.App.VideoFeed

/-!
# Fetching the chunks of a range

An honest server answers every request for a chunk with the chunk that was sealed, and a direct link
answers with anything.  What a plan does not find in the cache is fetched once; a fragment that the
plan took to be held is not among what was fetched.
-/

namespace MaxSecu

open ExceptRules

section Fetch

variable [Sha256] [Aes256GcmSeal]

/-- The chunk of the content that was sealed for this place. -/
def PlainStream.chunk (s : PlainStream) (i : ℕ) : List UInt8 := s.sealed.chunks.getD i []

/-- The server answers with what was sealed, however often it is asked. -/
structure ChunkRoutes.Honest (routes : ChunkRoutes) (s : PlainStream) : Prop where
  proxy : ∀ i < s.frames.length, routes.proxy i = .ok (s.chunk i)
  proxyAgain : ∀ i < s.frames.length, routes.proxyAgain i = .ok (s.chunk i)

/-- What an honest server and a direct link bring for a chunk. -/
def ChunkRoutes.answer (routes : ChunkRoutes) (s : PlainStream) (i : ℕ) : Fetched :=
  ⟨i, (routes.direct i).getD (s.chunk i), (routes.direct i).isSome⟩

/-- What is there after the answers of direct links were replaced. -/
def ChunkRoutes.corrected (routes : ChunkRoutes) (s : PlainStream) (i : ℕ) : Fetched :=
  ⟨i, s.chunk i, (routes.direct i).isSome⟩

variable {routes : ChunkRoutes} {s : PlainStream} {indices : List ℕ}

namespace ChunkRoutes

lemma Honest.prefetch (hhonest : routes.Honest s) (h : ∀ i ∈ indices, i < s.frames.length) :
    routes.prefetch indices = .ok (indices.map (routes.answer s)) := by
  refine mapM_eq_ok.mpr (List.forall₂_map_right_iff.mpr (List.forall₂_same.mpr ?_))
  intro i hi
  unfold fetchChunkRouted answer
  cases hdirect : routes.direct i with
  | some body => rfl
  | none =>
    rw [hhonest.proxy i (h i hi)]
    rfl

lemma Honest.refetch (hhonest : routes.Honest s) (h : ∀ i ∈ indices, i < s.frames.length) :
    routes.refetch (indices.map (routes.answer s)) = .ok (indices.map (routes.corrected s)) := by
  refine mapM_eq_ok.mpr (List.forall₂_map_left_iff.mpr (List.forall₂_map_right_iff.mpr
    (List.forall₂_same.mpr ?_)))
  intro i hi
  unfold answer corrected
  cases hdirect : routes.direct i with
  | some body =>
    dsimp only
    rw [Option.isSome_some, if_pos rfl, hhonest.proxyAgain i (h i hi)]
    rfl
  | none => rfl

end ChunkRoutes

omit [Sha256] [Aes256GcmSeal] in
lemma fetchedChunk_map {f : ℕ → Fetched} (hf : ∀ i, (f i).index = i) (i : ℕ) :
    fetchedChunk (indices.map f) i =
      if i ∈ indices then .ok (f i).bytes else .error playerErr := by
  unfold fetchedChunk
  induction indices with
  | nil => rfl
  | cons j indices ih =>
    rw [List.map_cons]
    by_cases hsame : j = i
    · subst hsame
      have hfound : decide ((f j).index = j) = true := decide_eq_true (hf j)
      rw [List.find?_cons, hfound, if_pos List.mem_cons_self]
      rfl
    · rw [List.find?_cons_of_neg (by rw [hf j]; simpa using hsame), ih]
      have hmem : i ∈ j :: indices ↔ i ∈ indices := by
        rw [List.mem_cons]
        exact or_iff_right fun heq => hsame heq.symm
      by_cases hi : i ∈ indices
      · rw [if_pos hi, if_pos (hmem.mpr hi)]
      · rw [if_neg hi, if_neg fun h => hi (hmem.mp h)]

namespace VideoJob

variable {job : VideoJob} {cache : MediaCache} {span : List ℕ} {seq : ℕ} {f : ℕ → Fetched}

omit [Sha256] [Aes256GcmSeal] in
lemma Reads.mem_chunksOf (hreads : job.Reads s) {i : ℕ} (hi : i ∈ job.chunksOf seq) :
    i < s.frames.length := by
  unfold chunksOf at hi
  cases hplace : job.index.chunksForFragment seq with
  | none =>
    rw [hplace] at hi
    cases hi
  | some place =>
    rw [hplace, Option.elim_some, List.mem_range'_1] at hi
    have hle := (job.index.chunksForFragment_bound hplace).2
    rw [hreads.covers] at hle
    omega

lemma Reads.genuine_eq (hreads : job.Reads s) :
    job.genuine s seq = (job.chunksOf seq).map s.chunk := by
  unfold genuine chunksOf
  cases hplace : job.index.chunksForFragment seq with
  | none => rfl
  | some place =>
    have hle := (job.index.chunksForFragment_bound hplace).2
    rw [hreads.covers, ← s.length_sealed_chunks] at hle
    rw [Option.elim_some, Option.elim_some]
    unfold PlainStream.piece PlainStream.chunk
    apply List.ext_getElem?
    intro j
    by_cases hj : j < place.2
    · rw [List.getElem?_take_of_lt hj, List.getElem?_drop, List.getElem?_map,
        List.getElem?_range' hj, Option.map_some, Nat.one_mul, List.getD_eq_getElem?_getD,
        List.getElem?_eq_getElem (by omega), Option.getD_some]
    · rw [List.getElem?_eq_none, List.getElem?_eq_none]
      · rw [List.length_map, List.length_range']
        omega
      · rw [List.length_take]
        omega

omit [Sha256] [Aes256GcmSeal] in
lemma mapM_missing (hf : ∀ i, (f i).index = i) (hseq : seq ∈ span)
    (hheld : job.held cache seq = none) :
    (job.chunksOf seq).mapM (fetchedChunk ((job.missing cache span).map f)) =
      .ok ((job.chunksOf seq).map fun i => (f i).bytes) := by
  refine mapM_eq_ok.mpr (List.forall₂_map_right_iff.mpr (List.forall₂_same.mpr ?_))
  intro i hi
  rw [fetchedChunk_map hf, if_pos (mem_missing.mpr ⟨seq, hseq, hheld, hi⟩)]

omit [Sha256] [Aes256GcmSeal] in
lemma mapM_held (hf : ∀ i, (f i).index = i) {chunks : List (List UInt8)}
    (hheld : job.held cache seq = some chunks) :
    (job.chunksOf seq).mapM (fetchedChunk ((job.missing cache span).map f)) =
      .error playerErr := by
  obtain ⟨a, l, hplace, -⟩ := chunksForFragment_of_held hheld
  obtain ⟨k, rfl⟩ := Nat.exists_eq_add_of_le' (job.index.chunksForFragment_bound hplace).1
  have hchunks : job.chunksOf seq = a :: List.range' (a + 1) k := by
    unfold chunksOf
    rw [hplace, Option.elim_some, List.range'_succ]
  have hnot : a ∉ job.missing cache span := by
    intro ha
    obtain ⟨other, -, hnone, hother⟩ := mem_missing.mp ha
    have ha' : a ∈ job.chunksOf seq := by
      rw [hchunks]
      exact List.mem_cons_self
    have hsame := chunksOf_disjoint ha' hother
    rw [← hsame, hheld] at hnone
    cases hnone
  rw [hchunks, List.mapM_cons, fetchedChunk_map hf, if_neg hnot]
  rfl

end VideoJob

end Fetch

end MaxSecu
