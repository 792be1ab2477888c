import MaxSecu.Framework.LabelledRun
import MaxSecu.Server.TierCount

/-!
# Residency bookkeeping

One operation at a time and no call failing, the index should say exactly what the local store
holds, and the tiered count should be the number of chunks put and not deleted since.

It stays so until an operation of one of two kinds (`residency_exact_iff`): an idle sweep that finds
an idle chunk, because the sweep moves the chunk and leaves its entry in the index; and a put of a
chunk that the cold tier holds, because the put records the chunk as local only.
-/

namespace MaxSecu

open Program AssociationList

def SuccessStep (c : TierCall) (s : TierState) (r : c.Response) (t : TierState) : Prop :=
  c.Step s r t ∧ c.Succeeded r

/-- The tier, and the chunks put and not deleted since. -/
structure Tracked where
  state : TierState
  live : Finset ChunkKey

/-- How an operation changes the chunks put and not deleted since. -/
def TierOp.track : TierOp → Finset ChunkKey → Finset ChunkKey
  | putChunk key _, live => insert key live
  | deleteStream blobRef, live => live.filter fun k => k.blobRef ≠ blobRef
  | deleteChunk key, live => live.erase key
  | _, live => live

namespace Tracked

def fresh (capacityBytes clock : ℕ) : Tracked := ⟨TierState.fresh capacityBytes clock, ∅⟩

def Next (idle : ℕ) (a : Tracked) (op : TierOp) (b : Tracked) : Prop :=
  (∃ r, Exec SuccessStep (op.program idle).run a.state (some r) b.state) ∧
    b.live = op.track a.live

/-- The index says exactly what the local store holds, and the count is right. -/
structure Exact (a : Tracked) : Prop where
  indexed : ∀ key, key ∈ a.state.index.entries ↔ key ∈ a.state.localStore
  total : a.state.index.totalBytes = weight List.length a.state.localStore
  coldBacked : a.state.ColdBacked
  count : ∀ blobRef r t,
    Exec SuccessStep (WriteBackTier.chunkCount blobRef).run a.state (some r) t →
    r = .ok (a.live.filter fun k => k.blobRef = blobRef).card

/-- No sweep finds an idle chunk, and no put is of a chunk that the cold tier holds. -/
def Meets (idle : ℕ) (a : Tracked) : TierOp → Prop
  | .putChunk key _ => key ∉ a.state.coldTier
  | .runIdleSweep => a.state.index.idleVictims a.state.clock idle = []
  | _ => True

end Tracked

/-! ## The invariant -/

/-- The index has the local chunks with their sizes, except the victims still to be moved; and it
has their cold backing right, except for the chunks in `stale`. -/
structure Tidy (s : TierState) (live stale : Finset ChunkKey) (victims : List Victim) : Prop where
  sizes : ∀ k, (s.index.entries.lookup k).map Entry.size =
    if k ∈ victims.map Victim.key then none else (s.localStore.lookup k).map List.length
  backing : ∀ k e, s.index.entries.lookup k = some e →
    (e.inCold = true ↔ k ∈ s.coldTier ∧ k ∉ stale)
  victimsBacked : Victim.ColdBacked s victims
  staleDouble : ∀ k ∈ stale, k ∈ s.localStore ∧ k ∈ s.coldTier ∧ k ∉ victims.map Victim.key
  liveHeld : ∀ k, k ∈ live ↔ s.Holds k

variable {s t : TierState} {key k : ChunkKey} {live stale : Finset ChunkKey}
  {victims rest : List Victim} {v : Victim} {bytes : List UInt8}

namespace Tidy

lemma fresh {capacityBytes clock : ℕ} : Tidy (TierState.fresh capacityBytes clock) ∅ ∅ [] where
  sizes k := by simp [TierState.fresh]
  backing k e he := absurd he (by simp [TierState.fresh])
  victimsBacked v hv := absurd hv (by simp)
  staleDouble k hk := absurd hk (by simp)
  liveHeld k := by simp [TierState.fresh, TierState.Holds]

lemma mem_index (h : Tidy s live stale []) : k ∈ s.index.entries ↔ k ∈ s.localStore := by
  have hsome := congrArg Option.isSome (h.sizes k)
  simp only [List.map_nil, List.not_mem_nil, if_false, Option.isSome_map] at hsome
  rw [← AList.lookup_isSome, ← AList.lookup_isSome, hsome]

lemma inColdOf_iff (h : Tidy s live stale []) :
    s.index.inColdOf k = some true ↔ s.DoublyHeld k ∧ k ∉ stale := by
  rw [LocalIndex.inColdOf_eq_some]
  constructor
  · rintro ⟨e, he, hcold⟩
    obtain ⟨hmem, hstale⟩ := (h.backing k e he).mp hcold
    exact ⟨⟨h.mem_index.mp (mem_iff_lookup.mpr ⟨e, he⟩), hmem⟩, hstale⟩
  · rintro ⟨⟨hlocal, hcold⟩, hstale⟩
    obtain ⟨e, he⟩ := mem_iff_lookup.mp (h.mem_index.mpr hlocal)
    exact ⟨e, he, (h.backing k e he).mpr ⟨hcold, hstale⟩⟩

lemma tieredCount (h : Tidy s live stale []) (blobRef : String) : s.tieredCount blobRef =
    (live.filter fun k => k.blobRef = blobRef).card +
      (stale.filter fun k => k.blobRef = blobRef).card := by
  have hheld : s.heldKeys blobRef = live.filter fun k => k.blobRef = blobRef := by
    ext k
    rw [TierState.heldKeys, Finset.mem_union, ChunkStore.mem_streamKeys, ChunkStore.mem_streamKeys,
      Finset.mem_filter, h.liveHeld k, TierState.Holds]
    tauto
  have hdouble : s.localStore.streamKeys blobRef ∩ s.coldTier.streamKeys blobRef =
      s.index.overlapKeys blobRef ∪ stale.filter fun k => k.blobRef = blobRef := by
    ext k
    rw [Finset.mem_inter, ChunkStore.mem_streamKeys, ChunkStore.mem_streamKeys, Finset.mem_union,
      LocalIndex.mem_overlapKeys, Finset.mem_filter, h.inColdOf_iff, TierState.DoublyHeld]
    have hstale := h.staleDouble k
    tauto
  have hdisjoint : Disjoint (s.index.overlapKeys blobRef)
      (stale.filter fun k => k.blobRef = blobRef) := by
    rw [Finset.disjoint_left]
    intro k hk hstale
    rw [LocalIndex.mem_overlapKeys, h.inColdOf_iff] at hk
    exact hk.2.2 (Finset.mem_filter.mp hstale).1
  rw [TierState.tieredCount, TierState.card_add_card, LocalIndex.overlapCount_eq_card, hheld,
    hdouble, Finset.card_union_of_disjoint hdisjoint]
  omega

lemma moved (h : Tidy s live stale (v :: rest)) (hindex : t.index = s.index)
    (hlocal : t.localStore = s.localStore.erase v.key)
    (hgrows : ∀ k, k ∈ t.coldTier ↔ k ∈ s.coldTier ∨ (k = v.key ∧ k ∈ s.localStore)) :
    Tidy t live stale rest := by
  have hlookup : ∀ k, k ≠ v.key → t.localStore.lookup k = s.localStore.lookup k := by
    intro k hk
    rw [hlocal, AList.lookup_erase_ne hk]
  have hgone : t.localStore.lookup v.key = none := by rw [hlocal, AList.lookup_erase]
  have hunindexed : s.index.entries.lookup v.key = none := by
    have hsize := h.sizes v.key
    simpa using hsize
  have hmem : ∀ k, k ∈ t.localStore ↔ k ≠ v.key ∧ k ∈ s.localStore := by
    intro k
    rw [hlocal, AList.mem_erase]
  refine ⟨?_, ?_, ?_, ?_, ?_⟩
  · intro k
    rw [hindex]
    by_cases hk : k = v.key
    · subst hk
      rw [hunindexed, hgone]
      simp
    · rw [h.sizes k, hlookup k hk, List.map_cons]
      simp [hk]
  · intro k e he
    rw [hindex] at he
    rw [h.backing k e he, hgrows k]
    have hne : k ≠ v.key := by
      rintro rfl
      rw [hunindexed] at he
      exact absurd he (by simp)
    simp [hne]
  · intro u hu hcold
    exact (hgrows u.key).mpr (.inl (h.victimsBacked u (List.mem_cons_of_mem v hu) hcold))
  · intro k hk
    obtain ⟨hstored, hcold, hnot⟩ := h.staleDouble k hk
    rw [List.map_cons, List.mem_cons, not_or] at hnot
    exact ⟨(hmem k).mpr ⟨hnot.1, hstored⟩, (hgrows k).mpr (.inl hcold), hnot.2⟩
  · intro k
    rw [h.liveHeld k, TierState.Holds, TierState.Holds, hmem k, hgrows k]
    tauto

/-- A chunk that has arrived on the local store is recorded, as cold when the cold tier holds it
unless it is to be stale. -/
lemma record {size time : ℕ} {inCold pinned : Bool} (h : Tidy s live ∅ [])
    (hsize : size = bytes.length) (hstale : ∀ k ∈ stale, k = key ∧ k ∈ s.coldTier)
    (hflag : inCold = true ↔ key ∈ s.coldTier ∧ key ∉ stale) :
    Tidy { s with
        localStore := s.localStore.insert key bytes
        index := (s.index.recordPut key size time inCold pinned).1 }
      (insert key live) stale (s.index.recordPut key size time inCold pinned).2 := by
  have hspec : LocalIndex.Evicted key _ (s.index.recordPut key size time inCold pinned).1
      (s.index.recordPut key size time inCold pinned).2 := LocalIndex.recordPut_spec
  have hself : key ∉ (s.index.recordPut key size time inCold pinned).2.map Victim.key := by
    intro hmem
    obtain ⟨v, hv, heq⟩ := List.mem_map.mp hmem
    exact (hspec.victim v hv).1 heq
  refine ⟨?_, ?_, ?_, ?_, ?_⟩
  · intro k
    show ((s.index.recordPut key size time inCold pinned).1.entries.lookup k).map Entry.size = _
    rw [hspec.lookup k]
    by_cases hvictim : k ∈ (s.index.recordPut key size time inCold pinned).2.map Victim.key
    · rw [if_pos hvictim, if_pos hvictim]
      rfl
    · rw [if_neg hvictim, if_neg hvictim, LocalIndex.lookup_set]
      by_cases hk : k = key
      · subst hk
        rw [if_pos rfl, AList.lookup_insert, hsize]
        rfl
      · rw [if_neg hk, AList.lookup_insert_ne hk]
        simpa using h.sizes k
  · intro k e he
    show e.inCold = true ↔ k ∈ s.coldTier ∧ k ∉ stale
    rw [hspec.lookup k] at he
    by_cases hvictim : k ∈ (s.index.recordPut key size time inCold pinned).2.map Victim.key
    · rw [if_pos hvictim] at he
      exact absurd he (by simp)
    · rw [if_neg hvictim, LocalIndex.lookup_set] at he
      by_cases hk : k = key
      · rw [if_pos hk] at he
        obtain rfl := Option.some.inj he
        rw [hk]
        exact hflag
      · rw [if_neg hk] at he
        have hfresh : k ∉ stale := fun hmem => hk (hstale k hmem).1
        rw [h.backing k e he]
        simp [hfresh]
  · intro v hv hcold
    have hindexed := LocalIndex.victim_recordPut hv
    rw [hcold, h.inColdOf_iff] at hindexed
    exact hindexed.1.2
  · intro k hk
    obtain ⟨rfl, hcold⟩ := hstale k hk
    exact ⟨(AList.mem_insert _).mpr (.inl rfl), hcold, hself⟩
  · intro k
    have hold := h.liveHeld k
    unfold TierState.Holds at hold ⊢
    rw [Finset.mem_insert, hold, AList.mem_insert]
    tauto

lemma recordAccess {time : ℕ} (h : Tidy s live stale []) :
    Tidy { s with index := s.index.recordAccess key time } live stale [] := by
  refine ⟨?_, ?_, h.victimsBacked, h.staleDouble, h.liveHeld⟩
  · intro k
    rw [← h.sizes k]
    show ((s.index.recordAccess key time).entries.lookup k).map Entry.size = _
    rw [LocalIndex.lookup_recordAccess]
    by_cases hk : k = key
    · subst hk
      rw [if_pos rfl, Option.map_map]
      rfl
    · rw [if_neg hk]
  · intro k e he
    have hafter : (s.index.recordAccess key time).inColdOf k = some e.inCold :=
      LocalIndex.inColdOf_eq_some.mpr ⟨e, he, rfl⟩
    rw [LocalIndex.inColdOf_recordAccess] at hafter
    obtain ⟨e', he', hcold⟩ := LocalIndex.inColdOf_eq_some.mp hafter
    rw [← hcold]
    exact h.backing k e' he'

lemma deleted {p : ChunkKey → Prop} [DecidablePred p] {live' : Finset ChunkKey}
    (h : Tidy s live ∅ [])
    (hlocal : ∀ k, t.localStore.lookup k = if p k then none else s.localStore.lookup k)
    (hcold : ∀ k, t.coldTier.lookup k = if p k then none else s.coldTier.lookup k)
    (hindex : ∀ k, t.index.entries.lookup k = if p k then none else s.index.entries.lookup k)
    (hlive : ∀ k, k ∈ live' ↔ ¬ p k ∧ k ∈ live) : Tidy t live' ∅ [] := by
  have hmemLocal : ∀ k, k ∈ t.localStore ↔ ¬ p k ∧ k ∈ s.localStore := by
    intro k
    rw [← AList.lookup_isSome, ← AList.lookup_isSome, hlocal k]
    by_cases hp : p k <;> simp [hp]
  have hmemCold : ∀ k, k ∈ t.coldTier ↔ ¬ p k ∧ k ∈ s.coldTier := by
    intro k
    rw [← AList.lookup_isSome, ← AList.lookup_isSome, hcold k]
    by_cases hp : p k <;> simp [hp]
  refine ⟨?_, ?_, fun v hv => absurd hv (by simp), fun k hk => absurd hk (by simp), ?_⟩
  · intro k
    rw [hindex k, hlocal k]
    by_cases hp : p k
    · simp [hp]
    · simpa [hp] using h.sizes k
  · intro k e he
    rw [hindex k] at he
    by_cases hp : p k
    · rw [if_pos hp] at he
      exact absurd he (by simp)
    · rw [if_neg hp] at he
      rw [h.backing k e he, hmemCold k]
      simp [hp]
  · intro k
    rw [hlive k, h.liveHeld k, TierState.Holds, TierState.Holds, hmemLocal k, hmemCold k]
    tauto

end Tidy

/-! ## The operations -/

namespace TierResidency

section Calls

variable {c : StoreCall} {d : IndexCall}

lemma wp_onLocal {post : Except BlobError c.Output → TierState → Prop} :
    wp SuccessStep (onLocal c).run post s ↔
      post (.ok (c.apply s.localStore).1) { s with localStore := (c.apply s.localStore).2 } := by
  constructor
  · exact fun h => h _ _ ⟨⟨rfl, rfl⟩, _, rfl⟩
  · rintro h _ t ⟨hstep, out, rfl⟩
    obtain ⟨rfl, rfl⟩ := hstep
    exact h

lemma wp_onCold {post : Except BlobError c.Output → TierState → Prop} :
    wp SuccessStep (onCold c).run post s ↔
      post (.ok (c.apply s.coldTier).1) { s with coldTier := (c.apply s.coldTier).2 } := by
  constructor
  · exact fun h => h _ _ ⟨⟨rfl, rfl⟩, _, rfl⟩
  · rintro h _ t ⟨hstep, out, rfl⟩
    obtain ⟨rfl, rfl⟩ := hstep
    exact h

lemma wp_onIndex {post : d.Output → TierState → Prop} :
    wp SuccessStep (onIndex d) post s ↔ ∀ out, d.Returns s.index out →
      post out { s with index := (d.apply s.index).2 } := by
  constructor
  · exact fun h out hout => h out _ ⟨⟨hout, rfl⟩, trivial⟩
  · rintro h out t ⟨⟨hout, rfl⟩, -⟩
    exact h out hout

lemma wp_clockNow {post : ℕ → TierState → Prop} :
    wp SuccessStep clockNow post s ↔ post s.clock s := by
  constructor
  · exact fun h => h _ _ ⟨⟨rfl, rfl⟩, trivial⟩
  · rintro h time t ⟨⟨rfl, rfl⟩, -⟩
    exact h

lemma wp_bind_ok {α β : Type} {x : TierM α} {f : α → TierM β}
    {post : Except BlobError β → TierState → Prop}
    (h : wp SuccessStep x.run (fun r t => ∃ a, r = .ok a ∧ wp SuccessStep (f a).run post t) s) :
    wp SuccessStep (x >>= f).run post s := by
  rw [wp_bindExcept]
  apply wp_mono h
  rintro _ t ⟨a, rfl, ht⟩
  exact ⟨fun b hb => Except.ok.inj hb ▸ ht, fun e he => absurd he (by simp)⟩

end Calls

variable {idle : ℕ}

lemma wp_offload (h : Tidy s live stale (v :: rest)) :
    wp SuccessStep (WriteBackTier.offload v.key v.inCold).run
      (fun r t => r = .ok () ∧ Tidy t live stale rest) s := by
  unfold WriteBackTier.offload
  by_cases hflag : v.inCold = true
  · rw [if_pos hflag, wp_onLocal]
    refine ⟨rfl, h.moved rfl rfl ?_⟩
    have hcold := h.victimsBacked v (by simp) hflag
    intro k
    constructor
    · exact .inl
    · rintro (hk | ⟨rfl, -⟩)
      · exact hk
      · exact hcold
  · rw [if_neg hflag]
    apply wp_bind_ok
    rw [wp_onLocal]
    refine ⟨_, rfl, ?_⟩
    cases hlookup : s.localStore.lookup v.key with
    | none =>
      have habsent : v.key ∉ s.localStore := AList.lookup_eq_none.mp hlookup
      simp only [StoreCall.apply, hlookup, Option.elim_none]
      refine ⟨rfl, h.moved rfl (erase_of_not_mem habsent).symm ?_⟩
      intro k
      constructor
      · exact .inl
      · rintro (hk | ⟨rfl, hlocal⟩)
        · exact hk
        · exact absurd hlocal habsent
    | some b =>
      have hlocal : v.key ∈ s.localStore := mem_iff_lookup.mpr ⟨b, hlookup⟩
      simp only [StoreCall.apply, hlookup, Option.elim_some]
      apply wp_bind_ok
      rw [wp_onCold]
      refine ⟨_, rfl, ?_⟩
      rw [wp_onLocal]
      refine ⟨rfl, h.moved rfl rfl ?_⟩
      intro k
      show k ∈ s.coldTier.insert v.key b ↔ _
      rw [AList.mem_insert]
      constructor
      · rintro (rfl | hk)
        · exact .inr ⟨rfl, hlocal⟩
        · exact .inl hk
      · rintro (hk | ⟨rfl, -⟩)
        · exact .inr hk
        · exact .inl rfl

lemma wp_offloadVictims (h : Tidy s live stale victims) :
    wp SuccessStep (WriteBackTier.offloadVictims victims) (fun _ t => Tidy t live stale []) s := by
  induction victims generalizing s with
  | nil => exact h
  | cons v rest ih =>
    rw [WriteBackTier.offloadVictims, wp_bind]
    apply wp_mono (wp_offload h)
    rintro _ t ⟨rfl, ht⟩
    exact ih ht

lemma wp_record {α : Type} {inCold pinned : Bool} {more : TierM α}
    {post : Except BlobError α → TierState → Prop} (stale : Finset ChunkKey) (h : Tidy s live ∅ [])
    (hstale : ∀ k ∈ stale, k = key ∧ k ∈ s.coldTier)
    (hflag : inCold = true ↔ key ∈ s.coldTier ∧ key ∉ stale)
    (hmore : ∀ t, Tidy t (insert key live) stale [] → wp SuccessStep more.run post t) :
    wp SuccessStep
      (do
        let now ← clockNow
        let victims : List Victim ← onIndex (.recordPut key bytes.length now inCold pinned)
        WriteBackTier.offloadVictims victims
        more : TierM α).run post { s with localStore := s.localStore.insert key bytes } := by
  apply wp_bind_ok
  rw [wp_lift, wp_clockNow]
  refine ⟨_, rfl, ?_⟩
  apply wp_bind_ok
  rw [wp_lift, wp_onIndex]
  rintro victims rfl
  refine ⟨_, rfl, ?_⟩
  apply wp_bind_ok
  rw [wp_lift]
  apply wp_mono (wp_offloadVictims (h.record rfl hstale hflag))
  intro _ t ht
  exact ⟨(), rfl, hmore t ht⟩

lemma wp_putChunk (h : Tidy s live ∅ []) :
    wp SuccessStep (WriteBackTier.putChunk key bytes).run
      (fun r t => (∃ a, r = .ok a) ∧
        Tidy t (insert key live) (if key ∈ s.coldTier then {key} else ∅) []) s := by
  unfold WriteBackTier.putChunk
  apply wp_bind_ok
  rw [wp_onLocal]
  refine ⟨_, rfl, ?_⟩
  apply wp_record (if key ∈ s.coldTier then {key} else ∅) h
  · intro k hk
    by_cases hcold : key ∈ s.coldTier
    · rw [if_pos hcold, Finset.mem_singleton] at hk
      exact ⟨hk, hk ▸ hcold⟩
    · rw [if_neg hcold] at hk
      exact absurd hk (by simp)
  · by_cases hcold : key ∈ s.coldTier
    · simp [hcold]
    · simp [hcold]
  · exact fun t ht => ⟨⟨(), rfl⟩, ht⟩

lemma wp_getChunk (h : Tidy s live ∅ []) :
    wp SuccessStep (WriteBackTier.getChunk key).run
      (fun r t => (∃ a, r = .ok a) ∧ Tidy t live ∅ []) s := by
  unfold WriteBackTier.getChunk
  apply wp_bind_ok
  rw [wp_onLocal]
  refine ⟨_, rfl, ?_⟩
  cases hlookup : s.localStore.lookup key with
  | some b =>
    have hcontains : s.index.contains key = true := by
      rw [LocalIndex.contains, AList.lookup_isSome, h.mem_index]
      exact mem_iff_lookup.mpr ⟨b, hlookup⟩
    simp only [StoreCall.apply, hlookup, Option.elim_some]
    apply wp_bind_ok
    rw [wp_lift, wp_clockNow]
    refine ⟨_, rfl, ?_⟩
    apply wp_bind_ok
    rw [wp_lift, wp_onIndex]
    intro _ _
    refine ⟨_, rfl, ⟨_, rfl⟩, ?_⟩
    simp only [IndexCall.apply, hcontains, if_true]
    exact h.recordAccess
  | none =>
    simp only [StoreCall.apply, hlookup, Option.elim_none]
    unfold WriteBackTier.rehydrate
    apply wp_bind_ok
    rw [wp_onCold]
    refine ⟨_, rfl, ?_⟩
    cases hfetched : s.coldTier.lookup key with
    | none =>
      simp only [StoreCall.apply, hfetched, Option.elim_none]
      exact ⟨⟨_, rfl⟩, h⟩
    | some b =>
      have hcold : key ∈ s.coldTier := mem_iff_lookup.mpr ⟨b, hfetched⟩
      have hlive : insert key live = live :=
        Finset.insert_eq_of_mem ((h.liveHeld key).mpr (.inr hcold))
      simp only [StoreCall.apply, hfetched, Option.elim_some]
      apply wp_bind_ok
      rw [wp_onLocal]
      refine ⟨_, rfl, ?_⟩
      apply wp_record ∅ h
      · exact fun k hk => absurd hk (by simp)
      · simp [hcold]
      · intro t ht
        rw [hlive] at ht
        exact ⟨⟨_, rfl⟩, ht⟩

lemma wp_deleteStream {blobRef : String} (h : Tidy s live ∅ []) :
    wp SuccessStep (WriteBackTier.deleteStream blobRef).run
      (fun r t => (∃ a, r = .ok a) ∧ Tidy t (live.filter fun k => k.blobRef ≠ blobRef) ∅ []) s := by
  unfold WriteBackTier.deleteStream
  apply wp_bind_ok
  rw [wp_onLocal]
  refine ⟨_, rfl, ?_⟩
  apply wp_bind_ok
  rw [wp_onCold]
  refine ⟨_, rfl, ?_⟩
  rw [wp_lift, wp_onIndex]
  intro _ _
  refine ⟨⟨_, rfl⟩, ?_⟩
  apply h.deleted (p := fun k => k.blobRef = blobRef)
  · exact fun k => ChunkStore.lookup_deleteStream
  · exact fun k => ChunkStore.lookup_deleteStream
  · exact fun k => LocalIndex.lookup_removeStream
  · intro k
    rw [Finset.mem_filter]
    tauto

lemma wp_deleteChunk (h : Tidy s live ∅ []) :
    wp SuccessStep (WriteBackTier.deleteChunk key).run
      (fun r t => (∃ a, r = .ok a) ∧ Tidy t (live.erase key) ∅ []) s := by
  have herase : ∀ (store : ChunkStore) k,
      (store.erase key).lookup k = if k = key then none else store.lookup k := by
    intro store k
    by_cases hk : k = key
    · subst hk
      simp
    · simp [hk, AList.lookup_erase_ne hk]
  unfold WriteBackTier.deleteChunk
  apply wp_bind_ok
  rw [wp_onLocal]
  refine ⟨_, rfl, ?_⟩
  apply wp_bind_ok
  rw [wp_onCold]
  refine ⟨_, rfl, ?_⟩
  rw [wp_lift, wp_onIndex]
  intro _ _
  refine ⟨⟨_, rfl⟩, ?_⟩
  apply h.deleted (p := fun k => k = key)
  · exact herase s.localStore
  · exact herase s.coldTier
  · exact fun k => LocalIndex.lookup_remove
  · exact fun k => Finset.mem_erase

lemma wp_runIdleSweep_none (h : s.index.idleVictims s.clock idle = []) :
    wp SuccessStep (WriteBackTier.runIdleSweep idle) (fun _ t => t = s) s := by
  unfold WriteBackTier.runIdleSweep
  rw [wp_bind, wp_clockNow, wp_bind, wp_onIndex]
  intro victims hvictims
  obtain rfl : victims = [] := List.Perm.eq_nil (h ▸ hvictims)
  rfl

/-- What an offload leaves of the local store and the index. -/
structure Gone (s t : TierState) (victims : List Victim) : Prop where
  index : t.index = s.index
  localStore : ∀ k, k ∈ t.localStore → k ∈ s.localStore
  victims : ∀ v ∈ victims, v.key ∉ t.localStore

lemma wp_offload_gone : wp SuccessStep (WriteBackTier.offload v.key v.inCold).run
    (fun r t => r = .ok () ∧ Gone s t [v]) s := by
  have herased : ∀ u : TierState, u.index = s.index → u.localStore = s.localStore →
      Gone s { u with localStore := u.localStore.erase v.key } [v] := by
    intro u hindex hlocal
    refine ⟨hindex, ?_, ?_⟩
    · intro k hk
      exact hlocal ▸ (AList.mem_erase.mp hk).2
    · intro w hw
      obtain rfl := List.mem_singleton.mp hw
      exact fun hmem => (AList.mem_erase.mp hmem).1 rfl
  unfold WriteBackTier.offload
  by_cases hflag : v.inCold = true
  · rw [if_pos hflag, wp_onLocal]
    exact ⟨rfl, herased s rfl rfl⟩
  · rw [if_neg hflag]
    apply wp_bind_ok
    rw [wp_onLocal]
    refine ⟨_, rfl, ?_⟩
    cases hlookup : s.localStore.lookup v.key with
    | none =>
      simp only [StoreCall.apply, hlookup, Option.elim_none]
      refine ⟨rfl, rfl, fun k hk => hk, ?_⟩
      intro w hw
      obtain rfl := List.mem_singleton.mp hw
      exact AList.lookup_eq_none.mp hlookup
    | some b =>
      simp only [StoreCall.apply, hlookup, Option.elim_some]
      apply wp_bind_ok
      rw [wp_onCold]
      refine ⟨_, rfl, ?_⟩
      rw [wp_onLocal]
      exact ⟨rfl, herased { s with coldTier := s.coldTier.insert v.key b } rfl rfl⟩

lemma wp_offloadVictims_gone : wp SuccessStep (WriteBackTier.offloadVictims victims)
    (fun _ t => Gone s t victims) s := by
  induction victims generalizing s with
  | nil => exact ⟨rfl, fun k hk => hk, fun v hv => absurd hv (by simp)⟩
  | cons v rest ih =>
    rw [WriteBackTier.offloadVictims, wp_bind]
    apply wp_mono wp_offload_gone
    rintro _ t ⟨rfl, hv⟩
    apply wp_mono ih
    intro _ u hrest
    refine ⟨hrest.index.trans hv.index, fun k hk => hv.localStore k (hrest.localStore k hk), ?_⟩
    intro w hw
    rcases List.mem_cons.mp hw with rfl | hw
    · exact fun hmem => hv.victims w (by simp) (hrest.localStore _ hmem)
    · exact hrest.victims w hw

lemma wp_runIdleSweep : wp SuccessStep (WriteBackTier.runIdleSweep idle)
    (fun _ t => Gone s t (s.index.idleVictims s.clock idle)) s := by
  unfold WriteBackTier.runIdleSweep
  rw [wp_bind, wp_clockNow, wp_bind, wp_onIndex]
  intro victims hvictims
  apply wp_mono wp_offloadVictims_gone
  intro _ t ht
  exact ⟨ht.index, ht.localStore, fun v hv => ht.victims v (hvictims.symm.subset hv)⟩

lemma wp_chunkCount {blobRef : String} : wp SuccessStep (WriteBackTier.chunkCount blobRef).run
    (fun r t => r = .ok (s.tieredCount blobRef) ∧ t = s) s := by
  unfold WriteBackTier.chunkCount
  apply wp_bind_ok
  rw [wp_onLocal]
  refine ⟨_, rfl, ?_⟩
  apply wp_bind_ok
  rw [wp_lift, wp_onCold]
  refine ⟨_, rfl, ?_⟩
  simp only [StoreCall.apply, Except.toOption, Option.elim_some]
  apply wp_bind_ok
  rw [wp_lift, wp_onIndex]
  rintro _ rfl
  exact ⟨_, rfl, rfl, rfl⟩

/-! ## Exactness -/

/-- What an operation leaves stale: the chunk put, when the cold tier holds it. -/
def staleAfter (s : TierState) : TierOp → Finset ChunkKey
  | .putChunk key _ => if key ∈ s.coldTier then {key} else ∅
  | _ => ∅

/-- Every operation but a sweep that finds an idle chunk keeps the index tidy, up to the chunk it
leaves stale. -/
lemma wp_program {op : TierOp} (h : Tidy s live ∅ [])
    (hidle : op = .runIdleSweep → s.index.idleVictims s.clock idle = []) :
    wp SuccessStep (op.program idle).run
      (fun _ t => Tidy t (op.track live) (staleAfter s op) []) s := by
  have hreply : ∀ {α : Type} {x : TierM α} {reply : α → TierReply} {P : TierState → Prop},
      wp SuccessStep x.run (fun r t => (∃ a, r = .ok a) ∧ P t) s →
      wp SuccessStep (x >>= fun a => pure (reply a)).run (fun _ t => P t) s := by
    intro α x reply P hx
    apply wp_bind_ok
    apply wp_mono hx
    rintro _ t ⟨⟨a, rfl⟩, ht⟩
    exact ⟨a, rfl, ht⟩
  cases op with
  | putChunk key bytes => exact hreply (wp_putChunk h)
  | getChunk key => exact hreply (wp_getChunk h)
  | runIdleSweep =>
    apply hreply
    rw [wp_lift]
    apply wp_mono (wp_runIdleSweep_none (hidle rfl))
    rintro _ t rfl
    exact ⟨⟨_, rfl⟩, h⟩
  | chunkCount blobRef =>
    apply hreply
    apply wp_mono wp_chunkCount
    rintro _ t ⟨rfl, rfl⟩
    exact ⟨⟨_, rfl⟩, h⟩
  | deleteStream blobRef => exact hreply (wp_deleteStream h)
  | deleteChunk key => exact hreply (wp_deleteChunk h)
  | setClock time =>
    apply hreply
    rw [wp_lift]
    rintro _ t ⟨hstep, -⟩
    obtain rfl : t = { s with clock := time } := hstep
    exact ⟨⟨_, rfl⟩, ⟨h.sizes, h.backing, h.victimsBacked, h.staleDouble, h.liveHeld⟩⟩

lemma exec_chunkCount (s : TierState) (blobRef : String) :
    ∃ t, Exec SuccessStep (WriteBackTier.chunkCount blobRef).run s
      (some (.ok (s.tieredCount blobRef))) t := by
  have hstep : ∀ c s, SuccessStep c s (c.succeed s).1 (c.succeed s).2 :=
    fun c s => c.step_succeed s
  have hexec := exec_eval hstep (WriteBackTier.chunkCount blobRef).run s
  have hresult := (wp_sound hexec wp_chunkCount).1
  rw [hresult] at hexec
  exact ⟨_, hexec⟩

/-- The invariant between operations: nothing is being moved and nothing is stale. -/
def IsTidy (a : Tracked) : Prop := Tidy a.state a.live ∅ []

lemma exact_of_tidy {a : Tracked} (h : IsTidy a) : a.Exact := by
  refine ⟨fun key => h.mem_index, ?_, ?_, ?_⟩
  · rw [a.state.index.total_eq]
    apply weight_congr
    intro k
    simpa using h.sizes k
  · intro key hkey
    exact (h.inColdOf_iff.mp hkey).1.2
  · intro blobRef r t hexec
    obtain ⟨rfl, -⟩ := wp_sound hexec wp_chunkCount
    rw [h.tieredCount blobRef]
    simp

lemma tidy_next {a b : Tracked} {op : TierOp} (h : IsTidy a) (hmeets : a.Meets idle op)
    (hnext : a.Next idle op b) : IsTidy b := by
  obtain ⟨⟨r, hexec⟩, hlive⟩ := hnext
  have hidle : op = .runIdleSweep → a.state.index.idleVictims a.state.clock idle = [] := by
    rintro rfl
    exact hmeets
  have htidy := wp_sound hexec (wp_program h hidle)
  have hstale : staleAfter a.state op = ∅ := by
    cases op with
    | putChunk key bytes => exact if_neg hmeets
    | _ => rfl
  rw [hstale, ← hlive] at htidy
  exact htidy

lemma meets_of_exact {a b : Tracked} {op : TierOp} (h : IsTidy a) (hnext : a.Next idle op b)
    (hexact : b.Exact) : a.Meets idle op := by
  obtain ⟨⟨r, hexec⟩, hlive⟩ := hnext
  cases op with
  | putChunk key bytes =>
    intro hcold
    have htidy := wp_sound hexec (wp_program h fun hop => absurd hop (by simp))
    obtain ⟨t, hcount⟩ := exec_chunkCount b.state key.blobRef
    have hright := Except.ok.inj (hexact.count key.blobRef _ t hcount)
    have hwrong := htidy.tieredCount key.blobRef
    have hstale : ((staleAfter a.state (.putChunk key bytes)).filter
        fun k => k.blobRef = key.blobRef).card = 1 := by
      simp [staleAfter, hcold, Finset.filter_singleton]
    rw [hstale, ← hlive] at hwrong
    omega
  | runIdleSweep =>
    show a.state.index.idleVictims a.state.clock idle = []
    rw [List.eq_nil_iff_forall_not_mem]
    intro v hv
    have hsweep : wp SuccessStep (TierOp.runIdleSweep.program idle).run
        (fun _ t => Gone a.state t (a.state.index.idleVictims a.state.clock idle)) a.state := by
      apply wp_bind_ok
      rw [wp_lift]
      apply wp_mono wp_runIdleSweep
      exact fun _ t ht => ⟨_, rfl, ht⟩
    have hgone := wp_sound hexec hsweep
    obtain ⟨e, he, -⟩ := LocalIndex.mem_idleVictims hv
    have hindexed : v.key ∈ b.state.index.entries := by
      rw [hgone.index]
      exact mem_iff_lookup.mpr ⟨e, he⟩
    exact hgone.victims v hv ((hexact.indexed v.key).mp hindexed)
  | _ => exact trivial

end TierResidency

/-- After every operation of a run from empty tiers the bookkeeping is exact, if and only if no
sweep found an idle chunk and no put was of a chunk that the cold tier held. -/
theorem residency_exact_iff {idle capacityBytes clock : ℕ} {path : List (Tracked × TierOp)}
    {a : Tracked}
    (hrun : LabelledRun (Tracked.Next idle) (Tracked.fresh capacityBytes clock) path a) :
    ((∀ x ∈ path, x.1.Exact) ∧ a.Exact) ↔ ∀ x ∈ path, x.1.Meets idle x.2 := by
  have hinit : TierResidency.IsTidy (Tracked.fresh capacityBytes clock) := Tidy.fresh
  exact LabelledRun.all_iff hinit (fun _ => TierResidency.exact_of_tidy)
    (fun _ _ _ => TierResidency.tidy_next) (fun _ _ _ => TierResidency.meets_of_exact) hrun

/-- One more operation, run to its end. -/
def Tracked.after (idle : ℕ) (a : Tracked) (op : TierOp) : Tracked :=
  ⟨a.state.after idle op, op.track a.live⟩

lemma Tracked.next_after (idle : ℕ) (a : Tracked) (op : TierOp) :
    a.Next idle op (a.after idle op) := by
  have hstep : ∀ c s, SuccessStep c s (c.succeed s).1 (c.succeed s).2 :=
    fun c s => c.step_succeed s
  exact ⟨⟨_, exec_eval hstep _ a.state⟩, rfl⟩

/-- A put that makes room, on a store with room for one byte, leaves the bookkeeping exact. -/
theorem residency_exact_iff_evicted :
    (((Tracked.fresh 1 0).after 0 (.putChunk ⟨"ab/1/1", 0⟩ [7])).after 0
      (.putChunk ⟨"ab/1/1", 1⟩ [7])).Exact := by
  have hrun := LabelledRun.step
    (LabelledRun.step (.start (s := Tracked.fresh 1 0))
      (Tracked.next_after 0 _ (.putChunk ⟨"ab/1/1", 0⟩ [7])))
    (Tracked.next_after 0 _ (.putChunk ⟨"ab/1/1", 1⟩ [7]))
  refine ((residency_exact_iff hrun).mpr ?_).2
  intro x hx
  simp only [List.nil_append, List.cons_append, List.mem_cons, List.not_mem_nil, or_false] at hx
  rcases hx with rfl | rfl
  · show (⟨"ab/1/1", 0⟩ : ChunkKey) ∉ _
    decide +kernel
  · show (⟨"ab/1/1", 1⟩ : ChunkKey) ∉ _
    decide +kernel

/-- The sweep moves the idle chunk to the cold tier, and the index still has it. -/
theorem residency_sweepLeavesEntry :
    ¬ ∀ (idle capacityBytes clock : ℕ) (path : List (Tracked × TierOp)) (a : Tracked),
      LabelledRun (Tracked.Next idle) (Tracked.fresh capacityBytes clock) path a →
      a.Exact := by
  intro h
  have hrun := LabelledRun.step
    (LabelledRun.step (.start (s := Tracked.fresh 1 0))
      (Tracked.next_after 0 _ (.putChunk ⟨"ab/1/1", 0⟩ [7])))
    (Tracked.next_after 0 _ .runIdleSweep)
  have hexact := h 0 1 0 _ _ hrun
  have hindexed : (⟨"ab/1/1", 0⟩ : ChunkKey) ∈
      (((Tracked.fresh 1 0).after 0 (.putChunk ⟨"ab/1/1", 0⟩ [7])).after 0
        .runIdleSweep).state.index.entries := by
    decide +kernel
  have hgone : (⟨"ab/1/1", 0⟩ : ChunkKey) ∉
      (((Tracked.fresh 1 0).after 0 (.putChunk ⟨"ab/1/1", 0⟩ [7])).after 0
        .runIdleSweep).state.localStore := by
    decide +kernel
  exact hgone ((hexact.indexed _).mp hindexed)

end MaxSecu
