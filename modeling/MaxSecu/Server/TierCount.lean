import MaxSecu.Framework.ExceptRules
import MaxSecu.Server.TierDurability

/-!
# The tiered chunk count

`chunkCount` adds the counts of both tiers and subtracts the overlap, which it reads from the index.
It counts no chunk twice as long as every chunk that both tiers hold is indexed with cold backing.

The index can lose sight of such a chunk in four ways (`CountSafe` and the rule for restarts exclude
them), and then the count is above the number of indices held (`chunkCount_overcounts`).  In a run
without them it never is (`chunkCount_le_held`).
-/

namespace MaxSecu

open Program AssociationList

/-! ## Counting -/

/-- The chunks of the stream that are indexed with cold backing. -/
def LocalIndex.overlapKeys (index : LocalIndex) (blobRef : String) : Finset ChunkKey :=
  index.entries.keys.toFinset.filter fun k => k.blobRef = blobRef ∧ index.inColdOf k = some true

lemma LocalIndex.mem_overlapKeys {index : LocalIndex} {blobRef : String} {key : ChunkKey} :
    key ∈ index.overlapKeys blobRef ↔ key.blobRef = blobRef ∧ index.inColdOf key = some true := by
  rw [LocalIndex.overlapKeys, Finset.mem_filter, mem_keys_toFinset]
  constructor
  · exact fun h => h.2
  · intro h
    obtain ⟨e, he, -⟩ := LocalIndex.inColdOf_eq_some.mp h.2
    exact ⟨mem_iff_lookup.mpr ⟨e, he⟩, h⟩

lemma LocalIndex.overlapCount_eq_card {index : LocalIndex} {blobRef : String} :
    index.overlapCount blobRef = (index.overlapKeys blobRef).card := by
  have hnodup : ((index.entries.entries.filter fun e => e.1.blobRef = blobRef ∧ e.2.inCold).map
      Sigma.fst).Nodup :=
    index.entries.keys_nodup.sublist (List.filter_sublist.map Sigma.fst)
  rw [LocalIndex.overlapCount, ← List.length_map (f := Sigma.fst),
    ← List.toFinset_card_of_nodup hnodup]
  congr 1
  ext key
  rw [LocalIndex.mem_overlapKeys, LocalIndex.inColdOf_eq_some]
  simp only [List.mem_toFinset, List.mem_map, List.mem_filter, decide_eq_true_eq]
  constructor
  · rintro ⟨e, ⟨he, href, hcold⟩, rfl⟩
    exact ⟨href, e.2, AList.mem_lookup_iff.mpr he, hcold⟩
  · rintro ⟨href, e, he, hcold⟩
    exact ⟨⟨key, e⟩, ⟨AList.mem_lookup_iff.mp he, href, hcold⟩, rfl⟩

namespace TierState

def DoublyHeld (s : TierState) (key : ChunkKey) : Prop :=
  key ∈ s.localStore ∧ key ∈ s.coldTier

/-- The distinct indices of the stream that the local store or the cold tier holds. -/
def heldKeys (s : TierState) (blobRef : String) : Finset ChunkKey :=
  s.localStore.streamKeys blobRef ∪ s.coldTier.streamKeys blobRef

/-- Every chunk that both tiers hold is indexed with cold backing. -/
def Counted (s : TierState) : Prop :=
  ∀ key, s.DoublyHeld key → s.index.inColdOf key = some true

/-- What `chunkCount` returns when both tiers answer. -/
def tieredCount (s : TierState) (blobRef : String) : ℕ :=
  s.localStore.chunkCount blobRef + s.coldTier.chunkCount blobRef - s.index.overlapCount blobRef

variable {s : TierState} {blobRef : String}

lemma card_add_card : s.localStore.chunkCount blobRef + s.coldTier.chunkCount blobRef =
    (s.heldKeys blobRef).card +
      (s.localStore.streamKeys blobRef ∩ s.coldTier.streamKeys blobRef).card := by
  rw [ChunkStore.chunkCount_eq_card, ChunkStore.chunkCount_eq_card, heldKeys,
    Finset.card_union_add_card_inter]

lemma localCount_le : s.localStore.chunkCount blobRef ≤ (s.heldKeys blobRef).card := by
  rw [ChunkStore.chunkCount_eq_card]
  exact Finset.card_le_card Finset.subset_union_left

lemma tieredCount_le (hs : s.Counted) : s.tieredCount blobRef ≤ (s.heldKeys blobRef).card := by
  have hoverlap : s.localStore.streamKeys blobRef ∩ s.coldTier.streamKeys blobRef ⊆
      s.index.overlapKeys blobRef := by
    intro key hkey
    obtain ⟨hlocal, hcold⟩ := Finset.mem_inter.mp hkey
    rw [ChunkStore.mem_streamKeys] at hlocal hcold
    rw [LocalIndex.mem_overlapKeys]
    exact ⟨hlocal.2, hs key ⟨hlocal.1, hcold.1⟩⟩
  have hcard := Finset.card_le_card hoverlap
  rw [tieredCount, card_add_card, LocalIndex.overlapCount_eq_card]
  omega

end TierState

/-! ## Calls that keep the count right -/

/-- A call in a given state that does not make the index lose sight of a chunk in both tiers.

Take the chunks that both tiers hold.  None is recorded as local only; none is dropped from the index
by an adoption; and the local store answers when it is asked for one that is not indexed with cold
backing. -/
def CountSafe (s : TierState) : (c : TierCall) → c.Response → Prop
  | .index (.recordPut key _ _ inCold _), _ => inCold = false → ¬ s.DoublyHeld key
  | .index (.readopt key size now inCold), _ =>
    (inCold = false → ¬ s.DoublyHeld key) ∧
      ∀ v ∈ (s.index.recordPut key size now inCold false).2, ¬ s.DoublyHeld v.key
  | .index (.recordHit key size now pinned), _ => s.index.contains key = false →
      ∀ v ∈ (s.index.recordPut key size now false pinned).2, ¬ s.DoublyHeld v.key
  | .localStore (.getChunk key), .error _ => s.DoublyHeld key → s.index.inColdOf key = some true
  | _, _ => True

/-- A restart makes the index forget everything, so no chunk may be in both tiers. -/
def TierState.RestartSafe (s : TierState) : Prop := ∀ key, ¬ s.DoublyHeld key

def CountSafeStep (c : TierCall) (s : TierState) (r : c.Response) (t : TierState) : Prop :=
  c.Step s r t ∧ CountSafe s c r

/-- Chunks in both tiers are indexed with cold backing, except some that are being moved. -/
def CountedExcept (s : TierState) (moving : List ChunkKey) : Prop :=
  ∀ key, s.DoublyHeld key → s.index.inColdOf key = some true ∨ key ∈ moving

variable {s t : TierState} {key k : ChunkKey} {moving : List ChunkKey} {inCold pinned : Bool}
  {size now : ℕ}

lemma countedExcept_nil : CountedExcept s [] ↔ s.Counted := by
  simp [CountedExcept, TierState.Counted]

lemma CountedExcept.mono {moving' : List ChunkKey} (h : CountedExcept s moving)
    (hsub : ∀ k ∈ moving, k ∈ moving') : CountedExcept s moving' :=
  fun k hk => (h k hk).imp_right (hsub k)

lemma CountedExcept.drop (h : CountedExcept s (key :: moving)) (hkey : ¬ s.DoublyHeld key) :
    CountedExcept s moving := by
  intro k hk
  rcases h k hk with hindexed | hmoving
  · exact .inl hindexed
  · rcases List.mem_cons.mp hmoving with rfl | hmem
    · exact absurd hk hkey
    · exact .inr hmem

lemma CountedExcept.stores (h : CountedExcept s moving) (hindex : t.index = s.index)
    (hheld : ∀ k, t.DoublyHeld k → s.DoublyHeld k ∨ k ∈ moving) : CountedExcept t moving := by
  intro k hk
  rw [hindex]
  rcases hheld k hk with hold | hmoving
  · exact h k hold
  · exact .inr hmoving

lemma inColdOf_recordPut_of_not_victim {index : LocalIndex} (hne : k ≠ key)
    (hk : k ∉ (index.recordPut key size now inCold pinned).2.map Victim.key) :
    (index.recordPut key size now inCold pinned).1.inColdOf k = index.inColdOf k := by
  unfold LocalIndex.inColdOf
  rw [LocalIndex.recordPut_spec.lookup k, if_neg hk, LocalIndex.lookup_set, if_neg hne]
  rfl

lemma inColdOf_recordPut_self {index : LocalIndex} :
    (index.recordPut key size now inCold pinned).1.inColdOf key = some inCold := by
  have hself : key ∉ (index.recordPut key size now inCold pinned).2.map Victim.key := by
    intro h
    obtain ⟨v, hv, heq⟩ := List.mem_map.mp h
    exact (LocalIndex.recordPut_spec.victim v hv).1 heq
  unfold LocalIndex.inColdOf
  rw [LocalIndex.recordPut_spec.lookup key, if_neg hself, LocalIndex.lookup_set, if_pos rfl]
  rfl

/-- Recording a chunk, truthfully if it says that the cold tier lacks it, leaves only the victims
to be moved. -/
lemma CountedExcept.recordPut (h : CountedExcept s (key :: moving))
    (htrue : inCold = false → ¬ s.DoublyHeld key) :
    CountedExcept { s with index := (s.index.recordPut key size now inCold pinned).1 }
      ((s.index.recordPut key size now inCold pinned).2.map Victim.key ++ moving) := by
  intro k hk
  have hk' : s.DoublyHeld k := hk
  show (s.index.recordPut key size now inCold pinned).1.inColdOf k = some true ∨ _
  by_cases hkey : k = key
  · subst hkey
    rw [inColdOf_recordPut_self]
    cases inCold with
    | true => exact .inl rfl
    | false => exact absurd hk' (htrue rfl)
  · by_cases hvictim : k ∈ (s.index.recordPut key size now inCold pinned).2.map Victim.key
    · exact .inr (List.mem_append_left _ hvictim)
    · rw [inColdOf_recordPut_of_not_victim hkey hvictim]
      rcases h k hk' with hindexed | hmoving
      · exact .inl hindexed
      · have hmem : k ∈ moving := (List.mem_cons.mp hmoving).resolve_left hkey
        exact .inr (List.mem_append_right _ hmem)

lemma CountedExcept.adopt (h : CountedExcept s (key :: moving))
    (htrue : inCold = false → ¬ s.DoublyHeld key)
    (hdropped : ∀ v ∈ (s.index.recordPut key size now inCold pinned).2, ¬ s.DoublyHeld v.key) :
    CountedExcept { s with index := (s.index.recordPut key size now inCold pinned).1 } moving := by
  have hrecorded : CountedExcept
      { s with index := (s.index.recordPut key size now inCold pinned).1 }
      ((s.index.recordPut key size now inCold pinned).2.map Victim.key ++ moving) :=
    h.recordPut htrue
  intro k hk
  rcases hrecorded k hk with hindexed | hmoving
  · exact .inl hindexed
  · rcases List.mem_append.mp hmoving with hvictim | hmem
    · obtain ⟨v, hv, rfl⟩ := List.mem_map.mp hvictim
      exact absurd hk (hdropped v hv)
    · exact .inr hmem

/-! ## The operations -/

namespace TierCount

section Calls

variable {α : Type} {c : StoreCall} {d : IndexCall}

lemma wp_onLocal {post : Except BlobError c.Output → TierState → Prop}
    (hok : post (.ok (c.apply s.localStore).1)
      { s with localStore := (c.apply s.localStore).2 })
    (hfail : ∀ e, CountSafe s (.localStore c) (.error e) → post (.error e) s) :
    wp CountSafeStep (onLocal c).run post s := by
  intro r t hstep
  cases r with
  | error e =>
    obtain ⟨rfl, hsafe⟩ := hstep
    exact hfail e hsafe
  | ok out =>
    obtain ⟨⟨rfl, rfl⟩, -⟩ := hstep
    exact hok

lemma wp_onCold {post : Except BlobError c.Output → TierState → Prop}
    (hok : post (.ok (c.apply s.coldTier).1) { s with coldTier := (c.apply s.coldTier).2 })
    (hfail : ∀ e, post (.error e) s) : wp CountSafeStep (onCold c).run post s := by
  intro r t hstep
  cases r with
  | error e =>
    obtain ⟨rfl, -⟩ := hstep
    exact hfail e
  | ok out =>
    obtain ⟨⟨rfl, rfl⟩, -⟩ := hstep
    exact hok

lemma wp_onIndex {post : d.Output → TierState → Prop}
    (h : ∀ out, d.Returns s.index out → CountSafe s (.index d) out →
      post out { s with index := (d.apply s.index).2 }) :
    wp CountSafeStep (onIndex d) post s := by
  intro out t hstep
  obtain ⟨⟨hreturns, rfl⟩, hsafe⟩ := hstep
  exact h out hreturns hsafe

lemma wp_clockNow {post : ℕ → TierState → Prop} (h : ∀ time, post time s) :
    wp CountSafeStep clockNow post s := by
  intro time t hstep
  obtain ⟨⟨-, rfl⟩, -⟩ := hstep
  exact h time

end Calls

lemma wp_offload (h : CountedExcept s (key :: moving)) :
    wp CountSafeStep (WriteBackTier.offload key inCold).run
      (fun r t => CountedExcept t (key :: moving) ∧ (r = .ok () → key ∉ t.localStore)) s := by
  have hdelete : ∀ {s : TierState}, CountedExcept s (key :: moving) →
      wp CountSafeStep (onLocal (.deleteChunk key)).run
        (fun r t => CountedExcept t (key :: moving) ∧ (r = .ok () → key ∉ t.localStore)) s := by
    intro s h
    apply wp_onLocal
    · refine ⟨h.stores rfl ?_, fun _ => AList.lookup_eq_none.mp (AList.lookup_erase key _)⟩
      intro k hk
      exact .inl ⟨(AList.mem_erase.mp hk.1).2, hk.2⟩
    · exact fun e _ => ⟨h, fun hok => absurd hok (by simp)⟩
  unfold WriteBackTier.offload
  by_cases hflag : inCold = true
  · rw [if_pos hflag]
    exact hdelete h
  · rw [if_neg hflag, wp_bindExcept]
    apply wp_onLocal
    · apply after_ok
      cases hlookup : s.localStore.lookup key with
      | none =>
        simp only [StoreCall.apply, hlookup, Option.elim_none]
        exact ⟨h, fun _ => AList.lookup_eq_none.mp hlookup⟩
      | some b =>
        simp only [StoreCall.apply, hlookup, Option.elim_some]
        rw [wp_bindExcept]
        apply wp_onCold
        · apply after_ok
          apply hdelete
          -- the upload puts only the chunk being moved in both tiers
          refine h.stores rfl ?_
          intro k hk
          rcases (AList.mem_insert _).mp hk.2 with rfl | hcold
          · exact .inr (by simp)
          · exact .inl ⟨hk.1, hcold⟩
        · exact fun e => after_error ⟨h, by simp⟩
    · exact fun e _ => after_error ⟨h, by simp⟩

lemma wp_readopt (h : CountedExcept s (key :: moving)) :
    wp CountSafeStep (WriteBackTier.readopt key inCold) (fun _ t => CountedExcept t moving) s := by
  unfold WriteBackTier.readopt
  rw [wp_bind]
  apply wp_onLocal
  · cases hlookup : s.localStore.lookup key with
    | none =>
      simp only [StoreCall.apply, hlookup, Except.toOption, Option.join_some, Option.elim_none]
      have habsent : key ∉ s.localStore := AList.lookup_eq_none.mp hlookup
      exact h.drop fun hboth => habsent hboth.1
    | some b =>
      simp only [StoreCall.apply, hlookup, Except.toOption, Option.join_some, Option.elim_some]
      rw [wp_bind]
      apply wp_clockNow
      intro time
      apply wp_onIndex
      intro _ _ hsafe
      exact h.adopt hsafe.1 hsafe.2
  · intro e hsafe k hk
    rcases h k hk with hindexed | hmoving
    · exact .inl hindexed
    · rcases List.mem_cons.mp hmoving with rfl | hmem
      · exact .inl (hsafe hk)
      · exact .inr hmem

lemma wp_readoptAll {victims : List Victim} (h : CountedExcept s (victims.map Victim.key)) :
    wp CountSafeStep (victims.forM fun u => WriteBackTier.readopt u.key u.inCold)
      (fun _ t => t.Counted) s := by
  induction victims generalizing s with
  | nil => exact countedExcept_nil.mp h
  | cons v rest ih =>
    show wp CountSafeStep (WriteBackTier.readopt v.key v.inCold >>=
      fun _ => rest.forM fun u => WriteBackTier.readopt u.key u.inCold) _ s
    rw [wp_bind]
    exact wp_mono (wp_readopt h) fun _ t ht => ih ht

lemma wp_offloadVictims {victims : List Victim} (h : CountedExcept s (victims.map Victim.key)) :
    wp CountSafeStep (WriteBackTier.offloadVictims victims) (fun _ t => t.Counted) s := by
  induction victims generalizing s with
  | nil => exact countedExcept_nil.mp h
  | cons v rest ih =>
    rw [WriteBackTier.offloadVictims, wp_bind]
    apply wp_mono (wp_offload h)
    intro r t ht
    by_cases hok : r.isOk = true
    · rw [if_pos hok]
      have hgone : v.key ∉ t.localStore := ht.2 (ExceptRules.isOk_iff.mp hok)
      exact ih (ht.1.drop fun hboth => hgone hboth.1)
    · rw [if_neg hok, wp_bind]
      exact wp_mono (wp_readopt ht.1) fun _ u hu => wp_readoptAll hu

lemma wp_runIdleSweep {idle : ℕ} (h : s.Counted) :
    wp CountSafeStep (WriteBackTier.runIdleSweep idle) (fun _ t => t.Counted) s := by
  unfold WriteBackTier.runIdleSweep
  rw [wp_bind]
  apply wp_clockNow
  intro time
  rw [wp_bind]
  apply wp_onIndex
  intro victims _ _
  apply wp_offloadVictims
  exact (countedExcept_nil.mpr h).mono (by simp)

lemma counted_arrived {bytes : List UInt8} (h : s.Counted) :
    CountedExcept { s with localStore := s.localStore.insert key bytes } [key] := by
  refine ((countedExcept_nil.mpr h).mono (by simp)).stores rfl ?_
  intro k hk
  rcases (AList.mem_insert _).mp hk.1 with rfl | hlocal
  · exact .inr (by simp)
  · exact .inl ⟨hlocal, hk.2⟩

lemma wp_record {α : Type} {rest : TierM α} {post : Except BlobError α → TierState → Prop}
    (h : CountedExcept s [key]) (hrest : ∀ t, t.Counted → wp CountSafeStep rest.run post t) :
    wp CountSafeStep
      (do
        let now ← clockNow
        let victims : List Victim ← onIndex (.recordPut key size now inCold pinned)
        WriteBackTier.offloadVictims victims
        rest : TierM α).run post s := by
  rw [wp_bindExcept, wp_lift]
  apply wp_clockNow
  intro time
  apply after_ok
  rw [wp_bindExcept, wp_lift]
  apply wp_onIndex
  rintro victims rfl hsafe
  apply after_ok
  rw [wp_bindExcept, wp_lift]
  have hrecorded : CountedExcept
      { s with index := (s.index.recordPut key size time inCold pinned).1 }
      ((s.index.recordPut key size time inCold pinned).2.map Victim.key) := by
    simpa only [List.append_nil] using h.recordPut hsafe
  apply wp_mono (wp_offloadVictims hrecorded)
  intro _ t ht
  apply after_ok
  exact hrest t ht

lemma wp_putChunk {bytes : List UInt8} (h : s.Counted) :
    wp CountSafeStep (WriteBackTier.putChunk key bytes).run (fun _ t => t.Counted) s := by
  unfold WriteBackTier.putChunk
  rw [wp_bindExcept]
  apply wp_onLocal
  · apply after_ok
    exact wp_record (counted_arrived h) fun t ht => ht
  · exact fun e _ => after_error h

lemma wp_rehydrate (h : s.Counted) :
    wp CountSafeStep (WriteBackTier.rehydrate key).run (fun _ t => t.Counted) s := by
  unfold WriteBackTier.rehydrate
  rw [wp_bindExcept]
  apply wp_onCold
  · apply after_ok
    cases hlookup : s.coldTier.lookup key with
    | none =>
      simp only [StoreCall.apply, hlookup, Option.elim_none]
      exact h
    | some b =>
      simp only [StoreCall.apply, hlookup, Option.elim_some]
      rw [wp_bindExcept]
      apply wp_onLocal
      · apply after_ok
        exact wp_record (counted_arrived h) fun t ht => ht
      · exact fun e _ => after_error h
  · exact fun e => after_error h

lemma counted_recordHit (h : s.Counted) {out : Unit}
    (hsafe : CountSafe s (.index (.recordHit key size now pinned)) out) :
    TierState.Counted { s with
      index := ((IndexCall.recordHit key size now pinned).apply s.index).2 } := by
  by_cases hcontains : s.index.contains key = true
  · intro k hk
    show ((IndexCall.recordHit key size now pinned).apply s.index).2.inColdOf k = some true
    simp only [IndexCall.apply, hcontains, if_true]
    rw [LocalIndex.inColdOf_recordAccess]
    exact h k hk
  · have hunseen : ¬ s.DoublyHeld key := by
      intro hboth
      obtain ⟨e, he, -⟩ := LocalIndex.inColdOf_eq_some.mp (h key hboth)
      exact hcontains (by simp [LocalIndex.contains, he])
    have hadopted : CountedExcept
        { s with index := (s.index.recordPut key size now false pinned).1 } [] := by
      apply ((countedExcept_nil.mpr h).mono (by simp)).adopt
      · exact fun _ => hunseen
      · exact hsafe (by simpa using hcontains)
    have hcounted := countedExcept_nil.mp hadopted
    simpa [IndexCall.apply, hcontains] using hcounted

lemma wp_getChunk (h : s.Counted) :
    wp CountSafeStep (WriteBackTier.getChunk key).run (fun _ t => t.Counted) s := by
  unfold WriteBackTier.getChunk
  rw [wp_bindExcept]
  apply wp_onLocal
  · apply after_ok
    cases hlookup : s.localStore.lookup key with
    | none =>
      simp only [StoreCall.apply, hlookup, Option.elim_none]
      exact wp_rehydrate h
    | some b =>
      simp only [StoreCall.apply, hlookup, Option.elim_some]
      rw [wp_bindExcept, wp_lift]
      apply wp_clockNow
      intro time
      apply after_ok
      rw [wp_bindExcept, wp_lift]
      apply wp_onIndex
      intro _ _ hsafe
      apply after_ok
      exact counted_recordHit h hsafe
  · exact fun e _ => after_error h

end TierCount

/-- Counting changes nothing.  A failing cold tier leaves the local count; otherwise the result is
the tiered count. -/
lemma wp_chunkCount {blobRef : String} :
    wp TierCall.Step (WriteBackTier.chunkCount blobRef).run
      (fun r t => t = s ∧
        ∀ n, r = .ok n → n = s.localStore.chunkCount blobRef ∨ n = s.tieredCount blobRef) s := by
  unfold WriteBackTier.chunkCount
  rw [wp_bindExcept]
  intro r t hstep
  cases r with
  | error e =>
    obtain rfl : t = s := hstep
    exact after_error ⟨rfl, by simp⟩
  | ok localCount =>
    obtain ⟨rfl, rfl⟩ := hstep
    apply after_ok
    rw [wp_bindExcept, wp_lift]
    intro r t hstep
    apply after_ok
    cases r with
    | error e =>
      obtain rfl := hstep
      refine ⟨rfl, ?_⟩
      rintro n ⟨⟩
      exact .inl rfl
    | ok coldCount =>
      obtain ⟨rfl, rfl⟩ := hstep
      simp only [Except.toOption, Option.elim_some]
      rw [wp_bindExcept, wp_lift]
      rintro overlap t ⟨rfl, rfl⟩
      apply after_ok
      refine ⟨rfl, ?_⟩
      rintro n ⟨⟩
      exact .inr rfl

/-! ## Runs -/

/-- The operation deletes nothing. -/
def TierOp.Retains : TierOp → Prop
  | deleteStream _ => False
  | deleteChunk _ => False
  | _ => True

/-- One operation after another from empty stores, each to its end or cut off by a restart.  The
parameters say which calls and which restarts there may be. -/
inductive TierRun (step : (c : TierCall) → TierState → c.Response → TierState → Prop)
    (mayRestart : TierState → Prop) (idle capacityBytes : ℕ) : TierState → Prop
  | fresh (clock : ℕ) :
      TierRun step mayRestart idle capacityBytes (TierState.fresh capacityBytes clock)
  | completes {op : TierOp} {s t : TierState} {r : Except BlobError TierReply} :
      TierRun step mayRestart idle capacityBytes s → op.Retains →
      Exec step (op.program idle).run s (some r) t →
      TierRun step mayRestart idle capacityBytes t
  | restarts {op : TierOp} {s t : TierState} :
      TierRun step mayRestart idle capacityBytes s → op.Retains →
      Exec step (op.program idle).run s none t → mayRestart t →
      TierRun step mayRestart idle capacityBytes t.restart

namespace TierCount

lemma wp_program {op : TierOp} {idle : ℕ} (hop : op.Retains) (h : s.Counted) :
    wp CountSafeStep (op.program idle).run (fun _ t => t.Counted) s := by
  have hreply : ∀ {α : Type} {x : TierM α} {reply : α → TierReply},
      wp CountSafeStep x.run (fun _ t => t.Counted) s →
      wp CountSafeStep (x >>= fun a => pure (reply a)).run (fun _ t => t.Counted) s := by
    intro α x reply hx
    rw [wp_bindExcept]
    apply wp_mono hx
    intro _ t ht
    exact ⟨fun _ _ => ht, fun _ _ => ht⟩
  cases op with
  | putChunk key bytes => exact hreply (wp_putChunk h)
  | getChunk key => exact hreply (wp_getChunk h)
  | runIdleSweep => exact hreply (wp_lift.mpr (wp_runIdleSweep h))
  | chunkCount blobRef =>
    apply hreply
    apply wp_step_mono (fun c s r t hstep => hstep.1)
    apply wp_mono wp_chunkCount
    rintro _ t ⟨rfl, -⟩
    exact h
  | deleteStream blobRef => exact absurd hop id
  | deleteChunk key => exact absurd hop id
  | setClock time =>
    apply hreply
    rw [wp_lift]
    rintro r t ⟨hstep, -⟩
    obtain rfl : t = { s with clock := time } := hstep
    exact h

end TierCount

/-- In a run without the harmful calls, restarted only while no chunk is in both tiers, the index
knows every chunk that both tiers hold. -/
lemma tierRun_counted {idle capacityBytes : ℕ}
    (hrun : TierRun CountSafeStep TierState.RestartSafe idle capacityBytes s) :
    s.Counted := by
  induction hrun with
  | fresh clock => exact fun key h => absurd h.1 (AList.notMem_empty key)
  | completes _ hop hexec ih => exact wp_sound hexec (TierCount.wp_program hop ih)
  | restarts _ _ _ hrestart _ => exact fun key h => absurd h (hrestart key)

/-- In such a run the count is never above the number of distinct indices held. -/
theorem chunkCount_le_held {idle capacityBytes : ℕ}
    (hrun : TierRun CountSafeStep TierState.RestartSafe idle capacityBytes s)
    {blobRef : String} {n : ℕ}
    (hcount : Exec TierCall.Step (WriteBackTier.chunkCount blobRef).run s (some (.ok n)) t) :
    n ≤ (s.heldKeys blobRef).card := by
  obtain ⟨-, hn⟩ := wp_sound hcount wp_chunkCount
  rcases hn n rfl with rfl | rfl
  · exact TierState.localCount_le
  · exact TierState.tieredCount_le (tierRun_counted hrun)

instance decidableDoublyHeld (s : TierState) (key : ChunkKey) : Decidable (s.DoublyHeld key) :=
  inferInstanceAs (Decidable (key ∈ s.localStore ∧ key ∈ s.coldTier))

instance decidableCountSafe (s : TierState) : (c : TierCall) → (r : c.Response) →
    Decidable (CountSafe s c r)
  | .index (.recordPut key _ _ inCold _), _ =>
    inferInstanceAs (Decidable (inCold = false → ¬ s.DoublyHeld key))
  | .index (.readopt key size now inCold), _ =>
    inferInstanceAs (Decidable ((inCold = false → ¬ s.DoublyHeld key) ∧
      ∀ v ∈ (s.index.recordPut key size now inCold false).2, ¬ s.DoublyHeld v.key))
  | .index (.recordHit key size now pinned), _ =>
    inferInstanceAs (Decidable (s.index.contains key = false →
      ∀ v ∈ (s.index.recordPut key size now false pinned).2, ¬ s.DoublyHeld v.key))
  | .index (.idleVictims _ _), _ => .isTrue trivial
  | .index (.overlapCount _), _ => .isTrue trivial
  | .index (.remove _), _ => .isTrue trivial
  | .index (.removeStream _), _ => .isTrue trivial
  | .localStore (.getChunk key), .error _ =>
    inferInstanceAs (Decidable (s.DoublyHeld key → s.index.inColdOf key = some true))
  | .localStore (.getChunk _), .ok _ => .isTrue trivial
  | .localStore (.putChunk _ _), _ => .isTrue trivial
  | .localStore (.chunkCount _), _ => .isTrue trivial
  | .localStore (.deleteStream _), _ => .isTrue trivial
  | .localStore (.deleteChunk _), _ => .isTrue trivial
  | .coldTier _, _ => .isTrue trivial
  | .now, _ => .isTrue trivial
  | .setClock _, _ => .isTrue trivial

/-- The operations of `evictingRun`, one after another. -/
def evictingOps : List TierOp :=
  [.putChunk ⟨"ab/1/1", 0⟩ [7], .putChunk ⟨"ab/1/1", 1⟩ [7], .getChunk ⟨"ab/1/1", 0⟩]

/-- The state after one more operation, no call failing. -/
def TierState.after (idle : ℕ) (s : TierState) (op : TierOp) : TierState :=
  ((op.program idle).run.eval TierCall.succeed s).2

/-- The state after operations one after another from empty stores. -/
def tierStateAfter (idle capacityBytes : ℕ) (ops : List TierOp) : TierState :=
  ops.foldl (TierState.after idle) (TierState.fresh capacityBytes 0)

lemma tierRun_after {idle capacityBytes : ℕ} {op : TierOp}
    (hrun : TierRun CountSafeStep TierState.RestartSafe idle capacityBytes s) (hop : op.Retains)
    (hok : EvalAll TierCall.succeed (fun c s r => CountSafe s c r) (op.program idle).run s) :
    TierRun CountSafeStep TierState.RestartSafe idle capacityBytes (s.after idle op) :=
  .completes hrun hop (exec_evalAll (fun c s => (c.step_succeed s).1) _ s hok)

lemma tierRun_stateAfter {mayRestart : TierState → Prop} {idle capacityBytes : ℕ}
    {ops : List TierOp} (hops : ∀ op ∈ ops, op.Retains)
    (hrun : TierRun TierCall.Step mayRestart idle capacityBytes s) :
    TierRun TierCall.Step mayRestart idle capacityBytes (ops.foldl (TierState.after idle) s) := by
  induction ops generalizing s with
  | nil => exact hrun
  | cons op ops ih =>
    have hfirst := TierRun.completes hrun (hops op (by simp))
      (exec_eval (fun c s => (c.step_succeed s).1) _ s)
    exact ih (fun op' hop' => hops op' (List.mem_cons_of_mem op hop')) hfirst

/-- The first chunk was moved to the cold tier and read back, and is counted once. -/
theorem chunkCount_le_held_evicted :
    2 ≤ ((tierStateAfter 0 1 evictingOps).heldKeys "ab/1/1").card := by
  have hfresh : TierRun CountSafeStep TierState.RestartSafe 0 1 (TierState.fresh 1 0) := .fresh 0
  have hput : TierRun CountSafeStep TierState.RestartSafe 0 1
      (tierStateAfter 0 1 [.putChunk ⟨"ab/1/1", 0⟩ [7]]) :=
    tierRun_after hfresh trivial (by decide +kernel)
  have hevicted : TierRun CountSafeStep TierState.RestartSafe 0 1
      (tierStateAfter 0 1 [.putChunk ⟨"ab/1/1", 0⟩ [7], .putChunk ⟨"ab/1/1", 1⟩ [7]]) :=
    tierRun_after hput trivial (by decide +kernel)
  have hread : TierRun CountSafeStep TierState.RestartSafe 0 1 (tierStateAfter 0 1 evictingOps) :=
    tierRun_after hevicted trivial (by decide +kernel)
  have hexec := exec_eval (fun c s => (c.step_succeed s).1)
    (WriteBackTier.chunkCount "ab/1/1").run (tierStateAfter 0 1 evictingOps)
  have hcount : ((WriteBackTier.chunkCount "ab/1/1").run.eval TierCall.succeed
      (tierStateAfter 0 1 evictingOps)).1 = .ok 2 := by
    decide +kernel
  rw [hcount] at hexec
  exact chunkCount_le_held hread hexec

/-- The chunk that was read back is in both tiers, and a restart makes the index forget it: it is
then counted twice. -/
theorem chunkCount_overcounts :
    ¬ ∀ (idle capacityBytes : ℕ) (s t : TierState) (blobRef : String) (n : ℕ),
      TierRun TierCall.Step (fun _ => True) idle capacityBytes s →
      Exec TierCall.Step (WriteBackTier.chunkCount blobRef).run s (some (.ok n)) t →
      n ≤ (s.heldKeys blobRef).card := by
  intro h
  have hops : ∀ op ∈ evictingOps, op.Retains := by
    intro op hop
    simp only [evictingOps, List.mem_cons, List.not_mem_nil, or_false] at hop
    rcases hop with rfl | rfl | rfl
    · exact trivial
    · exact trivial
    · exact trivial
  have hrun : TierRun TierCall.Step (fun _ => True) 0 1 (tierStateAfter 0 1 evictingOps) :=
    tierRun_stateAfter hops (.fresh 0)
  have hcut : Exec TierCall.Step (TierOp.runIdleSweep.program 0).run
      (tierStateAfter 0 1 evictingOps) none (tierStateAfter 0 1 evictingOps) := .cut _ _
  have hsweep : TierOp.runIdleSweep.Retains := trivial
  have hrestarted : TierRun TierCall.Step (fun _ => True) 0 1
      (tierStateAfter 0 1 evictingOps).restart := .restarts hrun hsweep hcut trivial
  have hexec := exec_eval (fun c s => (c.step_succeed s).1)
    (WriteBackTier.chunkCount "ab/1/1").run (tierStateAfter 0 1 evictingOps).restart
  have hcount : ((WriteBackTier.chunkCount "ab/1/1").run.eval TierCall.succeed
      (tierStateAfter 0 1 evictingOps).restart).1 = .ok 3 := by
    decide +kernel
  rw [hcount] at hexec
  have hle := h 0 1 _ _ "ab/1/1" 3 hrestarted hexec
  have hheld : ((tierStateAfter 0 1 evictingOps).restart.heldKeys "ab/1/1").card = 2 := by
    decide +kernel
  omega

end MaxSecu
