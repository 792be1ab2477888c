import MaxSecu.Framework.GuardedUpdate
import MaxSecu.Framework.Machine
import MaxSecu.Server.CacheIndex

/-!
# A hot cache in front of the cold tier

Writes go through the cache to the cold tier, which is written first; reads fill the cache, and the
index drops from it what does not fit.  Any call of either store may fail, without effect; the
operation then ends there, and what it did before stays.

To its callers the two stores are one: an operation that is answered is answered as by the cold tier
alone.  That holds along a run exactly as long as no write reaches the cold tier and then fails to
drop from the cache what it replaced (`tiered_transparent_iff`).
-/

namespace MaxSecu

open AssociationList ExceptRules GuardedUpdate

/-- The cache, the cold tier and the index of the cache. -/
structure TieredBlobStore where
  cache : ChunkStore
  cold : ChunkStore
  index : CacheIndex

/-- Which calls of an operation fail. -/
structure TierFaults where
  cold : Option BlobError
  read : Option BlobError
  /-- The write to the cache, or the deletion from it. -/
  write : Option BlobError
  evict : ChunkKey → Option BlobError

inductive TierFailure
  | blob (e : BlobError)
  /-- The arithmetic of the index left its range. -/
  | panicked

/-! ## Operations -/

namespace TieredBlobStore

abbrev Operation (α : Type) := ExceptT TierFailure (StateM TieredBlobStore) α

def new (capacityBytes : UInt64) : TieredBlobStore := ⟨∅, ∅, .new capacityBytes⟩

def onCache (c : StoreCall) (fault : Option BlobError) : Operation c.Output :=
  fault.elim
    (do
      let t ← get
      set { t with cache := (c.apply t.cache).2 }
      pure (c.apply t.cache).1)
    fun e => throw (.blob e)

def onCold (c : StoreCall) (fault : Option BlobError) : Operation c.Output :=
  fault.elim
    (do
      let t ← get
      set { t with cold := (c.apply t.cold).2 }
      pure (c.apply t.cold).1)
    fun e => throw (.blob e)

/-- A section under the lock of the index. -/
def onIndex {α : Type} (section_ : CacheIndex → Option (CacheIndex × α)) : Operation α := do
  let t ← get
  let done ← orFail (section_ t.index) .panicked
  set { t with index := done.1 }
  pure done.2

/-- Delete the victims from the cache, up to the first failure. -/
def evictAll (faults : TierFaults) : List ChunkKey → Operation Unit
  | [] => pure ()
  | k :: ks => do
    onCache (.deleteChunk k) (faults.evict k)
    evictAll faults ks

def cacheAndEvict (key : ChunkKey) (size : UInt64) (faults : TierFaults) : Operation Unit := do
  let victims ← onIndex fun index => index.recordInsert key size
  evictAll faults victims

/-- The cold tier is written first. -/
def writeThrough (c : StoreCall) (faults : TierFaults) : Operation c.Output := do
  let _ ← onCold c faults.cold
  onCache c faults.write

def putChunk (key : ChunkKey) (bytes : List UInt8) (faults : TierFaults) : Operation Unit := do
  writeThrough (.putChunk key bytes) faults
  cacheAndEvict key (UInt64.ofNat bytes.length) faults

def getChunk (key : ChunkKey) (faults : TierFaults) : Operation (Option (List UInt8)) := do
  let hit : Option (List UInt8) ← onCache (.getChunk key) faults.read
  hit.elim
    (do
      let fetched : Option (List UInt8) ← onCold (.getChunk key) faults.cold
      fetched.elim (pure none) fun bytes => do
        onCache (.putChunk key bytes) faults.write
        cacheAndEvict key (UInt64.ofNat bytes.length) faults
        pure (some bytes))
    fun bytes => do
      onIndex fun index => some (index.recordAccess key, ())
      pure (some bytes)

/-- The cache may hold a part only. -/
def chunkCount (blobRef : String) (faults : TierFaults) : Operation ℕ :=
  onCold (.chunkCount blobRef) faults.cold

def deleteStream (blobRef : String) (faults : TierFaults) : Operation Unit := do
  writeThrough (.deleteStream blobRef) faults
  let _ ← onIndex fun index => index.removeStream blobRef

def deleteChunk (key : ChunkKey) (faults : TierFaults) : Operation Unit := do
  writeThrough (.deleteChunk key) faults
  let _ ← onIndex fun index => index.remove key

def perform : (c : StoreCall) → TierFaults → Operation c.Output
  | .putChunk key bytes, faults => putChunk key bytes faults
  | .getChunk key, faults => getChunk key faults
  | .chunkCount blobRef, faults => chunkCount blobRef faults
  | .deleteStream blobRef, faults => deleteStream blobRef faults
  | .deleteChunk key, faults => deleteChunk key faults

end TieredBlobStore

/-- One operation after the other, with the calls of each that fail. -/
def tiered (capacityBytes : UInt64) : Machine TieredBlobStore (StoreCall × TierFaults) Empty where
  init := .new capacityBytes
  step t x := ((runFrom (TieredBlobStore.perform x.1 x.2) t).2, [])

/-! ## What is seen of the two stores -/

/-- What a call makes of the chunk at a key. -/
def StoreCall.after : StoreCall → ChunkKey → Option (List UInt8) → Option (List UInt8)
  | .putChunk key bytes, k, held => if k = key then some bytes else held
  | .deleteStream blobRef, k, held => if k.blobRef = blobRef then none else held
  | .deleteChunk key, k, held => if k = key then none else held
  | _, _, held => held

lemma StoreCall.lookup_apply (c : StoreCall) (store : ChunkStore) (k : ChunkKey) :
    (c.apply store).2.lookup k = c.after k (store.lookup k) := by
  cases c with
  | putChunk key bytes => exact lookup_insert_eq
  | deleteStream blobRef => exact ChunkStore.lookup_deleteStream
  | deleteChunk key =>
    show (store.erase key).lookup k = if k = key then none else store.lookup k
    by_cases hk : k = key
    · rw [if_pos hk, hk, AList.lookup_erase]
    · rw [if_neg hk, AList.lookup_erase_ne hk]
  | getChunk key => rfl
  | chunkCount blobRef => rfl

/-- What is there after a call on nothing, the call has put. -/
lemma StoreCall.after_of_none {c : StoreCall} {k : ChunkKey} {b : List UInt8}
    (h : c.after k none = some b) (held : Option (List UInt8)) : c.after k held = some b := by
  cases c with
  | putChunk key bytes =>
    simp only [StoreCall.after] at h ⊢
    by_cases hk : k = key
    · rwa [if_pos hk] at h ⊢
    · simp [hk] at h
  | deleteStream blobRef => simp [StoreCall.after] at h
  | deleteChunk key => simp [StoreCall.after] at h
  | getChunk key => cases h
  | chunkCount blobRef => cases h

namespace TieredBlobStore

variable {t t' u : TieredBlobStore} {c : StoreCall} {faults : TierFaults}

/-- An operation that is answered does to the cold tier, and answers, what the call would alone. -/
def Transparent (t : TieredBlobStore) : Prop :=
  ∀ c faults out t', runFrom (perform c faults) t = (.ok out, t') → (out, t'.cold) = c.apply t.cold

/-- The call gets to the cold tier, and then fails to take from the cache what it replaces. -/
def LeavesStale (t : TieredBlobStore) (x : StoreCall × TierFaults) : Prop :=
  x.2.cold = none ∧ x.2.write ≠ none ∧ ∃ k b, t.cache.lookup k = some b ∧
    x.1.after k (some b) ≠ some b

/-- The cache holds nothing that the cold tier does not. -/
def Coherent (t : TieredBlobStore) : Prop :=
  ∀ k b, t.cache.lookup k = some b → t.cold.lookup k = some b

/-- The cold tier is left alone, and the cache only loses chunks. -/
def Shrinks (t u : TieredBlobStore) : Prop :=
  u.cold = t.cold ∧ ∀ k b, u.cache.lookup k = some b → t.cache.lookup k = some b

lemma Shrinks.refl (t : TieredBlobStore) : Shrinks t t := ⟨rfl, fun _ _ h => h⟩

lemma Shrinks.coherent (h : Shrinks t u) (ht : t.Coherent) : u.Coherent := by
  intro k b hcached
  rw [h.1]
  exact ht k b (h.2 k b hcached)

/-! ## Parts of operations -/

section Parts

variable {α β : Type} {f : α → Operation β}

lemma runFrom_onCold_bind {f : c.Output → Operation β} (fault : Option BlobError) :
    runFrom (onCold c fault >>= f) t = fault.elim
      (runFrom (f (c.apply t.cold).1) { t with cold := (c.apply t.cold).2 })
      fun e => (.error (.blob e), t) := by
  cases fault <;> rfl

lemma runFrom_onCache_bind {f : c.Output → Operation β} (fault : Option BlobError) :
    runFrom (onCache c fault >>= f) t = fault.elim
      (runFrom (f (c.apply t.cache).1) { t with cache := (c.apply t.cache).2 })
      fun e => (.error (.blob e), t) := by
  cases fault <;> rfl

lemma shrinks_onIndex (section_ : CacheIndex → Option (CacheIndex × α)) (f : α → Operation β)
    (hf : ∀ a u, Shrinks t u → Shrinks t (runFrom (f a) u).2) :
    Shrinks t (runFrom (onIndex section_ >>= f) t).2 := by
  unfold onIndex
  cases hdone : section_ t.index with
  | none =>
    simp only [bind_assoc, runFrom_get_bind, runFrom_orFail_bind, hdone, Option.elim]
    exact .refl t
  | some done =>
    simp only [bind_assoc, runFrom_get_bind, runFrom_orFail_bind, hdone, Option.elim]
    exact hf done.2 _ ⟨rfl, fun _ _ h => h⟩

lemma shrinks_evictAll (faults : TierFaults) (ks : List ChunkKey) (h : Shrinks t u) :
    Shrinks t (runFrom (evictAll faults ks) u).2 := by
  induction ks generalizing u with
  | nil => exact h
  | cons k ks ih =>
    unfold evictAll
    rw [runFrom_onCache_bind]
    cases faults.evict k with
    | some e => exact h
    | none =>
      refine ih ⟨h.1, fun a b hcached => h.2 a b ?_⟩
      have hlookup : (u.cache.erase k).lookup a = some b := hcached
      by_cases ha : a = k
      · rw [ha, AList.lookup_erase] at hlookup
        cases hlookup
      · rwa [AList.lookup_erase_ne ha] at hlookup

lemma shrinks_cacheAndEvict (key : ChunkKey) (size : UInt64) (faults : TierFaults) :
    Shrinks t (runFrom (cacheAndEvict key size faults) t).2 :=
  shrinks_onIndex _ _ fun ks _ h => shrinks_evictAll faults ks h

end Parts

/-- A write that fails in the cache changes the cold tier only; one that does not changes both. -/
lemma runFrom_writeThrough_bind {β : Type} {f : c.Output → Operation β} :
    runFrom (writeThrough c faults >>= f) t = faults.cold.elim
      (faults.write.elim
        (runFrom (f (c.apply t.cache).1)
          { t with cache := (c.apply t.cache).2, cold := (c.apply t.cold).2 })
        fun e => (.error (.blob e), { t with cold := (c.apply t.cold).2 }))
      fun e => (.error (.blob e), t) := by
  unfold writeThrough
  rw [bind_assoc, runFrom_onCold_bind]
  cases faults.cold with
  | some e => rfl
  | none => exact runFrom_onCache_bind faults.write

/-! ## Writes -/

/-- The cache and the cold tier stay alike when both take the call. -/
lemma Coherent.both (h : t.Coherent) (c : StoreCall) :
    Coherent { t with cache := (c.apply t.cache).2, cold := (c.apply t.cold).2 } := by
  intro k b hcached
  simp only [StoreCall.lookup_apply] at hcached ⊢
  cases hheld : t.cache.lookup k with
  | none => exact StoreCall.after_of_none (hheld ▸ hcached) _
  | some b' =>
    rw [h k b' hheld]
    exact hheld ▸ hcached

/-- A write, and what follows it.  If it is answered, it got to the cold tier. -/
lemma Coherent.writes (h : t.Coherent) {f : c.Output → Operation Unit}
    (hf : ∀ out u, Shrinks u (runFrom (f out) u).2) :
    (¬ t.LeavesStale (c, faults) → (runFrom (writeThrough c faults >>= f) t).2.Coherent) ∧
      ∀ out t', runFrom (writeThrough c faults >>= f) t = (.ok out, t') →
        t'.cold = (c.apply t.cold).2 := by
  rw [runFrom_writeThrough_bind]
  cases hcold : faults.cold with
  | some e => exact ⟨fun _ => h, fun out t' hrun => by cases hrun⟩
  | none =>
    cases hwrite : faults.write with
    | some e =>
      refine ⟨fun hstale k b hcached => ?_, fun out t' hrun => by cases hrun⟩
      by_contra hlost
      change (c.apply t.cold).2.lookup k ≠ some b at hlost
      rw [StoreCall.lookup_apply, h k b hcached] at hlost
      exact hstale ⟨hcold, by simp [hwrite], k, b, hcached, hlost⟩
    | none =>
      refine ⟨fun _ => (hf _ _).coherent (h.both c), fun out t' hrun => ?_⟩
      have hshrinks := hf (c.apply t.cache).1
        { t with cache := (c.apply t.cache).2, cold := (c.apply t.cold).2 }
      rw [show runFrom (f _) _ = _ from hrun] at hshrinks
      exact hshrinks.1

/-! ## Reads -/

/-- A read answers what the cold tier holds, and leaves it alone. -/
def Reads (t : TieredBlobStore) (key : ChunkKey)
    (r : Except TierFailure (Option (List UInt8)) × TieredBlobStore) : Prop :=
  r.2.cold = t.cold ∧ r.2.Coherent ∧ ∀ out, r.1 = .ok out → out = t.cold.lookup key

lemma reads_bind_pure {α : Type} {x : Operation α} {key : ChunkKey} {b : List UInt8}
    (hu : u.Coherent) (hcold : u.cold = t.cold) (hb : t.cold.lookup key = some b)
    (hx : Shrinks u (runFrom x u).2) : Reads t key (runFrom (x >>= fun _ => pure (some b)) u) := by
  rw [runFrom_bind]
  rcases hrun : runFrom x u with ⟨r, v⟩
  rw [hrun] at hx
  have hv := hx.coherent hu
  cases r with
  | error e => exact ⟨hx.1.trans hcold, hv, fun out hout => by cases hout⟩
  | ok _ => exact ⟨hx.1.trans hcold, hv, fun out hout => (Except.ok.inj hout).symm.trans hb.symm⟩

lemma Coherent.getChunk (h : t.Coherent) (key : ChunkKey) (faults : TierFaults) :
    Reads t key (runFrom (TieredBlobStore.getChunk key faults) t) := by
  have hfails : ∀ {u : TieredBlobStore} {e : TierFailure}, u.Coherent → u.cold = t.cold →
      Reads t key (.error e, u) := fun hu hcold => ⟨hcold, hu, fun out hout => by cases hout⟩
  unfold TieredBlobStore.getChunk
  rw [runFrom_onCache_bind]
  cases faults.read with
  | some e => exact hfails h rfl
  | none =>
    show Reads t key (runFrom ((t.cache.lookup key).elim _ _) t)
    cases hcached : t.cache.lookup key with
    | some b => exact reads_bind_pure h rfl (h key b hcached) ⟨rfl, fun _ _ hc => hc⟩
    | none =>
      rw [Option.elim_none, runFrom_onCold_bind]
      cases faults.cold with
      | some e => exact hfails h rfl
      | none =>
        show Reads t key (runFrom ((t.cold.lookup key).elim _ _) t)
        cases hfetched : t.cold.lookup key with
        | none => exact ⟨rfl, h, fun out hout => (Except.ok.inj hout).symm.trans hfetched.symm⟩
        | some b =>
          rw [Option.elim_some, runFrom_onCache_bind]
          cases faults.write with
          | some e => exact hfails h rfl
          | none =>
            refine reads_bind_pure (fun k b' hk => ?_) rfl hfetched (shrinks_cacheAndEvict ..)
            have hlookup : (t.cache.insert key b).lookup k = some b' := hk
            obtain ⟨rfl, rfl⟩ | ⟨-, hold⟩ := lookup_insert_cases hlookup
            · exact hfetched
            · exact h k b' hold

/-! ## Runs -/

/-- What is answered from a cache like the cold tier is answered as by the cold tier. -/
lemma Coherent.perform (h : t.Coherent) (c : StoreCall) (faults : TierFaults) :
    (¬ t.LeavesStale (c, faults) → (runFrom (perform c faults) t).2.Coherent) ∧
      ∀ out t', runFrom (perform c faults) t = (.ok out, t') →
        (out, t'.cold) = c.apply t.cold := by
  have hwrites : ∀ {c : StoreCall} {f : c.Output → Operation Unit},
      (∀ out u, Shrinks u (runFrom (f out) u).2) → ∀ r, r = runFrom (writeThrough c faults >>= f) t →
        (¬ t.LeavesStale (c, faults) → r.2.Coherent) ∧
          ∀ out t', r = (.ok out, t') → ((), t'.cold) = ((), (c.apply t.cold).2) := by
    rintro c f hf _ rfl
    exact ⟨(h.writes hf).1, fun out t' hrun => Prod.ext rfl ((h.writes hf).2 out t' hrun)⟩
  cases c with
  | putChunk key bytes => exact hwrites (fun _ _ => shrinks_cacheAndEvict ..) _ rfl
  | getChunk key =>
    obtain ⟨hcold, hcoherent, hout⟩ := h.getChunk key faults
    refine ⟨fun _ => hcoherent, fun out t' hrun => ?_⟩
    rw [show runFrom (TieredBlobStore.getChunk key faults) t = _ from hrun] at hcold hout
    exact Prod.ext (hout out rfl) hcold
  | chunkCount blobRef =>
    show (_ → (runFrom (TieredBlobStore.chunkCount blobRef faults) t).2.Coherent) ∧
      ∀ out t', runFrom (TieredBlobStore.chunkCount blobRef faults) t = (.ok out, t') → _
    unfold TieredBlobStore.chunkCount onCold
    cases faults.cold with
    | some e => exact ⟨fun _ => h, fun out t' hrun => by cases hrun⟩
    | none => exact ⟨fun _ => h, fun out t' hrun => by cases hrun; rfl⟩
  | deleteStream blobRef =>
    refine hwrites ?_ _ rfl
    exact fun _ _ => shrinks_onIndex _ _ fun _ _ hu => hu
  | deleteChunk key =>
    refine hwrites ?_ _ rfl
    exact fun _ _ => shrinks_onIndex _ _ fun _ _ hu => hu

/-- The cold tier has another chunk than the cache, or none, and a read finds that in the cache. -/
lemma not_transparent_of_leavesStale (h : t.Coherent) (hstale : t.LeavesStale (c, faults)) :
    ¬ (runFrom (perform c faults) t).2.Transparent := by
  obtain ⟨hcold, hwrite, k, b, hcached, hlost⟩ := hstale
  obtain ⟨e, hwrite⟩ := Option.ne_none_iff_exists'.mp hwrite
  have hwrites : ∀ f : c.Output → Operation Unit, (runFrom (writeThrough c faults >>= f) t).2 =
      { t with cold := (c.apply t.cold).2 } := by
    intro f
    rw [runFrom_writeThrough_bind, hcold, hwrite]
    rfl
  have hafter : (runFrom (perform c faults) t).2 = { t with cold := (c.apply t.cold).2 } := by
    cases c with
    | putChunk key bytes => exact hwrites _
    | deleteStream blobRef => exact hwrites _
    | deleteChunk key => exact hwrites _
    | getChunk key => exact absurd rfl hlost
    | chunkCount blobRef => exact absurd rfl hlost
  rw [hafter]
  intro htransparent
  have hread := htransparent (.getChunk k) ⟨none, none, none, fun _ => none⟩ (some b) _ (by
    show runFrom (TieredBlobStore.getChunk k _) _ = _
    unfold TieredBlobStore.getChunk
    rw [runFrom_onCache_bind]
    show runFrom ((t.cache.lookup k).elim _ _) _ = _
    rw [hcached]
    rfl)
  have hlookup : some b = (c.apply t.cold).2.lookup k := congrArg Prod.fst hread
  rw [StoreCall.lookup_apply, h k b hcached] at hlookup
  exact hlost hlookup.symm

/-- **The two stores are one.**  Along any run of operations, whatever calls fail, every operation
that is answered would be answered so by the cold tier alone, exactly if no write gets to the cold
tier and then fails to take from the cache a chunk that it replaces or deletes. -/
theorem tiered_transparent_iff (capacityBytes : UInt64) (calls : List (StoreCall × TierFaults)) :
    (∀ done, done <+: calls → ((tiered capacityBytes).run done).1.Transparent) ↔
      ∀ done x, done ++ [x] <+: calls → ¬ ((tiered capacityBytes).run done).1.LeavesStale x :=
  @Machine.run_iff _ _ _ (tiered capacityBytes) (fun _ t => t.Coherent) (fun _ t => t.Transparent)
    (fun t x => ¬ t.LeavesStale x) (fun _ _ hcached => by cases hcached)
    (fun _ _ h c faults => (h.perform c faults).2) (fun _ _ x h => (h.perform x.1 x.2).1)
    (fun _ _ _ h hgood hstale => not_transparent_of_leavesStale h hstale hgood) calls

end TieredBlobStore

end MaxSecu
