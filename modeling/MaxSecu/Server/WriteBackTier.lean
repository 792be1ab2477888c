import MaxSecu.Framework.Interleaving
import MaxSecu.Server.LocalIndex

/-!
# The write-back tier

A chunk is put on the local store only.  It moves to the cold tier when it has been idle or when
room is needed, and a later read copies it back; the cold copy stays.

Each operation is a program whose calls are the calls to the two stores, the sections under the
index lock and the reads of the clock.  A store call may fail, and then has no effect.
-/

namespace MaxSecu

/-- The two stores, the index of the local one, and the time. -/
structure TierState where
  localStore : ChunkStore
  coldTier : ChunkStore
  index : LocalIndex
  clock : ℕ

/-! ## Calls -/

/-- The sections that hold the index lock. -/
inductive IndexCall
  | recordPut (key : ChunkKey) (size now : ℕ) (inCold pinned : Bool)
  | recordHit (key : ChunkKey) (size now : ℕ) (pinned : Bool)
  | readopt (key : ChunkKey) (size now : ℕ) (inCold : Bool)
  | idleVictims (now idle : ℕ)
  | overlapCount (blobRef : String)
  | remove (key : ChunkKey)
  | removeStream (blobRef : String)

namespace IndexCall

@[reducible] def Output : IndexCall → Type
  | recordPut _ _ _ _ _ => List Victim
  | recordHit _ _ _ _ => Unit
  | readopt _ _ _ _ => Unit
  | idleVictims _ _ => List Victim
  | overlapCount _ => ℕ
  | remove _ => Unit
  | removeStream _ => Unit

/-- A hit on an unseen chunk adopts it, and a chunk still local after a failed offload is adopted
again.  Both drop the victims of the recording. -/
def apply : (c : IndexCall) → LocalIndex → c.Output × LocalIndex
  | recordPut key size now inCold pinned, index =>
    let (after, victims) := index.recordPut key size now inCold pinned
    (victims, after)
  | recordHit key size now pinned, index =>
    ((), if index.contains key then index.recordAccess key now
      else (index.recordPut key size now false pinned).1)
  | readopt key size now inCold, index => ((), (index.recordPut key size now inCold false).1)
  | idleVictims now idle, index => (index.idleVictims now idle, index)
  | overlapCount blobRef, index => (index.overlapCount blobRef, index)
  | remove key, index => ((), index.remove key)
  | removeStream blobRef, index => ((), index.removeStream blobRef)

/-- The idle victims come in any order, since the index is a hash map. -/
def Returns : (c : IndexCall) → LocalIndex → c.Output → Prop
  | idleVictims now idle, index, victims => victims.Perm (index.idleVictims now idle)
  | c, index, out => out = (c.apply index).1

lemma returns_apply (c : IndexCall) (index : LocalIndex) : c.Returns index (c.apply index).1 := by
  cases c with
  | idleVictims now idle => exact List.Perm.refl _
  | recordPut key size now inCold pinned => rfl
  | recordHit key size now pinned => rfl
  | readopt key size now inCold => rfl
  | overlapCount blobRef => rfl
  | remove key => rfl
  | removeStream blobRef => rfl

end IndexCall

inductive TierCall
  | localStore (c : StoreCall)
  | coldTier (c : StoreCall)
  | index (c : IndexCall)
  | now
  | setClock (time : ℕ)

namespace TierCall

@[reducible] def Response : TierCall → Type
  | localStore c => Except BlobError c.Output
  | coldTier c => Except BlobError c.Output
  | index c => c.Output
  | now => ℕ
  | setClock _ => Unit

/-- One call: a store call may fail with any error and no effect. -/
def Step : (c : TierCall) → TierState → c.Response → TierState → Prop
  | localStore c, s, .ok out, t =>
    out = (c.apply s.localStore).1 ∧ t = { s with localStore := (c.apply s.localStore).2 }
  | localStore _, s, .error _, t => t = s
  | coldTier c, s, .ok out, t =>
    out = (c.apply s.coldTier).1 ∧ t = { s with coldTier := (c.apply s.coldTier).2 }
  | coldTier _, s, .error _, t => t = s
  | index c, s, out, t => c.Returns s.index out ∧ t = { s with index := (c.apply s.index).2 }
  | now, s, out, t => out = s.clock ∧ t = s
  | setClock time, s, _, t => t = { s with clock := time }

def Succeeded : (c : TierCall) → c.Response → Prop
  | localStore _, r => ∃ out, r = .ok out
  | coldTier _, r => ∃ out, r = .ok out
  | index _, _ => True
  | now, _ => True
  | setClock _, _ => True

/-- The outcome of a call that does not fail, with the idle victims in the order of the index. -/
def succeed : (c : TierCall) → TierState → c.Response × TierState
  | localStore c, s =>
    (.ok (c.apply s.localStore).1, { s with localStore := (c.apply s.localStore).2 })
  | coldTier c, s => (.ok (c.apply s.coldTier).1, { s with coldTier := (c.apply s.coldTier).2 })
  | index c, s => ((c.apply s.index).1, { s with index := (c.apply s.index).2 })
  | now, s => (s.clock, s)
  | setClock time, s => ((), { s with clock := time })

lemma step_succeed (c : TierCall) (s : TierState) :
    c.Step s (c.succeed s).1 (c.succeed s).2 ∧ c.Succeeded (c.succeed s).1 := by
  cases c with
  | localStore c => exact ⟨⟨rfl, rfl⟩, _, rfl⟩
  | coldTier c => exact ⟨⟨rfl, rfl⟩, _, rfl⟩
  | index c => exact ⟨⟨c.returns_apply s.index, rfl⟩, trivial⟩
  | now => exact ⟨⟨rfl, rfl⟩, trivial⟩
  | setClock time => exact ⟨rfl, trivial⟩

end TierCall

/-! ## The operations -/

/-- Programs that cannot fail, and programs that can. -/
abbrev TierProgram := Program TierCall TierCall.Response

abbrev TierM := ExceptT BlobError TierProgram

def onLocal (c : StoreCall) : TierM c.Output := ExceptT.mk (Program.perform (TierCall.localStore c))

def onCold (c : StoreCall) : TierM c.Output := ExceptT.mk (Program.perform (TierCall.coldTier c))

def onIndex (c : IndexCall) : TierProgram c.Output := Program.perform (TierCall.index c)

def clockNow : TierProgram ℕ := Program.perform TierCall.now

namespace WriteBackTier

/-- Move a chunk off the local store.  One the cold tier has is just dropped; any other is uploaded
first. -/
def offload (key : ChunkKey) (inCold : Bool) : TierM Unit :=
  if inCold then
    onLocal (.deleteChunk key)
  else do
    let bytes : Option (List UInt8) ← onLocal (.getChunk key)
    bytes.elim (pure ()) fun b => do
      onCold (.putChunk key b)
      onLocal (.deleteChunk key)

/-- Index a chunk again if the local store still has it. -/
def readopt (key : ChunkKey) (inCold : Bool) : TierProgram Unit := do
  let bytes : Except BlobError (Option (List UInt8)) ← (onLocal (.getChunk key)).run
  bytes.toOption.join.elim (pure ()) fun b => do
    let now ← clockNow
    onIndex (.readopt key b.length now inCold)

/-- Offload the victims until one fails; readopt that one and the rest. -/
def offloadVictims : List Victim → TierProgram Unit
  | [] => pure ()
  | v :: rest => do
    let offloaded ← (offload v.key v.inCold).run
    if offloaded.isOk then
      offloadVictims rest
    else
      readopt v.key v.inCold
      rest.forM fun u => readopt u.key u.inCold

def runIdleSweep (idle : ℕ) : TierProgram Unit := do
  let now ← clockNow
  let victims : List Victim ← onIndex (.idleVictims now idle)
  offloadVictims victims

def putChunk (key : ChunkKey) (bytes : List UInt8) : TierM Unit := do
  onLocal (.putChunk key bytes)
  let now ← clockNow
  let victims : List Victim ←
    onIndex (.recordPut key bytes.length now false (isPinnedStream key.blobRef))
  offloadVictims victims
  pure ()

/-- A local miss: the chunk is in the cold tier or nowhere. -/
def rehydrate (key : ChunkKey) : TierM (Option (List UInt8)) := do
  let fetched : Option (List UInt8) ← onCold (.getChunk key)
  fetched.elim (pure none) fun bytes => do
    onLocal (.putChunk key bytes)
    let now ← clockNow
    let victims : List Victim ←
      onIndex (.recordPut key bytes.length now true (isPinnedStream key.blobRef))
    offloadVictims victims
    pure (some bytes)

def getChunk (key : ChunkKey) : TierM (Option (List UInt8)) := do
  let found : Option (List UInt8) ← onLocal (.getChunk key)
  found.elim (rehydrate key) fun bytes => do
    let now ← clockNow
    onIndex (.recordHit key bytes.length now (isPinnedStream key.blobRef))
    pure (some bytes)

/-- A failing cold tier leaves the local count alone, without the overlap. -/
def chunkCount (blobRef : String) : TierM ℕ := do
  let localCount : ℕ ← onLocal (.chunkCount blobRef)
  let coldCount : Except BlobError ℕ ← (onCold (.chunkCount blobRef)).run
  coldCount.toOption.elim (pure localCount) fun n => do
    let overlap : ℕ ← onIndex (.overlapCount blobRef)
    pure (localCount + n - overlap)

def deleteStream (blobRef : String) : TierM Unit := do
  onLocal (.deleteStream blobRef)
  onCold (.deleteStream blobRef)
  onIndex (.removeStream blobRef)

def deleteChunk (key : ChunkKey) : TierM Unit := do
  onLocal (.deleteChunk key)
  onCold (.deleteChunk key)
  onIndex (.remove key)

end WriteBackTier

/-- The operations of the tier, and the passing of time. -/
inductive TierOp
  | putChunk (key : ChunkKey) (bytes : List UInt8)
  | getChunk (key : ChunkKey)
  | runIdleSweep
  | chunkCount (blobRef : String)
  | deleteStream (blobRef : String)
  | deleteChunk (key : ChunkKey)
  | setClock (time : ℕ)

inductive TierReply
  | done
  | chunk (bytes : Option (List UInt8))
  | count (n : ℕ)
  deriving DecidableEq

/-- What an operation does; `idle` is the span after which a chunk is offloaded. -/
def TierOp.program (idle : ℕ) : TierOp → TierM TierReply
  | putChunk key bytes => do
    WriteBackTier.putChunk key bytes
    pure .done
  | getChunk key => do
    let bytes ← WriteBackTier.getChunk key
    pure (.chunk bytes)
  | runIdleSweep => do
    WriteBackTier.runIdleSweep idle
    pure .done
  | chunkCount blobRef => do
    let n ← WriteBackTier.chunkCount blobRef
    pure (.count n)
  | deleteStream blobRef => do
    WriteBackTier.deleteStream blobRef
    pure .done
  | deleteChunk key => do
    WriteBackTier.deleteChunk key
    pure .done
  | setClock time => do
    (Program.perform (TierCall.setClock time) : TierProgram Unit)
    pure .done

end MaxSecu
