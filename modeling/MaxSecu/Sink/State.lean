import MaxSecu.Client.SinkClient
import MaxSecu.Framework.LabelledRun
import MaxSecu.Sink.Anchorer
import MaxSecu.Sink.PositionLog

/-!
# The routes of the sink

The state of the sink and what its routes do with it.  The three that write need the admin token.
A record is appended, its head is anchored, and it gets a position.
-/

namespace MaxSecu.Sink

open ExceptRules

structure Inner where
  store : ControlLogStore
  anchorer : Anchorer
  /-- The proofs of the current head. -/
  current : AnchorBundle
  head : AnchoredHead
  positions : PositionLog
  dirlog : DirLog

structure SinkState where
  inner : Inner
  /-- The secret that a write has to present. -/
  adminToken : List Char
  dirLogPub : Bytes 32

/-! ## What the routes render -/

/-- A head with its proofs.  A bundle always has the two forms in their places; otherwise the field
is empty. -/
def headJson (head : AnchoredHead) (bundle : AnchorBundle) : HeadJson where
  chainSeq := head.chainSeq
  head := head.head.toList
  cosig :=
    match bundle.cosig with
    | .custodianCoSig sig => sig.toList
    | .transparencyInclusion .. => []
  transparency :=
    match bundle.transparency with
    | .transparencyInclusion checkpointSig treeSize root index path =>
      ⟨checkpointSig.toList, treeSize, root.toList, index, path.map List.Vector.toList⟩
    | .custodianCoSig _ => ⟨[], 0, [], 0, []⟩

inductive Response
  | head (json : HeadJson)
  | anchorLog (json : List HeadJson)
  | position (position : UInt64)
  | checkpoint (json : KtCheckpointJson)
  | inclusion (json : KtInclusionJson)
  | consistency (json : KtConsistencyJson)
  | index (index : UInt64)
  | forbidden
  | badRequest
  | conflict
  | notFound

inductive Request
  | head
  | anchorLog
  | controlPosition (chainSeq : UInt64)
  | genesisAnchor (fileId : Id)
  | dirCheckpoint
  | dirInclusion (index : UInt64)
  | dirConsistency (fromSize : UInt64)
  | postRecord (authorization : Option (List Char)) (record : List UInt8)
  | postGenesisAnchor (authorization : Option (List Char)) (fileId : Id)
  | postDirBinding (authorization : Option (List Char)) (binding : List UInt8)

def adminOk (authorization : Option (List Char)) (token : List Char) : Prop :=
  authorization = some ("Bearer ".toList ++ token)

instance (authorization : Option (List Char)) (token : List Char) :
    Decidable (adminOk authorization token) := decEq _ _

namespace SinkState

variable [Ed25519] [Sha256]

/-- A new sink, which anchors the head of its empty log. -/
def withDirLogKey (anchorer : Anchorer) (adminToken : List Char) (dirLogKey : SigningKey) :
    Option SinkState := do
  let store := ControlLogStore.new
  let head := store.anchoredHead
  let (current, anchorer) ← anchorer.anchor head
  some ⟨⟨store, anchorer, current, head, .new, .new dirLogKey⟩, adminToken,
    dirLogKey.verifyingKey⟩

/-! ## Routes that read -/

def headRoute (s : SinkState) : HeadJson := headJson s.inner.head s.inner.current

def anchorLogRoute (s : SinkState) : List HeadJson :=
  s.inner.anchorer.anchorLog.map fun entry => headJson entry.1 entry.2

def dirCheckpoint (s : SinkState) : KtCheckpointJson :=
  let cp := s.inner.dirlog.checkpoint
  ⟨cp.treeSize, cp.root.toList, cp.sig.toList⟩

def dirInclusion (s : SinkState) (index : UInt64) : Option KtInclusionJson :=
  (s.inner.dirlog.inclusion index).map fun inc =>
    ⟨inc.index, inc.treeSize, inc.path.map List.Vector.toList⟩

/-- Nothing is consistent with a size that is still to come. -/
def dirConsistency (s : SinkState) (fromSize : UInt64) : Option KtConsistencyJson :=
  if fromSize > s.inner.dirlog.treeSize then none
  else some ⟨(s.inner.dirlog.consistency fromSize).map List.Vector.toList⟩

/-! ## Routes that write -/

/-- Append a record, anchor the new head, and draw a position. -/
def postRecord (s : SinkState) (authorization : Option (List Char)) (record : List UInt8) :
    Option (Response × SinkState) :=
  if ¬ adminOk authorization s.adminToken then some (.forbidden, s)
  else
    match runFrom (ControlLogStore.append record) s.inner.store with
    | (.error .notAppending, store) => some (.conflict, { s with inner := { s.inner with store } })
    | (.error .malformed, store) => some (.badRequest, { s with inner := { s.inner with store } })
    | (.ok newHead, store) => do
      let (bundle, anchorer) ← s.inner.anchorer.anchor newHead
      let (_, positions) ← s.inner.positions.recordControl
      some (.head (headJson newHead bundle),
        { s with inner := ⟨store, anchorer, bundle, newHead, positions, s.inner.dirlog⟩ })

def postGenesisAnchor (s : SinkState) (authorization : Option (List Char)) (fileId : Id) :
    Option (Response × SinkState) :=
  if ¬ adminOk authorization s.adminToken then some (.forbidden, s)
  else do
    let (position, positions) ← s.inner.positions.anchorGenesis fileId
    some (.position position, { s with inner := { s.inner with positions } })

def postDirBinding (s : SinkState) (authorization : Option (List Char)) (binding : List UInt8) :
    Option (Response × SinkState) :=
  if ¬ adminOk authorization s.adminToken then some (.forbidden, s)
  else do
    let (index, dirlog) ← s.inner.dirlog.append binding
    some (.index index, { s with inner := { s.inner with dirlog } })

/-- What the sink answers, and its state then; nothing, if the process ends. -/
def handle (s : SinkState) : Request → Option (Response × SinkState)
  | .head => some (.head s.headRoute, s)
  | .anchorLog => some (.anchorLog s.anchorLogRoute, s)
  | .controlPosition chainSeq =>
    some ((s.inner.positions.controlPosition chainSeq).elim .notFound .position, s)
  | .genesisAnchor fileId =>
    some ((s.inner.positions.genesisPosition fileId).elim .notFound .position, s)
  | .dirCheckpoint => some (.checkpoint s.dirCheckpoint, s)
  | .dirInclusion index => some ((s.dirInclusion index).elim .notFound .inclusion, s)
  | .dirConsistency fromSize =>
    some ((s.dirConsistency fromSize).elim .badRequest .consistency, s)
  | .postRecord authorization record => s.postRecord authorization record
  | .postGenesisAnchor authorization fileId => s.postGenesisAnchor authorization fileId
  | .postDirBinding authorization binding => s.postDirBinding authorization binding

def Next (s : SinkState) (request : Request) (t : SinkState) : Prop :=
  ∃ response, s.handle request = some (response, t)

/-! ## What a request does -/

variable {s t : SinkState} {authorization : Option (List Char)} {response : Response}

/-- The writer may append the record, and it continues from the head. -/
def Taken (s : SinkState) (authorization : Option (List Char)) (record : List UInt8) : Prop :=
  adminOk authorization s.adminToken ∧ recordPrev record = some s.inner.store.head

lemma postRecord_of_taken {record : List UInt8} {bundle : AnchorBundle} {anchorer : Anchorer}
    {pos : UInt64} {positions : PositionLog} (h : s.Taken authorization record)
    (hanchor : s.inner.anchorer.anchor ⟨s.inner.store.chainSeq + 1, sha256 record⟩ =
      some (bundle, anchorer))
    (hposition : s.inner.positions.recordControl = some (pos, positions)) :
    s.postRecord authorization record =
      some (.head (headJson ⟨s.inner.store.chainSeq + 1, sha256 record⟩ bundle), { s with
        inner := ⟨⟨s.inner.store.records ++ [record], sha256 record, s.inner.store.chainSeq + 1⟩,
          anchorer, bundle, ⟨s.inner.store.chainSeq + 1, sha256 record⟩, positions,
          s.inner.dirlog⟩ }) := by
  unfold postRecord
  rw [if_neg (not_not.mpr h.1)]
  simp only [ControlLogStore.append_of_prev h.2, hanchor, hposition]
  rfl

lemma postRecord_eq_some {record : List UInt8}
    (h : s.postRecord authorization record = some (response, t)) :
    (¬ s.Taken authorization record ∧ t = s) ∨
    (s.Taken authorization record ∧ ∃ bundle anchorer pos positions,
      s.inner.anchorer.anchor ⟨s.inner.store.chainSeq + 1, sha256 record⟩ =
        some (bundle, anchorer) ∧
      s.inner.positions.recordControl = some (pos, positions) ∧
      t = { s with
        inner := ⟨⟨s.inner.store.records ++ [record], sha256 record, s.inner.store.chainSeq + 1⟩,
          anchorer, bundle, ⟨s.inner.store.chainSeq + 1, sha256 record⟩, positions,
          s.inner.dirlog⟩ }) := by
  unfold postRecord at h
  by_cases hadmin : adminOk authorization s.adminToken
  · rw [if_neg (not_not.mpr hadmin)] at h
    by_cases hlink : recordPrev record = some s.inner.store.head
    · right
      refine ⟨⟨hadmin, hlink⟩, ?_⟩
      simp only [ControlLogStore.append_of_prev hlink] at h
      obtain ⟨⟨bundle, anchorer⟩, hanchor, h⟩ := Option.bind_eq_some_iff.mp h
      obtain ⟨⟨pos, positions⟩, hposition, h⟩ := Option.bind_eq_some_iff.mp h
      exact ⟨bundle, anchorer, pos, positions, hanchor, hposition,
        (Prod.mk.inj (Option.some.inj h)).2.symm⟩
    · left
      refine ⟨fun htaken => hlink htaken.2, ?_⟩
      cases hprev : recordPrev record with
      | none =>
        simp only [ControlLogStore.append_of_malformed hprev] at h
        exact (Prod.mk.inj (Option.some.inj h)).2.symm
      | some prevHead =>
        have hne : prevHead ≠ s.inner.store.head := by
          intro heq
          exact hlink (heq ▸ hprev)
        simp only [ControlLogStore.append_of_ne hprev hne] at h
        exact (Prod.mk.inj (Option.some.inj h)).2.symm
  · rw [if_pos hadmin] at h
    left
    exact ⟨fun htaken => hadmin htaken.1, (Prod.mk.inj (Option.some.inj h)).2.symm⟩

omit [Ed25519] [Sha256] in
lemma changes_of_admin {o : Option (Response × SinkState)}
    (h : (if ¬ adminOk authorization s.adminToken then some (.forbidden, s) else o) =
      some (response, t)) : t = s ∨ o = some (response, t) := by
  by_cases hadmin : adminOk authorization s.adminToken
  · rw [if_neg (not_not.mpr hadmin)] at h
    exact .inr h
  · rw [if_pos hadmin] at h
    exact .inl (Prod.mk.inj (Option.some.inj h)).2.symm

omit [Ed25519] [Sha256] in
lemma postGenesisAnchor_eq_some {fileId : Id}
    (h : s.postGenesisAnchor authorization fileId = some (response, t)) :
    t = s ∨ ∃ pos positions, s.inner.positions.anchorGenesis fileId = some (pos, positions) ∧
      t = { s with inner := { s.inner with positions } } := by
  obtain hsame | hwrite := changes_of_admin h
  · exact .inl hsame
  · obtain ⟨⟨pos, positions⟩, hanchor, h⟩ := Option.bind_eq_some_iff.mp hwrite
    exact .inr ⟨pos, positions, hanchor, (Prod.mk.inj (Option.some.inj h)).2.symm⟩

omit [Ed25519] [Sha256] in
lemma postDirBinding_eq_some {binding : List UInt8}
    (h : s.postDirBinding authorization binding = some (response, t)) :
    t = s ∨ ∃ index dirlog, s.inner.dirlog.append binding = some (index, dirlog) ∧
      t = { s with inner := { s.inner with dirlog } } := by
  obtain hsame | hwrite := changes_of_admin h
  · exact .inl hsame
  · obtain ⟨⟨index, dirlog⟩, happend, h⟩ := Option.bind_eq_some_iff.mp hwrite
    exact .inr ⟨index, dirlog, happend, (Prod.mk.inj (Option.some.inj h)).2.symm⟩

lemma next_cases {request : Request} (h : s.Next request t) :
    ((∀ authorization record, request = .postRecord authorization record →
        ¬ s.Taken authorization record) ∧ t = s) ∨
    (∃ authorization record bundle anchorer pos positions,
      request = .postRecord authorization record ∧ s.Taken authorization record ∧
      s.inner.anchorer.anchor ⟨s.inner.store.chainSeq + 1, sha256 record⟩ =
        some (bundle, anchorer) ∧
      s.inner.positions.recordControl = some (pos, positions) ∧
      t = { s with
        inner := ⟨⟨s.inner.store.records ++ [record], sha256 record, s.inner.store.chainSeq + 1⟩,
          anchorer, bundle, ⟨s.inner.store.chainSeq + 1, sha256 record⟩, positions,
          s.inner.dirlog⟩ }) ∨
    (∃ authorization fileId pos positions, request = .postGenesisAnchor authorization fileId ∧
      s.inner.positions.anchorGenesis fileId = some (pos, positions) ∧
      t = { s with inner := { s.inner with positions } }) ∨
    ∃ authorization binding index dirlog, request = .postDirBinding authorization binding ∧
      s.inner.dirlog.append binding = some (index, dirlog) ∧
      t = { s with inner := { s.inner with dirlog } } := by
  obtain ⟨response, h⟩ := h
  have hread : ∀ r : Response, some (r, s) = some (response, t) → t = s := by
    intro r hr
    exact (Prod.mk.inj (Option.some.inj hr)).2.symm
  cases request with
  | postRecord authorization record =>
    obtain ⟨hnot, hsame⟩ | ⟨htaken, bundle, anchorer, pos, positions, hwrite⟩ :=
      postRecord_eq_some h
    · left
      refine ⟨?_, hsame⟩
      intro authorization' record' heq
      obtain ⟨rfl, rfl⟩ := Request.postRecord.inj heq
      exact hnot
    · exact .inr (.inl ⟨authorization, record, bundle, anchorer, pos, positions, rfl, htaken,
        hwrite⟩)
  | postGenesisAnchor authorization fileId =>
    obtain hsame | ⟨pos, positions, hwrite⟩ := postGenesisAnchor_eq_some h
    · exact .inl ⟨by simp, hsame⟩
    · exact .inr (.inr (.inl ⟨authorization, fileId, pos, positions, rfl, hwrite⟩))
  | postDirBinding authorization binding =>
    obtain hsame | ⟨index, dirlog, hwrite⟩ := postDirBinding_eq_some h
    · exact .inl ⟨by simp, hsame⟩
    · exact .inr (.inr (.inr ⟨authorization, binding, index, dirlog, rfl, hwrite⟩))
  | _ => exact .inl ⟨by simp, hread _ h⟩

end SinkState

end MaxSecu.Sink
