import MaxSecu.Sink.State

/-!
# What the sink publishes is accepted

Whatever was appended and anchored, in whatever order, a client that pins the keys of the sink
accepts what the sink serves: the current head and every head of the anchor log, in both forms; and
every binding of the directory log, from whichever earlier checkpoint it remembers.
-/

namespace MaxSecu.Sink

open ExceptRules

section

variable [Ed25519] [Sha256]

/-- The client reads the head, and accepts each proof of it. -/
def HeadAccepted (custodianPubs logPubs : List (Bytes 32)) (head : MaxSecu.AnchoredHead)
    (json : HeadJson) : Prop :=
  ∃ proofs, parseHeadAllProofs json = some (head, proofs) ∧ proofs ≠ [] ∧
    ∀ proof ∈ proofs, verifyAnchorProof head proof custodianPubs logPubs = .ok ()

/-! ## Heads -/

variable {custodian log dirLogKey : SigningKey} {custodianPubs logPubs ktPubs : List (Bytes 32)}

def AnchoredHead.forClient (head : AnchoredHead) : MaxSecu.AnchoredHead :=
  ⟨head.chainSeq, head.head⟩

omit [Ed25519] [Sha256] in
lemma toNat_ofNat_length {α : Type} {xs : List α} (h : xs.length < 2 ^ 63) :
    (UInt64.ofNat xs.length).toNat = xs.length := by
  rw [UInt64.toNat_ofNat']
  exact Nat.mod_eq_of_lt (by omega)

omit [Ed25519] [Sha256] in
lemma parseHeadAllProofs_headJson (head : AnchoredHead) (sig checkpointSig : Bytes 64)
    (treeSize index : UInt64) (root : Bytes 32) (path : List (Bytes 32)) :
    parseHeadAllProofs (headJson head ⟨.custodianCoSig sig,
        .transparencyInclusion checkpointSig treeSize root index path⟩) =
      some (head.forClient, [.custodianCoSig sig,
        .transparencyInclusion checkpointSig treeSize root index path]) := by
  simp [parseHeadAllProofs, headJson, AnchoredHead.forClient]

omit [Ed25519] in
lemma verifyInclusion_last {leaves : List (List UInt8)} {leaf : List UInt8}
    (h : Growable leaves) :
    verifyInclusion rfc6962 leaf (UInt64.ofNat ((leaves ++ [leaf]).length - 1)).toNat
      (UInt64.ofNat (leaves ++ [leaf]).length).toNat
      (inclusionPath rfc6962 ((leaves ++ [leaf]).length - 1) (leaves ++ [leaf])
        (last_lt leaves leaf)) (merkleRoot rfc6962 (leaves ++ [leaf])) = true := by
  have hlt : leaves.length < 2 ^ 63 - 1 := h
  have hlen : (leaves ++ [leaf]).length = leaves.length + 1 := by simp
  have hsize : (UInt64.ofNat (leaves ++ [leaf]).length).toNat = (leaves ++ [leaf]).length :=
    toNat_ofNat_length (by omega)
  have hindex : (UInt64.ofNat ((leaves ++ [leaf]).length - 1)).toNat =
      (leaves ++ [leaf]).length - 1 := by
    rw [UInt64.toNat_ofNat']
    exact Nat.mod_eq_of_lt (by omega)
  have hproof := verifyInclusion_complete (T := rfc6962) (last_lt leaves leaf)
  have hleaf : (leaves ++ [leaf])[(leaves ++ [leaf]).length - 1] = leaf := by simp
  rw [hsize, hindex]
  rwa [hleaf] at hproof

lemma anchor_accepted (hcustodian : custodian.Verifies) (hlog : log.Verifies)
    (hcustodianPub : custodian.verifyingKey ∈ custodianPubs)
    (hlogPub : log.verifyingKey ∈ logPubs) {a b : Anchorer} {head : AnchoredHead}
    {bundle : AnchorBundle} (hkeys : a.custodian = custodian ∧ a.log = log)
    (h : a.anchor head = some (bundle, b)) :
    HeadAccepted custodianPubs logPubs head.forClient (headJson head bundle) ∧
      (b.custodian = custodian ∧ b.log = log) ∧ b.history = a.history ++ [(head, bundle)] := by
  obtain ⟨rfl, rfl⟩ := hkeys
  unfold Anchorer.anchor at h
  by_cases hgrow : Growable a.leaves ∧ Growable a.history
  · rw [if_pos hgrow] at h
    obtain ⟨rfl, rfl⟩ := Prod.mk.inj (Option.some.inj h)
    refine ⟨⟨_, parseHeadAllProofs_headJson .., by simp, ?_⟩, ⟨rfl, rfl⟩, rfl⟩
    intro proof hproof
    obtain rfl | hproof := List.mem_cons.mp hproof
    · have hsig := hcustodian.anyKeyVerifies hcustodianPub (headSigningBytes head.forClient)
      exact if_pos hsig
    · obtain rfl := List.mem_singleton.mp hproof
      have hsig := hlog.anyKeyVerifies hlogPub (anchorCheckpointBytes
        (UInt64.ofNat (a.leaves ++ [headSigningBytes head.forClient]).length)
        (merkleRoot rfc6962 (a.leaves ++ [headSigningBytes head.forClient])))
      have hincluded := @verifyInclusion_last _ _ (headSigningBytes head.forClient) hgrow.1
      exact if_pos (Bool.and_eq_true_iff.mpr ⟨hsig, hincluded⟩)
  · rw [if_neg hgrow] at h
    cases h

/-! ## The directory log -/

/-- What holds of the directory log of the sink at any time. -/
structure DirLog.Kept (dirLogKey : SigningKey) (d : DirLog) : Prop where
  key : d.logKey = dirLogKey
  length_lt : d.leaves.length < 2 ^ 63

omit [Ed25519] [Sha256] in
lemma DirLog.Kept.toNat_treeSize {d : DirLog} (h : d.Kept dirLogKey) :
    d.treeSize.toNat = d.leaves.length := toNat_ofNat_length h.length_lt

omit [Ed25519] [Sha256] in
lemma DirLog.append_leaves {d e : DirLog} {binding : List UInt8} {index : UInt64}
    (h : d.append binding = some (index, e)) : e.leaves = d.leaves ++ [binding] := by
  unfold DirLog.append at h
  by_cases hgrow : Growable d.leaves
  · rw [if_pos hgrow] at h
    obtain ⟨_, rfl⟩ := Prod.mk.inj (Option.some.inj h)
    rfl
  · rw [if_neg hgrow] at h
    cases h

omit [Ed25519] [Sha256] in
lemma DirLog.Kept.append {d e : DirLog} (hd : d.Kept dirLogKey) {binding : List UInt8}
    {index : UInt64} (h : d.append binding = some (index, e)) : e.Kept dirLogKey := by
  unfold DirLog.append at h
  by_cases hgrow : Growable d.leaves
  · rw [if_pos hgrow] at h
    obtain ⟨_, rfl⟩ := Prod.mk.inj (Option.some.inj h)
    have hlt : d.leaves.length < 2 ^ 63 - 1 := hgrow
    refine ⟨hd.key, ?_⟩
    rw [List.length_append, List.length_singleton]
    omega
  · rw [if_neg hgrow] at h
    cases h

def DirLog.forClient (d : DirLog) : KtCheckpoint (Bytes 32) :=
  ⟨d.checkpoint.treeSize, d.checkpoint.root, d.checkpoint.sig⟩

lemma verifyCheckpointSig_forClient (hdir : dirLogKey.Verifies)
    (hpub : dirLogKey.verifyingKey ∈ ktPubs) {d : DirLog} (h : d.Kept dirLogKey) :
    verifyCheckpointSig sha256Log d.forClient ktPubs = true := by
  obtain ⟨rfl, _⟩ := h
  exact hdir.anyKeyVerifies hpub _

omit [Ed25519] in
lemma inclusion_accepted {d : DirLog} (h : d.Kept dirLogKey) {index : UInt64}
    {binding : List UInt8} (hbinding : d.leaves[index.toNat]? = some binding) :
    ∃ path, d.inclusion index = some ⟨index, d.treeSize, path⟩ ∧
      verifyInclusion sha256Log.toTreeHash binding index.toNat d.treeSize.toNat path
        (merkleRoot rfc6962 d.leaves) = true := by
  obtain ⟨hlt, rfl⟩ := List.getElem?_eq_some_iff.mp hbinding
  have hsize := h.toNat_treeSize
  have hin : ¬ index ≥ UInt64.ofNat d.leaves.length := by
    show ¬ index ≥ d.treeSize
    rw [ge_iff_le, UInt64.le_iff_toNat_le, hsize]
    omega
  refine ⟨inclusionPath rfc6962 index.toNat d.leaves hlt, ?_, ?_⟩
  · unfold DirLog.inclusion
    rw [dif_neg hin]
  · rw [hsize]
    exact verifyInclusion_complete hlt

lemma checkAdvance_accepted {d e : DirLog} (hd : d.Kept dirLogKey) (he : e.Kept dirLogKey)
    (hextends : d.leaves <+: e.leaves) :
    checkAdvance sha256Log (some d.forClient) e.forClient (e.consistency d.treeSize) = .ok () := by
  have hdsize : d.forClient.treeSize.toNat = d.leaves.length := hd.toNat_treeSize
  have hesize : e.forClient.treeSize.toNat = e.leaves.length := he.toNat_treeSize
  have hle := hextends.length_le
  have htake : d.leaves = e.leaves.take d.leaves.length := List.prefix_iff_eq_take.mp hextends
  unfold checkAdvance
  simp only
  rw [if_neg (by rw [UInt64.lt_iff_toNat_lt]; omega)]
  by_cases hsame : e.forClient.treeSize = d.forClient.treeSize
  · have hlen : d.leaves.length = e.leaves.length := by
      rw [← hdsize, ← hesize, hsame]
    have hleaves : d.leaves = e.leaves := hextends.eq_of_length hlen
    have hroot : e.forClient.root = d.forClient.root := by
      show merkleRoot rfc6962 e.leaves = merkleRoot rfc6962 d.leaves
      rw [hleaves]
    rw [if_pos hsame, if_neg (by simpa using hroot)]
  · have hproof := verifyConsistency_complete (T := rfc6962) hle
    rw [← htake] at hproof
    have hconsistency : e.consistency d.treeSize =
        consistencyPath rfc6962 e.leaves d.leaves.length e.leaves.length le_rfl := by
      unfold DirLog.consistency
      simp only [hd.toNat_treeSize]
    rw [if_neg hsame, hdsize, hesize, hconsistency]
    exact if_pos hproof

lemma verifyBindingInLog_accepted (hdir : dirLogKey.Verifies)
    (hpub : dirLogKey.verifyingKey ∈ ktPubs) {d : DirLog} (h : d.Kept dirLogKey)
    {index : UInt64} {binding : List UInt8} {path consistency : List (Bytes 32)}
    {store : KtCheckpointStore (Bytes 32)}
    (hadvance : checkAdvance sha256Log store.latest d.forClient consistency = .ok ())
    (hincluded : verifyInclusion sha256Log.toTreeHash binding index.toNat d.treeSize.toNat path
      (merkleRoot rfc6962 d.leaves) = true) :
    verifyBindingInLog sha256Log binding ⟨index, d.treeSize, path⟩ d.forClient consistency ktPubs
      store = (.ok (), ⟨some d.forClient⟩) := by
  unfold verifyBindingInLog
  rw [if_neg (by simpa using verifyCheckpointSig_forClient hdir hpub h), hadvance]
  have hproof : ¬ (d.treeSize ≠ d.forClient.treeSize ∨
      ¬ verifyInclusion sha256Log.toTreeHash binding index.toNat d.treeSize.toNat path
        d.forClient.root = true) := by
    rw [not_or, not_not, not_not]
    exact ⟨rfl, hincluded⟩
  simp only
  exact if_neg hproof

/-! ## Runs -/

/-- What the sink has published is accepted. -/
structure Published (custodian log dirLogKey : SigningKey)
    (custodianPubs logPubs : List (Bytes 32)) (s : SinkState) : Prop where
  keys : s.inner.anchorer.custodian = custodian ∧ s.inner.anchorer.log = log
  head_eq : s.inner.head = s.inner.store.anchoredHead
  current : HeadAccepted custodianPubs logPubs s.inner.head.forClient s.headRoute
  history : ∀ entry ∈ s.inner.anchorer.history,
    HeadAccepted custodianPubs logPubs entry.1.forClient (headJson entry.1 entry.2)
  dirlog : s.inner.dirlog.Kept dirLogKey

variable {token : List Char} {s start t : SinkState} {request : Request}
  {path : List (SinkState × Request)}

lemma published_start (hcustodian : custodian.Verifies) (hlog : log.Verifies)
    (hcustodianPub : custodian.verifyingKey ∈ custodianPubs)
    (hlogPub : log.verifyingKey ∈ logPubs)
    (h : SinkState.withDirLogKey (.new custodian log) token dirLogKey = some start) :
    Published custodian log dirLogKey custodianPubs logPubs start := by
  unfold SinkState.withDirLogKey at h
  obtain ⟨⟨bundle, anchorer⟩, hanchor, hs⟩ := Option.bind_eq_some_iff.mp h
  obtain rfl := Option.some.inj hs
  obtain ⟨haccepted, hkeys, hhistory⟩ :=
    anchor_accepted hcustodian hlog hcustodianPub hlogPub ⟨rfl, rfl⟩ hanchor
  refine ⟨hkeys, rfl, haccepted, ?_, ⟨rfl, by simp [DirLog.new]⟩⟩
  intro entry hentry
  rw [hhistory] at hentry
  obtain rfl := List.mem_singleton.mp hentry
  exact haccepted

lemma published_next (hcustodian : custodian.Verifies) (hlog : log.Verifies)
    (hcustodianPub : custodian.verifyingKey ∈ custodianPubs)
    (hlogPub : log.verifyingKey ∈ logPubs)
    (hs : Published custodian log dirLogKey custodianPubs logPubs s) (hnext : s.Next request t) :
    Published custodian log dirLogKey custodianPubs logPubs t := by
  obtain ⟨_, rfl⟩ | ⟨_, record, bundle, anchorer, pos, positions, _, _, hanchor, _, rfl⟩ |
    ⟨_, fileId, pos, positions, _, _, rfl⟩ | ⟨_, binding, index, dirlog, _, happend, rfl⟩ :=
      SinkState.next_cases hnext
  · exact hs
  · obtain ⟨haccepted, hkeys, hhistory⟩ :=
      anchor_accepted hcustodian hlog hcustodianPub hlogPub hs.keys hanchor
    refine ⟨hkeys, rfl, haccepted, ?_, hs.dirlog⟩
    intro entry hentry
    rw [hhistory] at hentry
    obtain hold | hnew := List.mem_append.mp hentry
    · exact hs.history entry hold
    · obtain rfl := List.mem_singleton.mp hnew
      exact haccepted
  · exact ⟨hs.keys, hs.head_eq, hs.current, hs.history, hs.dirlog⟩
  · exact ⟨hs.keys, hs.head_eq, hs.current, hs.history, hs.dirlog.append happend⟩

lemma published_run (hcustodian : custodian.Verifies) (hlog : log.Verifies)
    (hcustodianPub : custodian.verifyingKey ∈ custodianPubs)
    (hlogPub : log.verifyingKey ∈ logPubs)
    (hstart : SinkState.withDirLogKey (.new custodian log) token dirLogKey = some start)
    (hrun : LabelledRun SinkState.Next start path t) :
    Published custodian log dirLogKey custodianPubs logPubs t := by
  have hinit := published_start hcustodian hlog hcustodianPub hlogPub hstart
  have hstep : ∀ s request t, Published custodian log dirLogKey custodianPubs logPubs s → True →
      SinkState.Next s request t → Published custodian log dirLogKey custodianPubs logPubs t := by
    intro s request t hs _ hnext
    exact published_next hcustodian hlog hcustodianPub hlogPub hs hnext
  exact LabelledRun.invariant_of_steps hinit hstep hrun fun _ _ => trivial

lemma dirlog_extends (hrun : LabelledRun SinkState.Next start path t) :
    ∀ x ∈ path, x.1.inner.dirlog.leaves <+: t.inner.dirlog.leaves := by
  refine (LabelledRun.extends_end
    (R := fun s t => s.inner.dirlog.leaves <+: t.inner.dirlog.leaves) ?_ ?_ ?_ hrun).2
  · exact fun s => List.prefix_rfl
  · exact fun s t u => List.IsPrefix.trans
  · intro s request t hnext
    obtain ⟨_, rfl⟩ | ⟨_, record, bundle, anchorer, pos, positions, _, _, _, _, rfl⟩ |
      ⟨_, fileId, pos, positions, _, _, rfl⟩ | ⟨_, binding, index, dirlog, _, happend, rfl⟩ :=
        SinkState.next_cases hnext
    · exact List.prefix_rfl
    · exact List.prefix_rfl
    · exact List.prefix_rfl
    · rw [DirLog.append_leaves happend]
      exact List.prefix_append _ _

lemma parseKtCheckpoint_dirCheckpoint (s : SinkState) :
    parseKtCheckpoint s.dirCheckpoint = some s.inner.dirlog.forClient := by
  simp [parseKtCheckpoint, SinkState.dirCheckpoint, DirLog.forClient]

lemma dirConsistency_accepted {prev : DirLog} (hprev : prev.Kept dirLogKey)
    (hs : s.inner.dirlog.Kept dirLogKey) (hextends : prev.leaves <+: s.inner.dirlog.leaves) :
    (s.dirConsistency prev.forClient.treeSize).bind parseKtConsistency =
      some (s.inner.dirlog.consistency prev.treeSize) := by
  have hle : ¬ prev.forClient.treeSize > s.inner.dirlog.treeSize := by
    have hsize : prev.forClient.treeSize.toNat = prev.leaves.length := hprev.toNat_treeSize
    rw [gt_iff_lt, UInt64.lt_iff_toNat_lt, hsize, hs.toNat_treeSize]
    exact not_lt.mpr hextends.length_le
  unfold SinkState.dirConsistency
  rw [if_neg hle, Option.bind_some]
  exact parseHashPath_toList _

/-- The client that asks for a proof of a binding accepts it: at first contact, whatever comes with
it, and from any checkpoint the sink has served, with the consistency proof from there. -/
structure BindingAccepted (ktPubs : List (Bytes 32)) (path : List (SinkState × Request))
    (t : SinkState) (index : UInt64) (binding : List UInt8) (checkpoint : KtCheckpoint (Bytes 32))
    (inclusion : InclusionProof (Bytes 32)) : Prop where
  served : parseKtCheckpoint t.dirCheckpoint = some checkpoint
  proved : (t.dirInclusion index).bind parseKtInclusion = some inclusion
  first : ∀ consistency, verifyBindingInLog sha256Log binding inclusion checkpoint consistency
    ktPubs .new = (.ok (), ⟨some checkpoint⟩)
  later : ∀ s, (s = t ∨ ∃ request, (s, request) ∈ path) → ∃ prev consistency,
    parseKtCheckpoint s.dirCheckpoint = some prev ∧
    (t.dirConsistency prev.treeSize).bind parseKtConsistency = some consistency ∧
    verifyBindingInLog sha256Log binding inclusion checkpoint consistency ktPubs ⟨some prev⟩ =
      (.ok (), ⟨some checkpoint⟩)

/-- **Everything the sink publishes verifies.**  In every run of a sink, whose keys verify what they
sign and are pinned, the client accepts the current head, as the head of the log of the sink, and
every head of the anchor log, in both forms; and it accepts every binding of the directory log, at
first contact and from any earlier checkpoint. -/
theorem publications_accepted (hcustodian : custodian.Verifies) (hlog : log.Verifies)
    (hdir : dirLogKey.Verifies) (hcustodianPub : custodian.verifyingKey ∈ custodianPubs)
    (hlogPub : log.verifyingKey ∈ logPubs) (hktPub : dirLogKey.verifyingKey ∈ ktPubs)
    (hstart : SinkState.withDirLogKey (.new custodian log) token dirLogKey = some start)
    (hrun : LabelledRun SinkState.Next start path t) :
    HeadAccepted custodianPubs logPubs t.inner.store.anchoredHead.forClient t.headRoute ∧
    (∀ json ∈ t.anchorLogRoute, ∃ head, HeadAccepted custodianPubs logPubs head json) ∧
    ∀ index binding, t.inner.dirlog.leaves[index.toNat]? = some binding →
      ∃ checkpoint inclusion,
        BindingAccepted ktPubs path t index binding checkpoint inclusion := by
  have hpublished := published_run hcustodian hlog hcustodianPub hlogPub hstart hrun
  refine ⟨?_, ?_, ?_⟩
  · rw [← hpublished.head_eq]
    exact hpublished.current
  · intro json hjson
    obtain ⟨entry, hentry, rfl⟩ := List.mem_map.mp hjson
    exact ⟨entry.1.forClient, hpublished.history entry hentry⟩
  · intro index binding hbinding
    obtain ⟨inclusion, hinclusion, hproof⟩ := inclusion_accepted hpublished.dirlog hbinding
    refine ⟨t.inner.dirlog.forClient, ⟨index, t.inner.dirlog.treeSize, inclusion⟩,
      parseKtCheckpoint_dirCheckpoint t, ?_, ?_, ?_⟩
    · unfold SinkState.dirInclusion
      rw [hinclusion]
      simp [parseKtInclusion]
    · intro consistency
      have hadvance : checkAdvance sha256Log (@KtCheckpointStore.new (Bytes 32)).latest
          t.inner.dirlog.forClient consistency = .ok () := rfl
      exact verifyBindingInLog_accepted hdir hktPub hpublished.dirlog hadvance hproof
    · intro s hs
      -- A state of the run, with its own directory log, which the last one extends.
      have hpast : s.inner.dirlog.Kept dirLogKey ∧
          s.inner.dirlog.leaves <+: t.inner.dirlog.leaves := by
        obtain rfl | ⟨request, hmem⟩ := hs
        · exact ⟨hpublished.dirlog, List.prefix_rfl⟩
        · obtain ⟨before, _, _, _, hbefore, _⟩ := hrun.of_mem hmem
          have hthen := published_run hcustodian hlog hcustodianPub hlogPub hstart hbefore
          exact ⟨hthen.dirlog, dirlog_extends hrun _ hmem⟩
      obtain ⟨hkept, hextends⟩ := hpast
      refine ⟨s.inner.dirlog.forClient, t.inner.dirlog.consistency s.inner.dirlog.treeSize,
        parseKtCheckpoint_dirCheckpoint s, ?_, ?_⟩
      · exact dirConsistency_accepted hkept hpublished.dirlog hextends
      · have hadvance := checkAdvance_accepted hkept hpublished.dirlog hextends
        exact verifyBindingInLog_accepted hdir hktPub hpublished.dirlog hadvance hproof

end

section Runs

open ClosedRuns

def key (b : UInt8) : SigningKey := ⟨.replicate 32 b⟩

def bearer : Option (List Char) := some ("Bearer ".toList ++ ['t'])

lemma key_verifies (b : UInt8) : (key b).Verifies := ⟨rfl, fun _ => rfl⟩

lemma exists_bundle {a : Anchorer} (hgrow : Growable a.leaves ∧ Growable a.history)
    (head : AnchoredHead) : ∃ bundle b, a.anchor head = some (bundle, b) ∧
      b.leaves.length = a.leaves.length + 1 ∧ b.history.length = a.history.length + 1 := by
  unfold Anchorer.anchor
  rw [if_pos hgrow]
  exact ⟨_, _, rfl, by simp, by simp⟩

lemma exists_start : ∃ start, SinkState.withDirLogKey (.new (key 1) (key 2)) ['t'] (key 3) =
    some start ∧ start.adminToken = ['t'] ∧ start.inner.store = .new ∧
      start.inner.positions = .new ∧ start.inner.dirlog.leaves = [] ∧
      Growable start.inner.anchorer.leaves ∧ Growable start.inner.anchorer.history := by
  have hgrow : Growable (Anchorer.new (key 1) (key 2)).leaves ∧
      Growable (Anchorer.new (key 1) (key 2)).history := by decide
  obtain ⟨bundle, anchorer, hanchor, hleaves, hhistory⟩ :=
    exists_bundle hgrow ControlLogStore.new.anchoredHead
  unfold SinkState.withDirLogKey
  simp only [hanchor]
  refine ⟨_, rfl, rfl, rfl, rfl, rfl, ?_, ?_⟩
  · unfold Growable
    rw [hleaves]
    decide
  · unfold Growable
    rw [hhistory]
    decide

lemma exists_append {s : SinkState} (hadmin : s.adminToken = ['t'])
    (hgrow : Growable s.inner.dirlog.leaves) (binding : List UInt8) :
    ∃ t, s.Next (.postDirBinding bearer binding) t ∧ t.adminToken = ['t'] ∧
      t.inner.dirlog.leaves = s.inner.dirlog.leaves ++ [binding] := by
  have hok : ¬ ¬ adminOk bearer s.adminToken := by
    rw [hadmin, not_not]
    rfl
  unfold SinkState.Next SinkState.handle SinkState.postDirBinding DirLog.append
  simp only [hok, if_false, hgrow, if_true]
  exact ⟨_, ⟨_, rfl⟩, hadmin, rfl⟩

/-- Two bindings. -/
theorem publications_accepted_twoBindings :
    ∃ start path t, LabelledRun SinkState.Next start path t ∧
      HeadAccepted [(key 1).verifyingKey] [(key 2).verifyingKey]
        t.inner.store.anchoredHead.forClient t.headRoute ∧
      ∃ checkpoint inclusion,
        BindingAccepted [(key 3).verifyingKey] path t 0 [1] checkpoint inclusion := by
  obtain ⟨start, hstart, hadmin, _, _, hleaves, _⟩ := exists_start
  obtain ⟨s, hs, hadmin, hleaves'⟩ :=
    exists_append hadmin (by rw [hleaves]; exact by decide) [1]
  rw [hleaves, List.nil_append] at hleaves'
  obtain ⟨t, ht, _, hleaves''⟩ := exists_append hadmin (by rw [hleaves']; exact by decide) [2]
  have hrun := (LabelledRun.start.step hs).step ht
  obtain ⟨hhead, _, hbindings⟩ := publications_accepted (key_verifies 1) (key_verifies 2)
    (key_verifies 3) (List.mem_singleton_self _) (List.mem_singleton_self _)
    (List.mem_singleton_self _) hstart hrun
  refine ⟨start, _, t, hrun, hhead, hbindings 0 [1] ?_⟩
  rw [hleaves'', hleaves']
  rfl

end Runs

end MaxSecu.Sink
