import MaxSecu.Client.DownloadAgreement
import MaxSecu.Sink.Publications
import MaxSecu.Sink.Replication

/-!
# The genesis cutoff

A genesis under a compromised key is honoured if the sink had a position for its file before the
compromise.  The position belongs to the file id: the sink does not see the genesis, and a file id
that was anchored keeps its position whatever genesis is signed for it later.

The server decides which file ids are anchored and when, and which genesis it serves, so a run is
any order of signatures and of requests to the sink.  Everything honoured is old exactly when no
genesis under a stolen key was signed after its file id had been anchored
(`genesisCutoff_separates_iff`).
-/

namespace MaxSecu.Sink

open ExceptRules

def compromises (ownerId : Id) (keyVersion : UInt64) (record : List UInt8) : Bool :=
  match Decoded.fromBytes record with
  | .ok (.keyCompromise kc) => kc.userId = ownerId ∧ kc.keyVersion = keyVersion
  | _ => false

/-- The position of the first record that names the key, by its sequence number. -/
def SinkState.cutoff (s : SinkState) (ownerId : Id) (keyVersion : UInt64) : Option UInt64 :=
  (s.inner.store.records.findIdx? (compromises ownerId keyVersion)).bind fun i =>
    s.inner.positions.controlPosition (UInt64.ofNat (i + 1))

/-- What a client gives to the checks of a file, from the sink. -/
def SinkState.compromiseCheck (s : SinkState) (fileId : Id) : CompromiseCheck :=
  ⟨s.inner.positions.genesisPosition fileId, s.cutoff⟩

/-! ## Positions of the records -/

namespace SinkState

variable {s t : SinkState} {ownerId fileId : Id} {keyVersion pos : UInt64}

/-- Every control record has its position. -/
structure Aligned (s : SinkState) : Prop where
  ordered : s.inner.positions.Ordered
  length_eq : s.inner.positions.controlPos.length = s.inner.store.records.length

/-- A record that names the key is at the position. -/
def CompromisedAt (s : SinkState) (ownerId : Id) (keyVersion pos : UInt64) : Prop :=
  ∃ (i : ℕ) (record : List UInt8), s.inner.store.records[i]? = some record ∧
    compromises ownerId keyVersion record = true ∧ s.inner.positions.controlPos[i]? = some pos

lemma Aligned.cutoff_eq (hs : s.Aligned) : s.cutoff ownerId keyVersion =
    (s.inner.store.records.findIdx? (compromises ownerId keyVersion)).bind fun i =>
      s.inner.positions.controlPos[i]? := by
  unfold cutoff
  cases hfind : s.inner.store.records.findIdx? (compromises ownerId keyVersion) with
  | none => rfl
  | some i =>
    have hi : i < s.inner.store.records.length := (List.findIdx?_eq_some_iff_getElem.mp hfind).1
    have hlength := hs.length_eq
    have hle := hs.ordered.length_le
    have hnext := s.inner.positions.nextPos.toNat_lt
    have hval : (UInt64.ofNat (i + 1)).toNat = i + 1 := by
      rw [UInt64.toNat_ofNat']
      exact Nat.mod_eq_of_lt (by omega)
    have hne : UInt64.ofNat (i + 1) ≠ 0 := by
      intro hzero
      rw [hzero] at hval
      exact absurd hval (by simp)
    have hpred : (UInt64.ofNat (i + 1) - 1).toNat = i := by
      rw [UInt64.toNat_sub_of_le _ _ (UInt64.le_iff_toNat_le.mpr (by rw [hval]; simp)), hval]
      rfl
    simp only [Option.bind_some, PositionLog.controlPosition, if_neg hne, hpred]

lemma Aligned.cutoff_le (hs : s.Aligned) (h : s.CompromisedAt ownerId keyVersion pos) :
    ∃ first, s.cutoff ownerId keyVersion = some first ∧ first.toNat ≤ pos.toNat := by
  obtain ⟨i, record, hrecord, hnames, hpos⟩ := h
  rw [hs.cutoff_eq]
  cases hfind : s.inner.store.records.findIdx? (compromises ownerId keyVersion) with
  | none =>
    have hnot := List.findIdx?_eq_none_iff.mp hfind record (List.mem_of_getElem? hrecord)
    rw [hnames] at hnot
    cases hnot
  | some j =>
    obtain ⟨hj, _, hfirst⟩ := List.findIdx?_eq_some_iff_getElem.mp hfind
    obtain ⟨hi, rfl⟩ := List.getElem?_eq_some_iff.mp hpos
    have hji : j ≤ i := by
      by_contra hlt
      obtain ⟨hi', rfl⟩ := List.getElem?_eq_some_iff.mp hrecord
      exact hfirst i (by omega) hnames
    rw [← hs.length_eq] at hj
    refine ⟨s.inner.positions.controlPos[j], List.getElem?_eq_getElem hj, ?_⟩
    obtain rfl | hlt := hji.eq_or_lt
    · exact le_rfl
    · exact (List.pairwise_iff_getElem.mp hs.ordered.sorted j i hj hi hlt).le

lemma Aligned.compromisedAt (hs : s.Aligned) (h : s.cutoff ownerId keyVersion = some pos) :
    s.CompromisedAt ownerId keyVersion pos := by
  rw [hs.cutoff_eq] at h
  obtain ⟨i, hfind, hpos⟩ := Option.bind_eq_some_iff.mp h
  obtain ⟨hi, hnames, _⟩ := List.findIdx?_eq_some_iff_getElem.mp hfind
  exact ⟨i, _, List.getElem?_eq_getElem hi, hnames, hpos⟩

lemma Aligned.cutoff_append (hs : s.Aligned) (ht : t.Aligned) {record : List UInt8}
    (hrecords : t.inner.store.records = s.inner.store.records ++ [record])
    (hcontrol : t.inner.positions.controlPos =
      s.inner.positions.controlPos ++ [s.inner.positions.nextPos]) :
    t.cutoff ownerId keyVersion = (s.cutoff ownerId keyVersion).or
      (if compromises ownerId keyVersion record then some s.inner.positions.nextPos else none) := by
  rw [ht.cutoff_eq, hs.cutoff_eq, hrecords, hcontrol, List.findIdx?_append]
  have hlength := hs.length_eq
  cases hfind : s.inner.store.records.findIdx? (compromises ownerId keyVersion) with
  | some i =>
    obtain ⟨hi, _⟩ := List.findIdx?_eq_some_iff_getElem.mp hfind
    have hold : i < s.inner.positions.controlPos.length := by omega
    simp only [Option.some_or, Option.bind_some]
    rw [List.getElem?_append_left hold, List.getElem?_eq_getElem hold]
    rfl
  | none =>
    by_cases hnames : compromises ownerId keyVersion record = true
    · simp [hnames, hlength]
    · simp [hnames]

lemma Aligned.next [Ed25519] [Sha256] (hs : s.Aligned) {request : Request}
    (h : s.Next request t) : t.Aligned := by
  obtain ⟨_, rfl⟩ | ⟨_, record, bundle, anchorer, pos, positions, _, _, _, hposition, rfl⟩ |
    ⟨_, fileId, pos, positions, _, hanchor, rfl⟩ | ⟨_, binding, index, dirlog, _, _, rfl⟩ :=
      SinkState.next_cases h
  · exact hs
  · obtain ⟨_, _, hcontrol, _⟩ := PositionLog.recordControl_eq_some hposition
    refine ⟨hs.ordered.recordControl hposition, ?_⟩
    have hlength := hs.length_eq
    simp only [hcontrol, List.length_append, List.length_singleton, hlength]
  · refine ⟨hs.ordered.anchorGenesis hanchor, ?_⟩
    obtain ⟨_, rfl⟩ | ⟨_, _, _, hcontrol, _⟩ := PositionLog.anchorGenesis_eq_some hanchor
    · exact hs.length_eq
    · simp only [hcontrol]
      exact hs.length_eq
  · exact ⟨hs.ordered, hs.length_eq⟩

end SinkState

/-! ## Runs -/

/-- The sink, the genesis records that exist, and those that existed when a file id got its
position. -/
structure World where
  sink : SinkState
  signed : List Genesis
  atAnchor : Id → List Genesis

inductive WorldStep
  /-- Somebody signs a genesis, for a new file, for one that is created again, or as a forgery. -/
  | sign (genesis : Genesis)
  /-- The server, or anybody, sends a request to the sink. -/
  | request (request : Request)

namespace World

def start (sink : SinkState) : World := ⟨sink, [], fun _ => []⟩

/-- The sink has a position for the file id. -/
def Anchored (w : World) (fileId : Id) : Prop :=
  (w.sink.inner.positions.genesisPosition fileId).isSome = true

instance (w : World) (fileId : Id) : Decidable (w.Anchored fileId) :=
  inferInstanceAs (Decidable (_ = true))

def withGenesis (w : World) (genesis : Genesis) : World :=
  ⟨w.sink, w.signed ++ [genesis], w.atAnchor⟩

/-- After a request to the sink: what has no position yet may get one with what exists now. -/
def served (w : World) (sink : SinkState) : World :=
  ⟨sink, w.signed, fun fileId => if w.Anchored fileId then w.atAnchor fileId else w.signed⟩

lemma served_atAnchor {w : World} {sink : SinkState} {fileId : Id} (h : w.Anchored fileId) :
    (w.served sink).atAnchor fileId = w.atAnchor fileId := if_pos h

lemma served_atAnchor_of_not {w : World} {sink : SinkState} {fileId : Id}
    (h : ¬ w.Anchored fileId) : (w.served sink).atAnchor fileId = w.signed := if_neg h

/-- The client honours the genesis, as far as the cutoff goes. -/
def Honours (w : World) (genesis : Genesis) : Prop :=
  checkCompromise (some (w.sink.compromiseCheck genesis.fileId)) genesis = .ok ()

/-- The genesis existed when its file id was anchored, before the position. -/
def OldAt (w : World) (genesis : Genesis) (pos : UInt64) : Prop :=
  genesis ∈ w.atAnchor genesis.fileId ∧
    ∃ anchor, w.sink.inner.positions.genesisPosition genesis.fileId = some anchor ∧
      anchor.toNat < pos.toNat

/-- What is honoured under a compromised key is old at every compromise of the key. -/
def Separates (w : World) : Prop :=
  ∀ genesis ∈ w.signed, w.Honours genesis →
    ∀ pos, w.sink.CompromisedAt genesis.ownerId genesis.ownerKeyVersion pos → w.OldAt genesis pos

section

variable [Ed25519] [Sha256]

inductive Next (w : World) : WorldStep → World → Prop
  | sign {genesis : Genesis} :
      Next w (.sign genesis) (w.withGenesis genesis)
  | request {request : Request} {sink : SinkState} : w.sink.Next request sink →
      Next w (.request request) (w.served sink)

/-- The genesis was signed when its file id had been anchored already. -/
def Late (w : World) (genesis : Genesis) : Prop :=
  w.Anchored genesis.fileId ∧ genesis ∉ w.atAnchor genesis.fileId

/-- The genesis is under a key that is compromised at a position after that of its file id. -/
def Stolen (w : World) (genesis : Genesis) : Prop :=
  ∃ anchor pos, w.sink.inner.positions.genesisPosition genesis.fileId = some anchor ∧
    w.sink.cutoff genesis.ownerId genesis.ownerKeyVersion = some pos ∧ anchor.toNat < pos.toNat

/-- No genesis is late under a stolen key: none is signed late when the key is known to be stolen,
and no key becomes known to be stolen when one is late under it. -/
def Timely (w : World) : WorldStep → Prop
  | .sign genesis => w.Stolen genesis → ¬ w.Late genesis
  | .request (.postRecord authorization record) => w.sink.Taken authorization record →
      ∀ genesis ∈ w.signed, w.sink.cutoff genesis.ownerId genesis.ownerKeyVersion = none →
        compromises genesis.ownerId genesis.ownerKeyVersion record = true → ¬ w.Late genesis
  | .request _ => True

end

/-! ## The check -/

variable {w u : World} {genesis : Genesis}

lemma honours_iff : w.Honours genesis ↔
    ∀ pos, w.sink.cutoff genesis.ownerId genesis.ownerKeyVersion = some pos →
      ∃ anchor, w.sink.inner.positions.genesisPosition genesis.fileId = some anchor ∧
        anchor.toNat < pos.toNat := by
  unfold Honours checkCompromise SinkState.compromiseCheck
  simp only
  cases hcutoff : w.sink.cutoff genesis.ownerId genesis.ownerKeyVersion with
  | none => exact iff_of_true rfl (by simp)
  | some pos =>
    cases hanchor : w.sink.inner.positions.genesisPosition genesis.fileId with
    | none => simp [throw, throwThe, MonadExceptOf.throw]
    | some anchor =>
      by_cases hlt : anchor.toNat < pos.toNat
      · simp [UInt64.lt_iff_toNat_lt, hlt, pure, Except.pure]
      · simp [UInt64.lt_iff_toNat_lt, hlt, throw, throwThe, MonadExceptOf.throw]

/-- Nothing is late under a stolen key. -/
def Clean (w : World) : Prop := ∀ genesis ∈ w.signed, w.Stolen genesis → ¬ w.Late genesis

lemma separates_iff (hw : w.sink.Aligned) : w.Separates ↔ w.Clean := by
  constructor
  · rintro hseparates genesis hsigned ⟨anchor, pos, hanchor, hcutoff, hlt⟩ ⟨_, hlate⟩
    have hhonours : w.Honours genesis := by
      refine honours_iff.mpr ?_
      intro pos' hpos'
      obtain rfl := Option.some.inj (hcutoff.symm.trans hpos')
      exact ⟨anchor, hanchor, hlt⟩
    exact hlate (hseparates genesis hsigned hhonours pos (hw.compromisedAt hcutoff)).1
  · intro hclean genesis hsigned hhonours pos hpos
    obtain ⟨first, hcutoff, hle⟩ := hw.cutoff_le hpos
    obtain ⟨anchor, hanchor, hlt⟩ := honours_iff.mp hhonours first hcutoff
    have hanchored : w.Anchored genesis.fileId := Option.isSome_iff_exists.mpr ⟨anchor, hanchor⟩
    have hold : ¬ w.Late genesis :=
      hclean genesis hsigned ⟨anchor, first, hanchor, hcutoff, hlt⟩
    exact ⟨not_not.mp fun hnot => hold ⟨hanchored, hnot⟩, anchor, hanchor, hlt.trans_le hle⟩

/-! ## What a step does -/

lemma late_of_served {sink : SinkState} (hsigned : genesis ∈ w.signed)
    (h : (w.served sink).Late genesis) : w.Late genesis := by
  obtain ⟨_, hnot⟩ := h
  by_cases hanchored : w.Anchored genesis.fileId
  · rw [served_atAnchor hanchored] at hnot
    exact ⟨hanchored, hnot⟩
  · rw [served_atAnchor_of_not hanchored] at hnot
    exact absurd hsigned hnot

lemma late_served {sink : SinkState} (h : w.Late genesis)
    (hkeep : (w.served sink).Anchored genesis.fileId) : (w.served sink).Late genesis := by
  refine ⟨hkeep, ?_⟩
  rw [served_atAnchor h.1]
  exact h.2

variable [Ed25519] [Sha256] {step : WorldStep}

lemma clean_next_iff (hw : w.sink.Aligned) (hclean : w.Clean) (hnext : Next w step u) :
    u.Clean ↔ w.Timely step := by
  cases hnext with
  | @sign genesis =>
    constructor
    · intro hu
      exact hu genesis (by simp [withGenesis])
    · intro htimely genesis' hsigned
      obtain hold | hnew := List.mem_append.mp hsigned
      · exact hclean genesis' hold
      · obtain rfl := List.mem_singleton.mp hnew
        exact htimely
  | @request request sink hrequest =>
    have haligned : sink.Aligned := hw.next hrequest
    obtain ⟨hnot, rfl⟩ | ⟨authorization, record, bundle, anchorer, pos, positions, rfl, htaken, _,
      hposition, rfl⟩ | ⟨authorization, fileId, pos, positions, rfl, hanchor, rfl⟩ |
      ⟨authorization, binding, index, dirlog, rfl, _, rfl⟩ := SinkState.next_cases hrequest
    · refine iff_of_true ?_ ?_
      · intro genesis hsigned hstolen hlate
        exact hclean genesis hsigned hstolen (late_of_served (w := w) hsigned hlate)
      · cases request with
        | postRecord authorization record =>
          intro htaken
          exact absurd htaken (hnot authorization record rfl)
        | _ => trivial
    · -- A record may make a cutoff, which is above every position there is.
      obtain ⟨_, _, hcontrol, hgenesis⟩ := PositionLog.recordControl_eq_some hposition
      have hcutoff : ∀ ownerId keyVersion, SinkState.cutoff _ ownerId keyVersion = _ :=
        fun ownerId keyVersion => @SinkState.Aligned.cutoff_append _ _ ownerId keyVersion hw
          haligned record rfl hcontrol
      have hposition' : ∀ fileId, positions.genesisPosition fileId =
          w.sink.inner.positions.genesisPosition fileId := by
        intro fileId
        unfold PositionLog.genesisPosition
        rw [hgenesis]
      constructor
      · intro hu _ genesis hsigned hnone hnames hlate
        obtain ⟨anchor, hanchor⟩ := Option.isSome_iff_exists.mp hlate.1
        refine hu genesis hsigned ⟨anchor, w.sink.inner.positions.nextPos, ?_, ?_, ?_⟩
          (late_served hlate ?_)
        · exact (hposition' genesis.fileId).trans hanchor
        · refine (hcutoff _ _).trans ?_
          rw [hnone, if_pos hnames]
          rfl
        · exact hw.ordered.genesis_lt genesis.fileId anchor hanchor
        · show (positions.genesisPosition genesis.fileId).isSome = true
          rw [hposition']
          exact hlate.1
      · rintro htimely genesis hsigned ⟨anchor, pos', hanchor, hpos', hlt⟩ hlate
        have hbefore := late_of_served (w := w) hsigned hlate
        have hanchor' := (hposition' genesis.fileId).symm.trans hanchor
        replace hpos' := (hcutoff _ _).symm.trans hpos'
        cases hold : w.sink.cutoff genesis.ownerId genesis.ownerKeyVersion with
        | some first =>
          rw [hold] at hpos'
          obtain rfl := Option.some.inj hpos'
          exact hclean genesis hsigned ⟨anchor, first, hanchor', hold, hlt⟩ hbefore
        | none =>
          rw [hold, Option.none_or] at hpos'
          by_cases hnames : compromises genesis.ownerId genesis.ownerKeyVersion record = true
          · exact htimely htaken genesis hsigned hold hnames hbefore
          · rw [if_neg hnames] at hpos'
            cases hpos'
    · -- A new position is above every cutoff, and nothing under it is late.
      refine iff_of_true ?_ trivial
      rintro genesis hsigned ⟨anchor, pos', hanchor', hpos', hlt⟩ hlate
      have hbefore := late_of_served (w := w) hsigned hlate
      obtain ⟨anchor₀, hanchor₀⟩ := Option.isSome_iff_exists.mp hbefore.1
      obtain ⟨_, rfl⟩ | ⟨hnew, _, _, hcontrol, hgenesis⟩ :=
        PositionLog.anchorGenesis_eq_some hanchor
      · exact hclean genesis hsigned ⟨anchor, pos', hanchor', hpos', hlt⟩ hbefore
      · have hne : genesis.fileId ≠ fileId := by
          intro heq
          rw [PositionLog.genesisPosition, heq, hnew] at hanchor₀
          cases hanchor₀
        have hsame : positions.genesisPosition genesis.fileId =
            w.sink.inner.positions.genesisPosition genesis.fileId := by
          unfold PositionLog.genesisPosition
          rw [hgenesis, AList.lookup_insert_ne hne]
        have hcutoff : w.sink.cutoff genesis.ownerId genesis.ownerKeyVersion = some pos' := by
          refine Eq.trans ?_ hpos'
          refine Eq.trans ?_ haligned.cutoff_eq.symm
          rw [hw.cutoff_eq]
          simp only [hcontrol]
        exact hclean genesis hsigned ⟨anchor, pos', hsame.symm.trans hanchor', hcutoff, hlt⟩ hbefore
    · refine iff_of_true ?_ trivial
      intro genesis hsigned hstolen hlate
      exact hclean genesis hsigned hstolen (late_of_served (w := w) hsigned hlate)

/-- What timely steps keep. -/
structure Sound (w : World) : Prop where
  aligned : w.sink.Aligned
  clean : w.Clean

lemma aligned_next (hw : w.sink.Aligned) (hnext : Next w step u) : u.sink.Aligned := by
  cases hnext with
  | sign => exact hw
  | request hrequest => exact hw.next hrequest

lemma aligned_start {anchorer : Anchorer} {token : List Char} {dirLogKey : SigningKey}
    {sink : SinkState} (h : SinkState.withDirLogKey anchorer token dirLogKey = some sink) :
    (start sink).sink.Aligned := by
  unfold SinkState.withDirLogKey at h
  obtain ⟨⟨bundle, anchorer⟩, _, h⟩ := Option.bind_eq_some_iff.mp h
  obtain rfl := Option.some.inj h
  exact ⟨PositionLog.ordered_new, rfl⟩

/-! ## The header checks -/

variable [Hkdf] [Aes256Gcm] [Hpke] [X25519] [MlKem768]

omit [Sha256] in
lemma honours_of_verifyHeader {ctx : VerifyContext} {records : VersionRecords}
    {header : Manifest × Dek × Bool} (hcheck : ctx.compromise = some (w.sink.compromiseCheck ctx.fileId))
    (hgenesis : decode Genesis records.genesisBytes = .ok genesis)
    (h : verifyHeader ctx records = .ok header) :
    genesis.fileId = ctx.fileId ∧ w.Honours genesis := by
  unfold verifyHeader at h
  simp only [bind_eq_ok, guard_eq_ok, mapError_eq_ok, pure_eq_ok, hgenesis] at h
  obtain ⟨_, -, -, -, -, genesis', hgenesis', hfile, -, _, hcompromise, -⟩ := h
  obtain rfl := Except.ok.inj hgenesis'
  have hfileId : genesis.fileId = ctx.fileId := not_not.mp hfile
  rw [hcheck, ← hfileId] at hcompromise
  exact ⟨hfileId, hcompromise⟩

/-- The client that asks the sink accepts only a genesis that is old at every compromise of its
key. -/
def AcceptsOld (w : World) : Prop :=
  ∀ (ctx : VerifyContext) (records : VersionRecords) (genesis : Genesis)
    (header : Manifest × Dek × Bool),
    ctx.compromise = some (w.sink.compromiseCheck ctx.fileId) →
    decode Genesis records.genesisBytes = .ok genesis → genesis ∈ w.signed →
    verifyHeader ctx records = .ok header →
      ∀ pos, w.sink.CompromisedAt genesis.ownerId genesis.ownerKeyVersion pos →
        w.OldAt genesis pos

omit [Sha256] in
lemma acceptsOld (h : w.Separates) : w.AcceptsOld := by
  intro ctx records genesis header hcheck hgenesis hsigned hheader pos hpos
  obtain ⟨_, hhonours⟩ := honours_of_verifyHeader hcheck hgenesis hheader
  exact h genesis hsigned hhonours pos hpos

variable {anchorer : Anchorer} {token : List Char} {dirLogKey : SigningKey} {sink : SinkState}
  {path : List (World × WorldStep)}

omit [Hkdf] [Aes256Gcm] [Hpke] [X25519] [MlKem768] in
lemma aligned_run (hstart : SinkState.withDirLogKey anchorer token dirLogKey = some sink)
    (hrun : LabelledRun Next (.start sink) path w) : w.sink.Aligned := by
  induction hrun with
  | start => exact aligned_start hstart
  | step _ hnext ih => exact aligned_next ih hnext

/-- **The cutoff separates old from forged, except late ones.**  What is honoured in a run is old in
all of its states exactly if its steps are timely: nobody signs a genesis for a file id that was
anchored, under a key that was or gets stolen after that.  In such a run the client accepts no
genesis under a compromised key but those that existed when their file was anchored, before the
compromise. -/
theorem genesisCutoff_separates_iff
    (hstart : SinkState.withDirLogKey anchorer token dirLogKey = some sink)
    (hrun : LabelledRun Next (.start sink) path w) :
    (((∀ x ∈ path, x.1.Separates) ∧ w.Separates) ↔ ∀ x ∈ path, x.1.Timely x.2) ∧
    ((∀ x ∈ path, x.1.Timely x.2) → w.AcceptsOld) := by
  have hinit : Sound (start sink) := ⟨aligned_start hstart, by simp [Clean, start]⟩
  have hgood : ∀ v : World, Sound v → v.Separates := by
    intro v hv
    exact (separates_iff hv.aligned).mpr hv.clean
  have hkeep : ∀ v step u, Sound v → v.Timely step → Next v step u → Sound u := by
    intro v step u hv htimely hnext
    exact ⟨aligned_next hv.aligned hnext, (clean_next_iff hv.aligned hv.clean hnext).mpr htimely⟩
  refine ⟨LabelledRun.all_iff hinit hgood hkeep ?_ hrun, ?_⟩
  · intro v step u hv hnext hseparates
    have hu : u.Clean := (separates_iff (aligned_next hv.aligned hnext)).mp hseparates
    exact (clean_next_iff hv.aligned hv.clean hnext).mp hu
  · intro htimely
    exact acceptsOld (hgood w (LabelledRun.invariant_of_steps hinit hkeep hrun htimely))

end World

/-! ## A forgery for an anchored file -/

section Runs

open ClosedRuns Replication

/-- The genesis of a version that is accepted, with the time of its creation. -/
def genesisAt (createdAt : Timestamp) : Genesis :=
  ⟨⟨.replicate 16 9⟩, ⟨.replicate 16 1⟩, 1, createdAt⟩

lemma compromises_firstRecord :
    compromises (genesisAt ⟨0⟩).ownerId (genesisAt ⟨0⟩).ownerKeyVersion firstRecord = true := by
  unfold compromises firstRecord compromise
  rw [Decoded.fromBytes_encode]
  rfl

lemma recordPrev_firstRecord : recordPrev firstRecord = some GENESIS_HEAD.bytes := by
  decide +kernel

/-- The file id has the first position. -/
def filePositions : PositionLog :=
  ⟨1, [], (∅ : AList fun _ : Id => UInt64).insert (genesisAt ⟨0⟩).fileId 0⟩

lemma recordControl_filePositions :
    filePositions.recordControl = some (1, ⟨2, [1], filePositions.genesisPos⟩) := by
  have hadd : checkedAdd filePositions.nextPos 1 = some 2 := by decide
  unfold PositionLog.recordControl
  rw [hadd]
  rfl

lemma exists_anchored {s : SinkState} (hadmin : s.adminToken = ['t'])
    (hpositions : s.inner.positions = .new) :
    ∃ t, s.Next (.postGenesisAnchor bearer (genesisAt ⟨0⟩).fileId) t ∧ t.adminToken = ['t'] ∧
      t.inner.positions = filePositions ∧ t.inner.store = s.inner.store ∧
      t.inner.anchorer = s.inner.anchorer := by
  have hok : adminOk bearer s.adminToken := by
    rw [hadmin]
    rfl
  have hposition : s.inner.positions.anchorGenesis (genesisAt ⟨0⟩).fileId =
      some (0, filePositions) := by
    rw [hpositions]
    rfl
  refine ⟨{ s with inner := { s.inner with positions := filePositions } }, ⟨.position 0, ?_⟩,
    hadmin, rfl, rfl, rfl⟩
  show s.postGenesisAnchor bearer _ = _
  unfold SinkState.postGenesisAnchor
  rw [if_neg (not_not.mpr hok), hposition]
  rfl

lemma exists_recorded {s : SinkState} {record : List UInt8} (hadmin : s.adminToken = ['t'])
    (hprev : recordPrev record = some s.inner.store.head)
    (hpositions : s.inner.positions = filePositions)
    (hgrow : Growable s.inner.anchorer.leaves ∧ Growable s.inner.anchorer.history) :
    ∃ t, s.Next (.postRecord bearer record) t ∧
      t.inner.store.records = s.inner.store.records ++ [record] ∧
      t.inner.positions = ⟨2, [1], filePositions.genesisPos⟩ := by
  have hok : adminOk bearer s.adminToken := by
    rw [hadmin]
    rfl
  obtain ⟨bundle, anchorer, hbundle, _⟩ :=
    exists_bundle hgrow ⟨s.inner.store.chainSeq + 1, sha256 record⟩
  have hposition : s.inner.positions.recordControl =
      some (1, ⟨2, [1], filePositions.genesisPos⟩) := by
    rw [hpositions]
    exact recordControl_filePositions
  exact ⟨_, ⟨_, SinkState.postRecord_of_taken ⟨hok, hprev⟩ hbundle hposition⟩, rfl, rfl⟩

/-- The owner's genesis is anchored, the key is stolen and reported, and a genesis is forged. -/
lemma exists_forged {record : List UInt8} (hprev : recordPrev record = some GENESIS_HEAD.bytes) :
    ∃ sink path w, SinkState.withDirLogKey (.new (key 1) (key 2)) ['t'] (key 3) = some sink ∧
    LabelledRun World.Next (.start sink) path w ∧
    w.signed = [genesisAt ⟨5⟩, genesisAt ⟨0⟩] ∧
    w.atAnchor (genesisAt ⟨0⟩).fileId = [genesisAt ⟨5⟩] ∧
    w.sink.inner.positions.genesisPosition (genesisAt ⟨0⟩).fileId = some 0 ∧
    w.sink.inner.store.records = [record] ∧ w.sink.inner.positions.controlPos = [1] := by
  obtain ⟨sink, hsink, hadmin, hstore, hpositions, _, hgrow⟩ := exists_start
  obtain ⟨anchored, hanchor, hadmin', hpositions', hstore', hanchorer⟩ :=
    exists_anchored hadmin hpositions
  rw [hstore] at hstore'
  rw [← hanchorer] at hgrow
  obtain ⟨recorded, hrecord, hrecords, hpositions''⟩ :=
    exists_recorded hadmin' (by rw [hprev, hstore']; rfl) hpositions' hgrow
  have hrun : LabelledRun World.Next (.start sink) _
      (((((World.start sink).withGenesis (genesisAt ⟨5⟩)).served anchored).served
        recorded).withGenesis (genesisAt ⟨0⟩)) :=
    (((LabelledRun.start.step .sign).step (.request hanchor)).step (.request hrecord)).step .sign
  refine ⟨sink, _, _, hsink, hrun, rfl, ?_, ?_, ?_, ?_⟩
  · show (World.served (World.served _ anchored) recorded).atAnchor _ = _
    rw [World.served_atAnchor, World.served_atAnchor_of_not]
    · rfl
    · show ¬ (sink.inner.positions.genesisPosition _).isSome = true
      rw [hpositions]
      decide
    · show (anchored.inner.positions.genesisPosition _).isSome = true
      rw [hpositions']
      decide
  · show recorded.inner.positions.genesisPosition _ = some 0
    rw [hpositions'']
    rfl
  · show recorded.inner.store.records = [record]
    rw [hrecords, hstore']
    rfl
  · show recorded.inner.positions.controlPos = [1]
    rw [hpositions'']

lemma verifyHeader_forged {w : World} (hhonours : w.Honours (genesisAt ⟨0⟩)) :
    letI := constantHkdf
    letI := tagStrippingAead
    letI := tagStrippingHpke
    letI := constantX25519
    letI := constantMlKem768
    ∃ header, verifyHeader { firstRead with
      compromise := some (w.sink.compromiseCheck (genesisAt ⟨0⟩).fileId) }
      (manyFramesBundle 1).toVersionRecords = .ok header := by
  have hgenesis : decode Genesis (manyFramesBundle 1).genesisBytes = .ok (genesisAt ⟨0⟩) :=
    decode_encode trivial
  have hgrant : decode Grant (manyFramesBundle 1).grantBytes = .ok _ :=
    decode_encode (v := manyFramesGrant ⟨.replicate 16 1⟩ .user) nofun
  have hrecovery : decode Grant (manyFramesBundle 1).recoveryGrantBytes = .ok _ :=
    decode_encode (v := manyFramesGrant RECOVERY_ID .recovery) fun _ => rfl
  unfold World.Honours at hhonours
  unfold verifyHeader recoveryGrantValid
  rw [decode_manyFramesManifest, hgenesis, hgrant, hrecovery]
  simp only [Except.mapError, bind, Except.bind, hhonours]
  exact ⟨_, rfl⟩

/-- **A forgery for an anchored file is accepted.** -/
theorem genesisCutoff_forged :
    letI := constantHkdf
    letI := tagStrippingAead
    letI := tagStrippingHpke
    letI := constantX25519
    letI := constantMlKem768
    ¬ ∀ anchorer token dirLogKey sink path (w : World),
      SinkState.withDirLogKey anchorer token dirLogKey = some sink →
      LabelledRun World.Next (.start sink) path w → w.AcceptsOld := by
  intro h
  obtain ⟨sink, path, w, hstart, hrun, hsigned, hatAnchor, hposition, hrecords, hcontrol⟩ :=
    exists_forged recordPrev_firstRecord
  have hnamed : w.sink.CompromisedAt (genesisAt ⟨0⟩).ownerId (genesisAt ⟨0⟩).ownerKeyVersion 1 := by
    refine ⟨0, firstRecord, ?_, compromises_firstRecord, ?_⟩
    · rw [hrecords]
      rfl
    · rw [hcontrol]
      rfl
  have hhonours : w.Honours (genesisAt ⟨0⟩) := by
    refine World.honours_iff.mpr ?_
    intro pos hpos
    have hpos' := (World.aligned_run hstart hrun).compromisedAt hpos
    obtain ⟨i, _, _, _, hi⟩ := hpos'
    rw [hcontrol] at hi
    obtain rfl := List.mem_singleton.mp (List.mem_of_getElem? hi)
    exact ⟨0, hposition, by decide⟩
  obtain ⟨header, hheader⟩ := verifyHeader_forged hhonours
  have hold := h _ _ _ sink path w hstart hrun _ _ (genesisAt ⟨0⟩) header rfl
    (decode_encode trivial) (by simp [hsigned]) hheader 1 hnamed
  have hmem := hold.1
  rw [hatAnchor] at hmem
  exact absurd (List.mem_singleton.mp hmem) (by decide)

theorem genesisCutoff_separates_iff_forged :
    letI := constantHkdf
    letI := tagStrippingAead
    letI := tagStrippingHpke
    letI := constantX25519
    letI := constantMlKem768
    ∃ sink path w, LabelledRun World.Next (.start sink) path w ∧
      w.signed = [genesisAt ⟨5⟩, genesisAt ⟨0⟩] ∧
      (((∀ x ∈ path, x.1.Separates) ∧ w.Separates) ↔ ∀ x ∈ path, x.1.Timely x.2) := by
  let _ := constantHkdf
  let _ := tagStrippingAead
  let _ := tagStrippingHpke
  let _ := constantX25519
  let _ := constantMlKem768
  obtain ⟨sink, path, w, hstart, hrun, hsigned, _⟩ := exists_forged recordPrev_firstRecord
  exact ⟨sink, path, w, hrun, hsigned, (World.genesisCutoff_separates_iff hstart hrun).1⟩

end Runs

end MaxSecu.Sink
