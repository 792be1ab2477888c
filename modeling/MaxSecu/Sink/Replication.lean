import MaxSecu.Framework.Relay
import MaxSecu.Sink.ControlLogStore

/-!
# The sink keeps up with the control log

The handler appends a record and then publishes it to the sink.  Requests run at the same time, so
publications may overtake each other.  The sink refuses a record that does not continue from its
head, and nobody sends it again.

Server and sink are a relay of a hash chain (`relay`), so the sink has a prefix of the log and ends
with the head of the server when records are published in the order of their appends; and one
publication that overtakes another leaves the sink behind for good (`sink_keepsUp_iff`).
-/

namespace MaxSecu.Sink

open ExceptRules GuardedUpdate

/-- The log of the server, the one of the sink, and the records of the requests that are between
their two steps, in the order of the appends. -/
structure Replication where
  server : ControlLog
  sink : ControlLogStore
  unpublished : List (List UInt8)

inductive PostStep
  | append (req : ControlReq)
  | publish (i : ℕ)

/-- The step publishes the record that was appended first, if it publishes. -/
def PostStep.InOrder : PostStep → Prop
  | .append _ => True
  | .publish i => i = 0

namespace Replication

def start : Replication := ⟨.empty, .new, []⟩

section

variable [Sha256]

/-- One step of a request: it appends its record, is refused, or publishes what it appended.  The
answer of the sink is ignored. -/
inductive Next (s : Replication) : PostStep → Replication → Prop
  | append {req : ControlReq} {record : List UInt8} {head : Bytes 32} {server : ControlLog} :
      runFrom (postControlAppend req) s.server = (.ok (record, head), server) →
      Next s (.append req) ⟨server, s.sink, s.unpublished ++ [record]⟩
  | refuse {req : ControlReq} {e : PostControlError} {server : ControlLog} :
      runFrom (postControlAppend req) s.server = (.error e, server) →
      Next s (.append req) ⟨server, s.sink, s.unpublished⟩
  | publish {i : ℕ} {record : List UInt8} : s.unpublished[i]? = some record →
      Next s (.publish i) ⟨s.server, (runFrom (ControlLogStore.append record) s.sink).2,
        s.unpublished.eraseIdx i⟩

/-! ## The relay -/

def Chains (s : Replication) : Prop := s.server.IsChain ∧ s.sink.IsChain

def relay (s : Replication) : HashChain.Relay (List UInt8) :=
  ⟨s.server.controlRecords, s.sink.records, s.unpublished⟩

/-- What the step is for the relay: a request that is refused is none. -/
def move (s : Replication) : PostStep → HashChain.Relay.Move
  | .append req => if (runFrom (postControlAppend req) s.server).1.isOk then .commit else .idle
  | .publish i => .deliver i

variable {s t : Replication} {step : PostStep} {path : List (Replication × PostStep)}

lemma next_relay (h : s.Chains) (hnext : Next s step t) :
    t.Chains ∧ HashChain.Relay.Next recordPrev sha256 GENESIS_HEAD.bytes s.relay (s.move step)
      t.relay := by
  obtain ⟨hserver, hsink⟩ := h
  cases hnext with
  | @append req record head server hrun =>
    obtain ⟨sig, coSig, happend⟩ := postControlAppend_ok hrun
    obtain ⟨hprev, _, _, hrecords⟩ := ControlLog.appendControl_ok happend
    have hmove : s.move (.append req) = .commit := by
      show (if (runFrom (postControlAppend req) s.server).1.isOk then _ else _) = _
      rw [hrun]
      exact if_pos rfl
    refine ⟨⟨hserver.append happend, hsink⟩, ?_⟩
    rw [hmove]
    show HashChain.Relay.Next _ _ _ s.relay .commit
      ⟨server.controlRecords, s.sink.records, s.unpublished ++ [record]⟩
    rw [hrecords]
    refine HashChain.Relay.Next.commit ?_
    rw [hprev, hserver.head_eq]
    rfl
  | @refuse req e server hrun =>
    obtain rfl := atomic_postControlAppend s.server e server hrun
    have hmove : s.move (.append req) = .idle := by
      show (if (runFrom (postControlAppend req) s.server).1.isOk then _ else _) = _
      rw [hrun]
      exact if_neg (by simp [Except.isOk, Except.toBool])
    rw [hmove]
    exact ⟨⟨hserver, hsink⟩, .idle⟩
  | @publish i record hrecord =>
    obtain ⟨hchain, hrecords⟩ := ControlLogStore.append_step hsink
    refine ⟨⟨hserver, hchain⟩, ?_⟩
    show HashChain.Relay.Next _ _ _ s.relay (.deliver i) ⟨_, _, s.unpublished.eraseIdx i⟩
    rw [hrecords]
    exact .deliver hrecord

theorem relay_run (hrun : LabelledRun Next start path t) :
    t.Chains ∧ LabelledRun (HashChain.Relay.Next recordPrev sha256 GENESIS_HEAD.bytes) .empty
      (path.map fun x => (x.1.relay, x.1.move x.2)) t.relay :=
  hrun.simulates relay move ⟨ControlLog.isChain_empty, ControlLogStore.isChain_new⟩
    fun _ _ _ => next_relay

lemma inOrder_move : (s.move step).InOrder ↔ step.InOrder := by
  cases step with
  | append req =>
    have hmove : (s.move (.append req)).InOrder := by
      show (if (runFrom (postControlAppend req) s.server).1.isOk then
        HashChain.Relay.Move.commit else .idle).InOrder
      split_ifs
      · trivial
      · trivial
    exact iff_of_true hmove trivial
  | publish i => exact Iff.rfl

/-- The sink has the first records of the server's log, in all states of the run, and when all
requests are finished, the head of the server. -/
structure KeepsUp (path : List (Replication × PostStep)) (t : Replication) : Prop where
  before : ∀ x ∈ path, x.1.sink.records <+: x.1.server.controlRecords
  prefixed : t.sink.records <+: t.server.controlRecords
  finished : t.unpublished = [] → t.sink.head = t.server.controlHead

lemma inOrder_initial (hrun : LabelledRun Next start path t)
    (hpath : ∀ x ∈ path, x.2.InOrder) : t.sink.records <+: t.server.controlRecords := by
  obtain ⟨_, hrelay⟩ := relay_run hrun
  refine (HashChain.Relay.split_run hrelay ?_).copy_initial
  intro y hy
  obtain ⟨x, hx, rfl⟩ := List.mem_map.mp hy
  exact inOrder_move.mpr (hpath x hx)

/-- No head occurs twice in the log of the server. -/
abbrev FreshHeads (t : Replication) : Prop :=
  HashChain.Fresh sha256 GENESIS_HEAD.bytes t.server.controlRecords

/-- **The sink keeps up, in order.**  In every run in which records are published in the order of
their appends the sink has a prefix of the log and ends with the head of the server.  If no head
occurs twice in the log, the sink has a prefix of it in every run, and has the head of the server
only if all records were published in order. -/
theorem sink_keepsUp_iff (hrun : LabelledRun Next start path t) :
    ((∀ x ∈ path, x.2.InOrder) → KeepsUp path t) ∧
      (FreshHeads t → t.sink.records <+: t.server.controlRecords ∧
        (t.unpublished = [] → (KeepsUp path t ↔ ∀ x ∈ path, x.2.InOrder))) := by
  obtain ⟨hchains, hrelay⟩ := relay_run hrun
  have hinOrder : (∀ x ∈ path, x.2.InOrder) → KeepsUp path t := by
    intro hpath
    refine ⟨?_, inOrder_initial hrun hpath, ?_⟩
    · intro x hx
      obtain ⟨before, after, u, rfl, hbefore, _⟩ := hrun.of_mem hx
      exact inOrder_initial hbefore fun y hy => hpath y (List.mem_append_left _ hy)
    · intro hdone
      have hmoves : ∀ y ∈ path.map fun x => (x.1.relay, x.1.move x.2), y.2.InOrder := by
        intro y hy
        obtain ⟨x, hx, rfl⟩ := List.mem_map.mp hy
        exact inOrder_move.mpr (hpath x hx)
      have hsame := (HashChain.Relay.split_run hrelay hmoves).copy_eq hdone
      have hrecords : t.sink.records = t.server.controlRecords := hsame
      rw [hchains.2.head_eq, hchains.1.head_eq, hrecords]
  refine ⟨hinOrder, fun hfresh => ⟨(HashChain.Relay.behind_run hrelay hfresh).copy, ?_⟩⟩
  intro hdone
  refine ⟨fun hkeeps x hx => ?_, hinOrder⟩
  have hheads : chainHead t.sink.records = chainHead t.server.controlRecords := by
    rw [← hchains.2.head_eq, ← hchains.1.head_eq, hkeeps.finished hdone]
  have hmoves := HashChain.Relay.inOrder_of_heads_eq hrelay hfresh hheads
  exact inOrder_move.mp (hmoves _ (List.mem_map_of_mem hx))

end

section Runs

open ClosedRuns

/-- A key compromise that continues from a head. -/
def compromise (prevHead : Hash) (createdAt : Timestamp) : List UInt8 :=
  Decoded.encode <| .keyCompromise
    ⟨⟨.replicate 16 1⟩, 1, ⟨0⟩, prevHead, ⟨.replicate 16 2⟩, ⟨.replicate 16 3⟩, createdAt⟩

def firstRecord : List UInt8 := compromise GENESIS_HEAD ⟨1⟩

def secondRecord : List UInt8 := compromise ⟨sha256 firstRecord⟩ ⟨2⟩

def request (record : List UInt8) : ControlReq := ⟨some record, some (.replicate 64 0), none⟩

def appended (record : List UInt8) (s : Replication) : Replication :=
  ⟨(runFrom (postControlAppend (request record)) s.server).2, s.sink, s.unpublished ++ [record]⟩

def published (i : ℕ) (record : List UInt8) (s : Replication) : Replication :=
  ⟨s.server, (runFrom (ControlLogStore.append record) s.sink).2, s.unpublished.eraseIdx i⟩

/-- Two records are appended, and their publications are under way. -/
def underWay : Replication := appended secondRecord (appended firstRecord start)

def appendedPath : List (Replication × PostStep) :=
  [(start, .append (request firstRecord)),
    (appended firstRecord start, .append (request secondRecord))]

lemma next_appended {record : List UInt8} {head : Bytes 32} {s : Replication}
    (h : (runFrom (postControlAppend (request record)) s.server).1 = .ok (record, head)) :
    Next s (.append (request record)) (appended record s) :=
  .append (Prod.ext h rfl)

lemma run_appended : LabelledRun Next start appendedPath underWay := by
  have hfirst : (runFrom (postControlAppend (request firstRecord)) start.server).1 =
      .ok (firstRecord, sha256 firstRecord) := by
    decide +kernel
  have hsecond : (runFrom (postControlAppend (request secondRecord))
      (appended firstRecord start).server).1 = .ok (secondRecord, sha256 secondRecord) := by
    decide +kernel
  exact .step (.step .start (next_appended hfirst)) (next_appended hsecond)

lemma run_published {i j : ℕ} {record record' : List UInt8}
    (hi : underWay.unpublished[i]? = some record)
    (hj : (underWay.unpublished.eraseIdx i)[j]? = some record') :
    LabelledRun Next start
      (appendedPath ++ [(underWay, .publish i)] ++ [(published i record underWay, .publish j)])
      (published j record' (published i record underWay)) := by
  have hfirst : Next underWay (.publish i) (published i record underWay) := .publish hi
  have hsecond : Next (published i record underWay) (.publish j)
      (published j record' (published i record underWay)) := .publish hj
  exact (run_appended.step hfirst).step hsecond

/-- The publications in order. -/
theorem sink_keepsUp_iff_inOrder :
    KeepsUp (appendedPath ++ [(underWay, .publish 0)] ++
      [(published 0 firstRecord underWay, .publish 0)])
      (published 0 secondRecord (published 0 firstRecord underWay)) := by
  refine (sink_keepsUp_iff (run_published rfl rfl)).1 ?_
  simp [appendedPath, PostStep.InOrder]

/-- The second publication overtakes the first, and the sink stays without the second record. -/
theorem sink_keepsUp_iff_overtaken :
    ¬ ∀ path t, LabelledRun Next start path t → KeepsUp path t := by
  intro h
  have hheads := (h _ _ (run_published (i := 1) (j := 0) rfl rfl)).finished rfl
  exact absurd hheads (by decide +kernel)

end Runs

end Replication

end MaxSecu.Sink
