import MaxSecu.Framework.LabelledRun
import MaxSecu.Sink.ControlLogStore

/-!
# Server, sink and client agree on the control log

All three read a record with code of their own, and all three demand that it continues from the
head.  After any run of appends the client accepts what the server serves, and a sink that is fed
the accepted records takes every one and has the same head.  What the server refuses the others
refuse for the same reason, and a refusal changes nothing (`controlLogs_agree`).
-/

namespace MaxSecu

open ExceptRules GuardedUpdate

/-- What is posted to the control log. -/
structure ControlPost where
  recordBytes : List UInt8
  sig : Bytes 64
  coSig : Option (Bytes 64)

abbrev ControlPath := List (ControlLog × ControlPost × Except ControlAppendError (Bytes 32))

section

variable [Sha256]

/-- The post gets the answer. -/
def Appends (s : ControlLog) (x : ControlPost × Except ControlAppendError (Bytes 32))
    (t : ControlLog) : Prop :=
  runFrom (ControlLog.appendControl x.1.recordBytes x.1.sig x.1.coSig) s = (x.2, t)

/-- The records that the run had accepted, in order. -/
def acceptedRecords (path : ControlPath) : List (List UInt8) :=
  path.filterMap fun x => if x.2.2.isOk then some x.2.1.recordBytes else none

/-- Feed the records to the sink, one after the other. -/
def feed : List (List UInt8) → ExceptT Sink.AppendError (StateM Sink.ControlLogStore) Unit
  | [] => pure ()
  | r :: records => do
    let _ ← Sink.ControlLogStore.append r
    feed records

/-- What the refusal of a post says about the sink and the client. -/
structure RefusedBy (s : ControlLog) (post : ControlPost) (e : ControlAppendError) : Prop where
  server : (runFrom (ControlLog.appendControl post.recordBytes post.sig post.coSig) s).2 = s
  malformed : e = .malformed →
    (∀ sink : Sink.ControlLogStore,
      runFrom (Sink.ControlLogStore.append post.recordBytes) sink = (.error .malformed, sink)) ∧
    ∀ records, post.recordBytes ∈ records → ∀ anchoredHead,
      ∃ e, TombstoneSet.verify records anchoredHead = .error e
  conflict : e = .conflict → ∀ sink : Sink.ControlLogStore, sink.head = s.controlHead →
    runFrom (Sink.ControlLogStore.append post.recordBytes) sink = (.error .notAppending, sink)

variable {s t : ControlLog} {path : ControlPath}

lemma isChain_run (hrun : LabelledRun Appends .empty path t) :
    t.IsChain ∧ t.controlRecords = acceptedRecords path := by
  induction hrun with
  | start => exact ⟨ControlLog.isChain_empty, rfl⟩
  | @step path t u x _ hnext ih =>
    obtain ⟨post, answer⟩ := x
    obtain ⟨hchain, hrecords⟩ := ih
    have happend : acceptedRecords (path ++ [(t, post, answer)]) =
        acceptedRecords path ++ if answer.isOk then [post.recordBytes] else [] := by
      unfold acceptedRecords
      rw [List.filterMap_append]
      cases answer with
      | error e => rfl
      | ok head => rfl
    rw [happend]
    cases answer with
    | error e =>
      obtain ⟨rfl, _⟩ := ControlLog.appendControl_error hnext
      exact ⟨hchain, by simpa [Except.isOk, Except.toBool] using hrecords⟩
    | ok head =>
      obtain ⟨_, _, _, hafter⟩ := ControlLog.appendControl_ok hnext
      exact ⟨hchain.append hnext, by rw [hafter, hrecords]; rfl⟩

lemma feed_linked {records : List (List UInt8)} {sink : Sink.ControlLogStore}
    (hlinked : HashChain.Linked recordPrev sha256 sink.head records) :
    ∃ sink', runFrom (feed records) sink = (.ok (), sink') ∧
      sink'.head = HashChain.head sha256 sink.head records ∧
      sink'.records = sink.records ++ records := by
  induction records generalizing sink with
  | nil => exact ⟨sink, rfl, rfl, (List.append_nil _).symm⟩
  | cons r records ih =>
    obtain ⟨hprev, hrest⟩ := hlinked
    have htaken := Sink.ControlLogStore.append_of_prev hprev
    obtain ⟨sink', hfed, hhead, hrecords⟩ :=
      @ih ⟨sink.records ++ [r], sha256 r, sink.chainSeq + 1⟩ hrest
    refine ⟨sink', ?_, hhead, ?_⟩
    · rw [feed, runFrom_bind_ok htaken]
      exact hfed
    · rw [hrecords]
      exact List.append_assoc _ _ _

lemma exists_decodesTo {records : List (List UInt8)} {g : Bytes 32}
    (h : HashChain.Linked recordPrev sha256 g records) : ∃ ds, DecodesTo records ds := by
  induction records generalizing g with
  | nil => exact ⟨[], .nil⟩
  | cons r records ih =>
    obtain ⟨hprev, hrest⟩ := h
    obtain ⟨ds, hds⟩ := ih hrest
    unfold recordPrev at hprev
    cases hd : Decoded.fromBytes r with
    | error e => simp [hd] at hprev
    | ok d => exact ⟨d :: ds, .cons hd hds⟩

lemma verify_of_malformed {records : List (List UInt8)} {recordBytes : List UInt8}
    (hmem : recordBytes ∈ records) (hmalformed : recordPrev recordBytes = none)
    (anchoredHead : Bytes 32) : ∃ e, TombstoneSet.verify records anchoredHead = .error e := by
  cases hverify : TombstoneSet.verify records anchoredHead with
  | error e => exact ⟨e, rfl⟩
  | ok set =>
    obtain ⟨_, hlinked, _⟩ := TombstoneSet.verify_eq_ok.mp hverify
    obtain ⟨k, hk⟩ := List.mem_iff_getElem?.mp hmem
    have hprev := HashChain.prev_of_linked hlinked hk
    exact absurd (hmalformed.symm.trans hprev) (by simp)

lemma refusedBy_of_error {post : ControlPost} {e : ControlAppendError}
    (h : Appends s (post, .error e) t) : RefusedBy s post e := by
  obtain ⟨rfl, hwhy⟩ := ControlLog.appendControl_error h
  have hsame : (runFrom (ControlLog.appendControl post.recordBytes post.sig post.coSig) t).2 = t :=
    congrArg Prod.snd h
  obtain ⟨rfl, hnone⟩ | ⟨rfl, prevHead, hprev, hne⟩ := hwhy
  · refine ⟨hsame, fun _ => ⟨fun sink => ?_, fun records hmem anchoredHead => ?_⟩, ?_⟩
    · exact Sink.ControlLogStore.append_of_malformed hnone
    · exact verify_of_malformed hmem hnone anchoredHead
    · intro h
      exact absurd h (by simp)
  · refine ⟨hsame, fun h => absurd h (by simp), fun _ sink hsink => ?_⟩
    exact Sink.ControlLogStore.append_of_ne hprev (hsink ▸ hne)

/-- **One log in three places.**  After any run of appends the client accepts the served records at
the head, and a sink that is fed the accepted ones takes all of them, and has the same records and
the same head; what was refused as malformed, or for its link, is so by the others too, and every
refusal left both logs as they were. -/
theorem controlLogs_agree (hrun : LabelledRun Appends .empty path t) :
    (∃ set, TombstoneSet.verify t.controlRecords t.controlHead = .ok set) ∧
    (∃ sink, runFrom (feed (acceptedRecords path)) .new = (.ok (), sink) ∧
      sink.head = t.controlHead ∧ sink.records = t.controlRecords) ∧
    ∀ x ∈ path, ∀ e, x.2.2 = .error e → RefusedBy x.1 x.2.1 e := by
  obtain ⟨hchain, hrecords⟩ := isChain_run hrun
  refine ⟨?_, ?_, ?_⟩
  · obtain ⟨ds, hds⟩ := exists_decodesTo hchain.linked
    exact ⟨⟨ds⟩, TombstoneSet.verify_eq_ok.mpr ⟨hds, hchain.linked, hchain.head_eq.symm⟩⟩
  · obtain ⟨sink, hfed, hhead, hsink⟩ := @feed_linked _ t.controlRecords .new hchain.linked
    rw [hrecords] at hfed
    exact ⟨sink, hfed, hhead.trans hchain.head_eq.symm, hsink⟩
  · intro x hx e he
    obtain ⟨_, _, u, _, _, hnext⟩ := hrun.of_mem hx
    obtain ⟨s, post, answer⟩ := x
    obtain rfl : answer = .error e := he
    exact refusedBy_of_error hnext

end

section Runs

open ClosedRuns

/-- A key compromise at the start of the log. -/
def firstCompromise : Decoded :=
  .keyCompromise
    ⟨⟨.replicate 16 1⟩, 1, ⟨0⟩, GENESIS_HEAD, ⟨.replicate 16 2⟩, ⟨.replicate 16 3⟩, ⟨0⟩⟩

/-- It is posted twice. -/
def firstPost : ControlPost := ⟨firstCompromise.encode, .replicate 64 0, none⟩

def loggedFirst : ControlLog :=
  ⟨[⟨8, firstPost.recordBytes, firstPost.sig, none, sha256 firstPost.recordBytes⟩],
    sha256 firstPost.recordBytes⟩

lemma appends_first :
    Appends .empty (firstPost, .ok (sha256 firstPost.recordBytes)) loggedFirst := by
  unfold Appends
  decide +kernel

lemma appends_again : Appends loggedFirst (firstPost, .error .conflict) loggedFirst := by
  unfold Appends
  decide +kernel

/-- The first time it is taken by all three, the second time by none. -/
theorem controlLogs_agree_reposted :
    (∃ set, TombstoneSet.verify loggedFirst.controlRecords loggedFirst.controlHead = .ok set) ∧
      RefusedBy loggedFirst firstPost .conflict := by
  have hrun : LabelledRun Appends .empty
      [(.empty, firstPost, .ok (sha256 firstPost.recordBytes)),
        (loggedFirst, firstPost, .error .conflict)] loggedFirst :=
    .step (.step .start appends_first) appends_again
  obtain ⟨hverified, _, hrefused⟩ := controlLogs_agree hrun
  exact ⟨hverified, hrefused (loggedFirst, firstPost, .error .conflict) (by simp) _ rfl⟩

end Runs

end MaxSecu
