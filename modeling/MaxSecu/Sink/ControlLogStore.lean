import MaxSecu.Server.ControlLog

/-!
# The control log of the sink

The sink keeps its own copy of the control log.  It reads the link of a record by itself and takes
the record only if it continues from the head of the copy.
-/

namespace MaxSecu.Sink

open ExceptRules GuardedUpdate

/-- What the sink attests: the length of its log, and the head. -/
structure AnchoredHead where
  chainSeq : UInt64
  head : Bytes 32
  deriving DecidableEq

inductive AppendError
  | notAppending
  | malformed
  deriving DecidableEq

/-- The head that a record names, by the type id at the front. -/
def peekPrevHead (bytes : List UInt8) : Except AppendError (Bytes 32) :=
  match bytes with
  | hi :: lo :: _ =>
    match UInt16.ofNat (BigEndian.ofBytes [hi, lo]) with
    | 0x0006 =>
      (fun r => r.prevHead.bytes) <$> (decode Revocation bytes).mapError fun _ => .malformed
    | 0x0007 =>
      (fun r => r.prevHead.bytes) <$> (decode Reinstatement bytes).mapError fun _ => .malformed
    | 0x0008 =>
      (fun r => r.prevHead.bytes) <$> (decode KeyCompromise bytes).mapError fun _ => .malformed
    | _ => .error .malformed
  | _ => .error .malformed

structure ControlLogStore where
  records : List (List UInt8)
  head : Bytes 32
  chainSeq : UInt64
  deriving DecidableEq

namespace ControlLogStore

def new : ControlLogStore := ⟨[], GENESIS_HEAD.bytes, 0⟩

def anchoredHead (s : ControlLogStore) : AnchoredHead := ⟨s.chainSeq, s.head⟩

/-- Append a record that continues from the head. -/
def append [Sha256] (recordBytes : List UInt8) :
    ExceptT AppendError (StateM ControlLogStore) AnchoredHead := do
  let prevHead ← liftM (peekPrevHead recordBytes)
  let s ← get
  failIf (prevHead ≠ s.head) .notAppending
  let t : ControlLogStore := ⟨s.records ++ [recordBytes], sha256 recordBytes, s.chainSeq + 1⟩
  set t
  pure t.anchoredHead

end ControlLogStore

lemma peekPrevHead_eq (bytes : List UInt8) :
    peekPrevHead bytes = (recordPrev bytes).elim (.error .malformed) .ok := by
  unfold peekPrevHead recordPrev Decoded.fromBytes
  rcases bytes with _ | ⟨hi, _ | ⟨lo, rest⟩⟩
  · rfl
  · rfl
  · simp only
    generalize UInt16.ofNat (BigEndian.ofBytes [hi, lo]) = id
    split
    · cases decode Revocation (hi :: lo :: rest) with
      | error e => rfl
      | ok r => rfl
    · cases decode Reinstatement (hi :: lo :: rest) with
      | error e => rfl
      | ok r => rfl
    · cases decode KeyCompromise (hi :: lo :: rest) with
      | error e => rfl
      | ok r => rfl
    · simp

namespace ControlLogStore

variable [Sha256] {s t : ControlLogStore} {recordBytes : List UInt8}

lemma append_of_prev (h : recordPrev recordBytes = some s.head) :
    runFrom (append recordBytes) s = (.ok ⟨s.chainSeq + 1, sha256 recordBytes⟩,
      ⟨s.records ++ [recordBytes], sha256 recordBytes, s.chainSeq + 1⟩) := by
  unfold append
  rw [runFrom_liftM_bind, peekPrevHead_eq, h, Option.elim_some]
  simp only
  rw [runFrom_get_bind, runFrom_bind, runFrom_failIf, if_neg (by simp)]
  rfl

lemma append_of_malformed (h : recordPrev recordBytes = none) :
    runFrom (append recordBytes) s = (.error .malformed, s) := by
  unfold append
  rw [runFrom_liftM_bind, peekPrevHead_eq, h]
  rfl

lemma append_of_ne {prevHead : Bytes 32} (h : recordPrev recordBytes = some prevHead)
    (hne : prevHead ≠ s.head) : runFrom (append recordBytes) s = (.error .notAppending, s) := by
  unfold append
  rw [runFrom_liftM_bind, peekPrevHead_eq, h, Option.elim_some]
  simp only
  rw [runFrom_get_bind, runFrom_bind, runFrom_failIf, if_pos hne]

/-- The records are a chain, and the head is its head. -/
structure IsChain (s : ControlLogStore) : Prop where
  linked : ChainLinked s.records
  head_eq : s.head = chainHead s.records

lemma isChain_new : new.IsChain := ⟨trivial, rfl⟩

lemma append_step (h : s.IsChain) :
    (runFrom (append recordBytes) s).2.IsChain ∧
      (runFrom (append recordBytes) s).2.records =
        HashChain.extend recordPrev sha256 GENESIS_HEAD.bytes s.records recordBytes := by
  unfold HashChain.extend
  cases hprev : recordPrev recordBytes with
  | none =>
    rw [append_of_malformed hprev, if_neg (by simp)]
    exact ⟨h, rfl⟩
  | some prevHead =>
    by_cases hlink : prevHead = s.head
    · rw [hlink] at hprev
      have hchain : some s.head = some (chainHead s.records) := congrArg some h.head_eq
      rw [append_of_prev hprev, hlink, if_pos hchain]
      refine ⟨⟨?_, ?_⟩, rfl⟩
      · exact (HashChain.linked_append_singleton _ _).mpr ⟨h.linked, hprev.trans hchain⟩
      · exact (HashChain.head_append_singleton sha256 _ s.records recordBytes).symm
    · have hother : some prevHead ≠ some (chainHead s.records) := by
        rw [← h.head_eq]
        simpa using hlink
      rw [append_of_ne hprev hlink, if_neg hother]
      exact ⟨h, rfl⟩

end ControlLogStore

end MaxSecu.Sink
