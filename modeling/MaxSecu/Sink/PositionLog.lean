import MaxSecu.Encoding.Types
import MaxSecu.Framework.AssociationList
import MaxSecu.Server.RateLimit

/-!
# Positions at the sink

Appends of control records and anchorings of files draw their positions from one counter, so any two
of them can be compared.  A file keeps the position of its first anchoring.
-/

namespace MaxSecu.Sink

/-- The next position, the positions of the control records in order, and those of the files. -/
structure PositionLog where
  nextPos : UInt64
  controlPos : List UInt64
  genesisPos : AList fun _ : Id => UInt64

namespace PositionLog

def new : PositionLog := ⟨0, [], ∅⟩

def recordControl (l : PositionLog) : Option (UInt64 × PositionLog) := do
  let next ← checkedAdd l.nextPos 1
  some (l.nextPos, ⟨next, l.controlPos ++ [l.nextPos], l.genesisPos⟩)

/-- The position of a file, which is drawn the first time. -/
def anchorGenesis (l : PositionLog) (fileId : Id) : Option (UInt64 × PositionLog) :=
  match l.genesisPos.lookup fileId with
  | some pos => some (pos, l)
  | none => do
    let next ← checkedAdd l.nextPos 1
    some (l.nextPos, ⟨next, l.controlPos, l.genesisPos.insert fileId l.nextPos⟩)

/-- The position of the control record with this sequence number, from 1. -/
def controlPosition (l : PositionLog) (chainSeq : UInt64) : Option UInt64 :=
  if chainSeq = 0 then none else l.controlPos[(chainSeq - 1).toNat]?

def genesisPosition (l : PositionLog) (fileId : Id) : Option UInt64 := l.genesisPos.lookup fileId

/-! ## What an event does -/

variable {l m : PositionLog} {pos : UInt64} {fileId : Id}

lemma recordControl_eq_some (h : l.recordControl = some (pos, m)) :
    pos = l.nextPos ∧ m.nextPos.toNat = l.nextPos.toNat + 1 ∧
      m.controlPos = l.controlPos ++ [l.nextPos] ∧ m.genesisPos = l.genesisPos := by
  unfold recordControl at h
  obtain ⟨next, hnext, hm⟩ := Option.bind_eq_some_iff.mp h
  obtain ⟨rfl, rfl⟩ := Prod.mk.inj (Option.some.inj hm)
  exact ⟨rfl, checkedAdd_eq_some.mp hnext, rfl, rfl⟩

lemma anchorGenesis_eq_some (h : l.anchorGenesis fileId = some (pos, m)) :
    (l.genesisPos.lookup fileId = some pos ∧ m = l) ∨
      (l.genesisPos.lookup fileId = none ∧ pos = l.nextPos ∧
        m.nextPos.toNat = l.nextPos.toNat + 1 ∧ m.controlPos = l.controlPos ∧
        m.genesisPos = l.genesisPos.insert fileId l.nextPos) := by
  unfold anchorGenesis at h
  cases hpos : l.genesisPos.lookup fileId with
  | some pos' =>
    simp only [hpos] at h
    obtain ⟨rfl, rfl⟩ := Prod.mk.inj (Option.some.inj h)
    exact .inl ⟨rfl, rfl⟩
  | none =>
    simp only [hpos] at h
    obtain ⟨next, hnext, hm⟩ := Option.bind_eq_some_iff.mp h
    obtain ⟨rfl, rfl⟩ := Prod.mk.inj (Option.some.inj hm)
    exact .inr ⟨rfl, rfl, checkedAdd_eq_some.mp hnext, rfl, rfl⟩

/-! ## Order -/

/-- Positions that were drawn are below the next one, and control records are in their order. -/
structure Ordered (l : PositionLog) : Prop where
  control_lt : ∀ pos ∈ l.controlPos, pos.toNat < l.nextPos.toNat
  genesis_lt : ∀ fileId pos, l.genesisPos.lookup fileId = some pos →
    pos.toNat < l.nextPos.toNat
  sorted : l.controlPos.Pairwise fun p q => p.toNat < q.toNat
  length_le : l.controlPos.length ≤ l.nextPos.toNat

lemma ordered_new : new.Ordered := by
  refine ⟨by simp [new], ?_, List.Pairwise.nil, by simp [new]⟩
  intro fileId pos h
  rw [new, AList.lookup_empty] at h
  cases h

lemma Ordered.recordControl (hl : l.Ordered) (h : l.recordControl = some (pos, m)) :
    m.Ordered := by
  obtain ⟨_, hnext, hcontrol, hgenesis⟩ := recordControl_eq_some h
  refine ⟨?_, ?_, ?_, ?_⟩
  · intro p hp
    rw [hcontrol] at hp
    obtain hold | hnew := List.mem_append.mp hp
    · have hlt := hl.control_lt p hold
      omega
    · obtain rfl := List.mem_singleton.mp hnew
      omega
  · intro fileId p hp
    rw [hgenesis] at hp
    have hlt := hl.genesis_lt fileId p hp
    omega
  · rw [hcontrol, List.pairwise_append]
    refine ⟨hl.sorted, List.pairwise_singleton _ _, ?_⟩
    intro p hp q hq
    obtain rfl := List.mem_singleton.mp hq
    exact hl.control_lt p hp
  · have hle := hl.length_le
    rw [hcontrol, List.length_append, List.length_singleton]
    omega

lemma Ordered.anchorGenesis (hl : l.Ordered) (h : l.anchorGenesis fileId = some (pos, m)) :
    m.Ordered := by
  obtain ⟨_, rfl⟩ | ⟨_, _, hnext, hcontrol, hgenesis⟩ := anchorGenesis_eq_some h
  · exact hl
  refine ⟨?_, ?_, hcontrol ▸ hl.sorted, ?_⟩
  · intro p hp
    rw [hcontrol] at hp
    have hlt := hl.control_lt p hp
    omega
  · intro f p hp
    rw [hgenesis] at hp
    by_cases hf : f = fileId
    · subst hf
      rw [AList.lookup_insert] at hp
      obtain rfl := Option.some.inj hp
      omega
    · rw [AList.lookup_insert_ne hf] at hp
      have hlt := hl.genesis_lt f p hp
      omega
  · have hle := hl.length_le
    rw [hcontrol]
    omega

end PositionLog

end MaxSecu.Sink
