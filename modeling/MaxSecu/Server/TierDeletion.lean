import MaxSecu.Framework.Beside
import MaxSecu.Server.TierCount

/-!
# A deleted stream and the copies under way

`delete_stream` drops a stream from the local store, then from the cold tier, then from the index,
and takes no lock across the three.  Other operations copy chunks meanwhile: a read that missed the
local store has the bytes of the cold copy and puts them there, an offload has those of the local
copy and uploads them.  Each writes back a chunk that it read earlier, so a deletion in between is
undone.

A run in which no such copy of the stream is half done when the tier it goes to is cleared, and in
which none begins between the two deletions, leaves nothing of the stream
(`clearOf_of_undisturbed`).  `clearOf_rehydrated` is a run with a half-done read.
-/

namespace MaxSecu

open Program

/-! ## Writing back what was read -/

namespace TierCall

variable {b : String}

/-- The call puts a chunk of the stream on the local store. -/
def PutsLocal (b : String) : TierCall → Prop
  | localStore (.putChunk key _) => key.blobRef = b
  | _ => False

/-- The call puts a chunk of the stream in the cold tier. -/
def PutsCold (b : String) : TierCall → Prop
  | coldTier (.putChunk key _) => key.blobRef = b
  | _ => False

/-- The call may put a chunk of the stream into the index. -/
def Records (b : String) : TierCall → Prop
  | index (.recordPut key _ _ _ _) => key.blobRef = b
  | index (.recordHit key _ _ _) => key.blobRef = b
  | index (.readopt key _ _ _) => key.blobRef = b
  | _ => False

def Writes (b : String) (c : TierCall) : Prop := c.PutsLocal b ∨ c.PutsCold b ∨ c.Records b

/-- The call read a chunk of the stream. -/
def Finds (b : String) : (c : TierCall) → c.Response → Prop
  | localStore (.getChunk key), .ok (some _) => key.blobRef = b
  | coldTier (.getChunk key), .ok (some _) => key.blobRef = b
  | _, _ => False

end TierCall

/-- The index has no chunk of the stream. -/
def LocalIndex.Forgets (b : String) (index : LocalIndex) : Prop :=
  ∀ key, key.blobRef = b → index.contains key = false

/-- Neither store nor the index has a chunk of the stream. -/
structure TierState.ClearOf (b : String) (s : TierState) : Prop where
  localStore : s.localStore.streamKeys b = ∅
  coldTier : s.coldTier.streamKeys b = ∅
  index : s.index.Forgets b

namespace TierDeletion

open TierCall

variable {b : String} {key : ChunkKey} {idle : ℕ} {inCold : Bool}

/-- The program writes no chunk of the stream before it has read one. -/
def WritesAfterFinding {α : Type} (b : String) (p : TierProgram α) : Prop :=
  p.Guarded (Writes b) (Finds b) fun _ => True

lemma writesAfterFinding_onLocal {c : StoreCall} {post : Except BlobError c.Output → Prop}
    (hput : ¬ (TierCall.localStore c).PutsLocal b)
    (hpost : ∀ r, ¬ Finds b (.localStore c) r → post r) :
    (onLocal c).run.Guarded (Writes b) (Finds b) post := by
  refine ⟨?_, hpost⟩
  rintro (hlocal | hcold | hrecord)
  · exact hput hlocal
  · exact hcold
  · exact hrecord

lemma writesAfterFinding_onCold {c : StoreCall} {post : Except BlobError c.Output → Prop}
    (hput : ¬ (TierCall.coldTier c).PutsCold b)
    (hpost : ∀ r, ¬ Finds b (.coldTier c) r → post r) :
    (onCold c).run.Guarded (Writes b) (Finds b) post := by
  refine ⟨?_, hpost⟩
  rintro (hlocal | hcold | hrecord)
  · exact hlocal
  · exact hput hcold
  · exact hrecord

lemma writesAfterFinding_onIndex {c : IndexCall} {post : c.Output → Prop}
    (hrecord : ¬ (TierCall.index c).Records b) (hpost : ∀ r, post r) :
    (onIndex c).Guarded (Writes b) (Finds b) post := by
  refine ⟨?_, fun r _ => hpost r⟩
  rintro (hlocal | hcold | hrecord')
  · exact hlocal
  · exact hcold
  · exact hrecord hrecord'

lemma writesAfterFinding_clockNow {post : ℕ → Prop} (hpost : ∀ time, post time) :
    clockNow.Guarded (Writes b) (Finds b) post := by
  refine ⟨?_, fun time _ => hpost time⟩
  rintro (hlocal | hcold | hrecord)
  · exact hlocal
  · exact hcold
  · exact hrecord

lemma writesAfterFinding_localRead {post : Except BlobError (Option (List UInt8)) → Prop}
    (herror : ∀ e, post (.error e)) (hnone : post (.ok none))
    (hsome : key.blobRef ≠ b → ∀ bytes, post (.ok (some bytes))) :
    (onLocal (.getChunk key)).run.Guarded (Writes b) (Finds b) post := by
  apply writesAfterFinding_onLocal id
  intro r hfinds
  cases r with
  | error e => exact herror e
  | ok found =>
    cases found with
    | none => exact hnone
    | some bytes => exact hsome hfinds bytes

lemma writesAfterFinding_bind {α β : Type} {x : TierM α} {g : α → TierM β}
    {post : Except BlobError α → Prop} (hx : x.run.Guarded (Writes b) (Finds b) post)
    (hg : ∀ a, post (.ok a) → WritesAfterFinding b (g a).run) :
    WritesAfterFinding b (x >>= g).run := by
  apply Guarded.bindExcept
  apply Guarded.mono hx (fun _ h => h)
  intro r hr
  cases r with
  | error e => exact after_error trivial
  | ok a => exact after_ok (hg a hr)

lemma writesAfterFinding_offload :
    WritesAfterFinding b (WriteBackTier.offload key inCold).run := by
  unfold WriteBackTier.offload WritesAfterFinding
  have hdelete : (onLocal (.deleteChunk key)).run.Guarded (Writes b) (Finds b) fun _ => True :=
    writesAfterFinding_onLocal id fun _ _ => trivial
  by_cases hflag : inCold = true
  · rw [if_pos hflag]
    exact hdelete
  · rw [if_neg hflag]
    apply Guarded.bindExcept
    apply writesAfterFinding_localRead
    · exact fun _ => after_error trivial
    · exact after_ok trivial
    · intro hother bytes
      apply after_ok
      exact writesAfterFinding_bind (writesAfterFinding_onCold hother fun _ h => h)
        fun _ _ => hdelete

lemma writesAfterFinding_readopt :
    WritesAfterFinding b (WriteBackTier.readopt key inCold) := by
  unfold WriteBackTier.readopt
  apply Guarded.bind
  apply writesAfterFinding_localRead
  · exact fun _ => trivial
  · exact trivial
  · intro hother bytes
    apply Guarded.bind
    apply writesAfterFinding_clockNow
    intro time
    exact writesAfterFinding_onIndex hother fun _ => trivial

lemma writesAfterFinding_readoptAll (victims : List Victim) : WritesAfterFinding b
    (victims.forM fun v => WriteBackTier.readopt v.key v.inCold : TierProgram Unit) := by
  induction victims with
  | nil => exact trivial
  | cons v rest ih =>
    apply Guarded.bind
    apply Guarded.mono writesAfterFinding_readopt (fun _ h => h)
    exact fun _ _ => ih

lemma writesAfterFinding_offloadVictims (victims : List Victim) :
    WritesAfterFinding b (WriteBackTier.offloadVictims victims) := by
  induction victims with
  | nil => exact trivial
  | cons v rest ih =>
    unfold WriteBackTier.offloadVictims
    apply Guarded.bind
    apply Guarded.mono writesAfterFinding_offload (fun _ h => h)
    intro r _
    by_cases hok : r.isOk = true
    · rw [if_pos hok]
      exact ih
    · rw [if_neg hok]
      apply Guarded.bind
      apply Guarded.mono writesAfterFinding_readopt (fun _ h => h)
      exact fun _ _ => writesAfterFinding_readoptAll rest

lemma writesAfterFinding_runIdleSweep :
    WritesAfterFinding b (WriteBackTier.runIdleSweep idle) := by
  unfold WriteBackTier.runIdleSweep
  apply Guarded.bind
  apply writesAfterFinding_clockNow
  intro time
  apply Guarded.bind
  apply writesAfterFinding_onIndex id
  exact fun victims => writesAfterFinding_offloadVictims victims

lemma writesAfterFinding_record {α : Type} {size : ℕ} {pinned : Bool} {rest : TierM α}
    (hother : key.blobRef ≠ b) (hrest : WritesAfterFinding b rest.run) :
    WritesAfterFinding b
      (do
        let now ← clockNow
        let victims : List Victim ← onIndex (.recordPut key size now inCold pinned)
        WriteBackTier.offloadVictims victims
        rest : TierM α).run := by
  apply Guarded.bindExcept
  apply Guarded.lift
  apply writesAfterFinding_clockNow
  intro time
  apply after_ok
  apply Guarded.bindExcept
  apply Guarded.lift
  apply writesAfterFinding_onIndex
  · exact hother
  · intro victims
    apply after_ok
    apply Guarded.bindExcept
    apply Guarded.lift
    apply Guarded.mono (writesAfterFinding_offloadVictims victims) (fun _ h => h)
    intro _ _
    exact after_ok hrest

lemma writesAfterFinding_putChunk {bytes : List UInt8} (hother : key.blobRef ≠ b) :
    WritesAfterFinding b (WriteBackTier.putChunk key bytes).run := by
  unfold WriteBackTier.putChunk
  exact writesAfterFinding_bind (writesAfterFinding_onLocal hother fun _ h => h)
    fun _ _ => writesAfterFinding_record hother trivial

lemma writesAfterFinding_rehydrate :
    WritesAfterFinding b (WriteBackTier.rehydrate key).run := by
  unfold WriteBackTier.rehydrate
  apply writesAfterFinding_bind (writesAfterFinding_onCold id fun _ h => h)
  intro found hfinds
  cases found with
  | none => exact trivial
  | some bytes =>
    have hother : key.blobRef ≠ b := hfinds
    exact writesAfterFinding_bind (writesAfterFinding_onLocal hother fun _ h => h)
      fun _ _ => writesAfterFinding_record hother trivial

lemma writesAfterFinding_getChunk :
    WritesAfterFinding b (WriteBackTier.getChunk key).run := by
  unfold WriteBackTier.getChunk
  apply Guarded.bindExcept
  apply writesAfterFinding_localRead
  · exact fun _ => after_error trivial
  · exact after_ok writesAfterFinding_rehydrate
  · intro hother bytes
    apply after_ok
    apply Guarded.bindExcept
    apply Guarded.lift
    apply writesAfterFinding_clockNow
    intro time
    apply after_ok
    apply Guarded.bindExcept
    apply Guarded.lift
    apply writesAfterFinding_onIndex
    · exact hother
    · exact fun _ => after_ok trivial

lemma writesAfterFinding_chunkCount {ref : String} :
    WritesAfterFinding b (WriteBackTier.chunkCount ref).run := by
  unfold WriteBackTier.chunkCount
  apply writesAfterFinding_bind (writesAfterFinding_onLocal id fun _ h => h)
  intro localCount _
  apply Guarded.bindExcept
  apply Guarded.lift
  apply writesAfterFinding_onCold id
  intro coldCount _
  apply after_ok
  cases coldCount with
  | error e => exact trivial
  | ok n =>
    apply Guarded.bindExcept
    apply Guarded.lift
    apply writesAfterFinding_onIndex id
    exact fun _ => after_ok trivial

lemma writesAfterFinding_deleteStream {ref : String} :
    WritesAfterFinding b (WriteBackTier.deleteStream ref).run := by
  unfold WriteBackTier.deleteStream
  apply writesAfterFinding_bind (writesAfterFinding_onLocal id fun _ h => h)
  intro _ _
  apply writesAfterFinding_bind (writesAfterFinding_onCold id fun _ h => h)
  intro _ _
  apply Guarded.lift
  exact writesAfterFinding_onIndex id fun _ => trivial

lemma writesAfterFinding_deleteChunk :
    WritesAfterFinding b (WriteBackTier.deleteChunk key).run := by
  unfold WriteBackTier.deleteChunk
  apply writesAfterFinding_bind (writesAfterFinding_onLocal id fun _ h => h)
  intro _ _
  apply writesAfterFinding_bind (writesAfterFinding_onCold id fun _ h => h)
  intro _ _
  apply Guarded.lift
  exact writesAfterFinding_onIndex id fun _ => trivial

/-- The operation puts no chunk of the stream. -/
def PutsOther (b : String) : TierOp → Prop
  | .putChunk key _ => key.blobRef ≠ b
  | _ => True

lemma writesAfterFinding_program {op : TierOp} (hop : PutsOther b op) :
    WritesAfterFinding b (op.program idle).run := by
  have hreply : ∀ {α : Type} {x : TierM α} {reply : α → TierReply}, WritesAfterFinding b x.run →
      WritesAfterFinding b (x >>= fun a => pure (reply a)).run := by
    intro α x reply hx
    exact writesAfterFinding_bind hx fun _ _ => trivial
  cases op with
  | putChunk key bytes => exact hreply (writesAfterFinding_putChunk hop)
  | getChunk key => exact hreply writesAfterFinding_getChunk
  | runIdleSweep =>
    apply hreply
    apply Guarded.lift
    exact writesAfterFinding_runIdleSweep
  | chunkCount ref => exact hreply writesAfterFinding_chunkCount
  | deleteStream ref => exact hreply writesAfterFinding_deleteStream
  | deleteChunk key => exact hreply writesAfterFinding_deleteChunk
  | setClock time =>
    apply hreply
    apply Guarded.lift
    refine ⟨?_, fun _ _ => trivial⟩
    rintro (hlocal | hcold | hrecord)
    · exact hlocal
    · exact hcold
    · exact hrecord

/-! ## What the calls leave clear -/

section Calls

variable {c : TierCall} {s t : TierState} {r : c.Response}

lemma step_cases (hstep : c.Step s r t) :
    t = s ∨
      (∃ d, c = .localStore d ∧ t = { s with localStore := (d.apply s.localStore).2 }) ∨
      (∃ d, c = .coldTier d ∧ t = { s with coldTier := (d.apply s.coldTier).2 }) ∨
      (∃ d, c = .index d ∧ t = { s with index := (d.apply s.index).2 }) ∨
      ∃ time, t = { s with clock := time } := by
  cases c with
  | localStore d =>
    cases r with
    | error e => exact .inl hstep
    | ok out => exact .inr (.inl ⟨d, rfl, hstep.2⟩)
  | coldTier d =>
    cases r with
    | error e => exact .inl hstep
    | ok out => exact .inr (.inr (.inl ⟨d, rfl, hstep.2⟩))
  | index d => exact .inr (.inr (.inr (.inl ⟨d, rfl, hstep.2⟩)))
  | now => exact .inl hstep.2
  | setClock time => exact .inr (.inr (.inr (.inr ⟨time, hstep⟩)))

lemma localStore_step (hstep : c.Step s r t) (hput : ¬ c.PutsLocal b)
    (h : s.localStore.streamKeys b = ∅) : t.localStore.streamKeys b = ∅ := by
  obtain rfl | ⟨d, rfl, rfl⟩ | ⟨d, rfl, rfl⟩ | ⟨d, rfl, rfl⟩ | ⟨time, rfl⟩ := step_cases hstep
  · exact h
  · apply StoreCall.streamKeys_apply _ h
    rintro key bytes rfl
    exact hput
  · exact h
  · exact h
  · exact h

lemma coldTier_step (hstep : c.Step s r t) (hput : ¬ c.PutsCold b)
    (h : s.coldTier.streamKeys b = ∅) : t.coldTier.streamKeys b = ∅ := by
  obtain rfl | ⟨d, rfl, rfl⟩ | ⟨d, rfl, rfl⟩ | ⟨d, rfl, rfl⟩ | ⟨time, rfl⟩ := step_cases hstep
  · exact h
  · exact h
  · apply StoreCall.streamKeys_apply _ h
    rintro key bytes rfl
    exact hput
  · exact h
  · exact h

lemma contains_eq_false {index : LocalIndex} :
    index.contains key = false ↔ index.entries.lookup key = none := by
  simp [LocalIndex.contains]

lemma forgets_recordPut {index : LocalIndex} {size now : ℕ} {pinned : Bool}
    (hother : key.blobRef ≠ b) (h : index.Forgets b) :
    (index.recordPut key size now inCold pinned).1.Forgets b := by
  intro k hk
  have hne : k ≠ key := by
    rintro rfl
    exact hother hk
  rw [contains_eq_false, LocalIndex.recordPut_spec.lookup k, LocalIndex.lookup_set, if_neg hne,
    LocalIndex.entries_advance, contains_eq_false.mp (h k hk), ite_self]

lemma forgets_apply {c : IndexCall} {index : LocalIndex}
    (hrecord : ¬ (TierCall.index c).Records b) (h : index.Forgets b) :
    (c.apply index).2.Forgets b := by
  cases c with
  | recordPut key size now inCold pinned => exact forgets_recordPut hrecord h
  | recordHit key size now pinned =>
    unfold IndexCall.apply
    by_cases hcontains : index.contains key = true
    · simp only [hcontains, if_true]
      intro k hk
      have hnone : index.entries.lookup k = none := contains_eq_false.mp (h k hk)
      rw [contains_eq_false, LocalIndex.lookup_recordAccess]
      by_cases hkey : k = key
      · rw [if_pos hkey, ← hkey, hnone]
        rfl
      · rw [if_neg hkey, hnone]
    · simp only [hcontains]
      exact forgets_recordPut hrecord h
  | readopt key size now inCold => exact forgets_recordPut hrecord h
  | idleVictims now idle => exact h
  | overlapCount ref => exact h
  | remove key =>
    intro k hk
    show (index.remove key).contains k = false
    rw [contains_eq_false, LocalIndex.lookup_remove, contains_eq_false.mp (h k hk), ite_self]
  | removeStream ref =>
    intro k hk
    show (index.removeStream ref).contains k = false
    rw [contains_eq_false, LocalIndex.lookup_removeStream, contains_eq_false.mp (h k hk), ite_self]

lemma index_step (hstep : c.Step s r t) (hrecord : ¬ c.Records b) (h : s.index.Forgets b) :
    t.index.Forgets b := by
  obtain rfl | ⟨d, rfl, rfl⟩ | ⟨d, rfl, rfl⟩ | ⟨d, rfl, rfl⟩ | ⟨time, rfl⟩ := step_cases hstep
  · exact h
  · exact h
  · exact h
  · exact forgets_apply hrecord h
  · exact h

end Calls

/-! ## A deletion beside other operations -/

/-- Operations on the tier under way, and a `delete_stream`. -/
abbrev World :=
  Beside TierOp TierCall Response (Except BlobError TierReply) (Except BlobError Unit) TierState

abbrev Move := Beside.Move TierOp TierCall Response

abbrev Next (idle : ℕ) : World → Move → World → Prop :=
  Beside.Next TierCall.Step fun op => (TierOp.program idle op).run

/-- The deletion has dropped the stream from the local store, and not yet from the cold tier. -/
def BetweenStores (b : String) (W : World) : Prop :=
  ∃ next, W.mine = .call (.coldTier (.deleteStream b)) next

/-- When a part of the tier is cleared, no operation has a chunk of the stream in hand that it may
still write there; and none reads one from the cold tier between the two stores. -/
def Undisturbed (b : String) (W : World) : Move → Prop
  | .mine ⟨.localStore _, .ok _⟩ => W.AllGuarded (PutsLocal b) (Finds b)
  | .mine ⟨.coldTier _, .ok _⟩ => W.AllGuarded (PutsCold b) (Finds b)
  | .mine ⟨.index _, _⟩ => W.AllGuarded (Records b) (Finds b)
  | .call ⟨.coldTier (.getChunk key), .ok (some _)⟩ => key.blobRef = b → ¬ BetweenStores b W
  | _ => True

/-- What is left of the deletion after the local store. -/
def afterLocal (b : String) : TierM Unit := do
  onCold (.deleteStream b)
  onIndex (.removeStream b)

/-- What is left of it after both stores. -/
def afterStores (b : String) : TierM Unit := do
  onIndex (.removeStream b)

/-- How far the deletion is, and what is clear by then. -/
inductive Stage (b : String) (W : World) : Prop
  | begins : W.mine = (WriteBackTier.deleteStream b).run → Stage b W
  | betweenStores : W.mine = (afterLocal b).run → W.shared.localStore.streamKeys b = ∅ →
      W.AllGuarded (PutsLocal b) (Finds b) → Stage b W
  | storesClear : W.mine = (afterStores b).run → W.shared.localStore.streamKeys b = ∅ →
      W.shared.coldTier.streamKeys b = ∅ → W.AllGuarded (PutsLocal b) (Finds b) →
      W.AllGuarded (PutsCold b) (Finds b) → Stage b W
  | done : W.mine = .done (.ok ()) → W.shared.ClearOf b → W.AllGuarded (PutsLocal b) (Finds b) →
      W.AllGuarded (PutsCold b) (Finds b) → W.AllGuarded (Records b) (Finds b) → Stage b W
  | failed (e : BlobError) : W.mine = .done (.error e) → Stage b W

section Moves

variable {W W' : World} {move : Move}

lemma not_finds {s t : TierState} {c : TierCall} {r : c.Response} (hstep : c.Step s r t)
    (hlocal : s.localStore.streamKeys b = ∅)
    (hcold : s.coldTier.streamKeys b = ∅ ∨
      ∀ key bytes, (⟨c, r⟩ : Event TierCall Response) = ⟨.coldTier (.getChunk key), .ok (some bytes)⟩ →
        key.blobRef ≠ b) :
    ¬ Finds b c r := by
  intro hfinds
  rw [ChunkStore.streamKeys_eq_empty] at hlocal
  cases c with
  | localStore d =>
    cases d with
    | getChunk key =>
      cases r with
      | error e => exact hfinds
      | ok found =>
        cases found with
        | none => exact hfinds
        | some bytes =>
          have hlookup : s.localStore.lookup key = some bytes := hstep.1.symm
          exact hlocal key (AssociationList.mem_iff_lookup.mpr ⟨bytes, hlookup⟩) hfinds
    | putChunk key bytes => exact hfinds
    | chunkCount ref => exact hfinds
    | deleteStream ref => exact hfinds
    | deleteChunk key => exact hfinds
  | coldTier d =>
    cases d with
    | getChunk key =>
      cases r with
      | error e => exact hfinds
      | ok found =>
        cases found with
        | none => exact hfinds
        | some bytes =>
          obtain hcold | hunread := hcold
          · rw [ChunkStore.streamKeys_eq_empty] at hcold
            have hlookup : s.coldTier.lookup key = some bytes := hstep.1.symm
            exact hcold key (AssociationList.mem_iff_lookup.mpr ⟨bytes, hlookup⟩) hfinds
          · exact hunread key bytes rfl hfinds
    | putChunk key bytes => exact hfinds
    | chunkCount ref => exact hfinds
    | deleteStream ref => exact hfinds
    | deleteChunk key => exact hfinds
  | index d => exact hfinds
  | now => exact hfinds
  | setClock time => exact hfinds

lemma Stage.other (hstage : Stage b W) (hnext : Next idle W move W')
    (hother : ∀ event, move ≠ .mine event) (hputs : ∀ op, move = .start op → PutsOther b op)
    (hundisturbed : Undisturbed b W move) : Stage b W' := by
  have hmine' : W'.mine = W.mine := hnext.mine_eq hother
  have hstart : ∀ Writes' : TierCall → Prop, (∀ c, Writes' c → Writes b c) → ∀ op,
      move = .start op →
        ((TierOp.program idle op).run).Guarded Writes' (Finds b) fun _ => True := by
    intro Writes' hwrites op hop
    exact Guarded.mono (writesAfterFinding_program (hputs op hop)) hwrites fun _ h => h
  have hputsLocal := hstart (PutsLocal b) fun c h => .inl h
  have hputsCold := hstart (PutsCold b) fun c h => .inr (.inl h)
  have hrecords := hstart (Records b) fun c h => .inr (.inr h)
  cases hstage with
  | begins hmine => exact .begins (hmine'.trans hmine)
  | betweenStores hmine hlocal hguarded =>
    have hbetween : BetweenStores b W := ⟨_, hmine⟩
    have hquiet : ∀ e r t, move = .call ⟨e, r⟩ → TierCall.Step e W.shared r t →
        ¬ Finds b e r := by
      intro e r t hmove hstep
      apply not_finds hstep hlocal
      right
      intro key bytes hevent href
      rw [hmove, hevent] at hundisturbed
      exact hundisturbed href hbetween
    obtain ⟨hguarded', hwrites⟩ := hnext.guarded hputsLocal hquiet hguarded
    apply Stage.betweenStores (hmine'.trans hmine) _ hguarded'
    exact hnext.frame hother (P := fun s => s.localStore.streamKeys b = ∅)
      (fun e r s t hmove hstep => localStore_step hstep (hwrites e r hmove)) hlocal
  | storesClear hmine hlocal hcold hguardedLocal hguardedCold =>
    have hquiet : ∀ e r t, move = .call ⟨e, r⟩ → TierCall.Step e W.shared r t →
        ¬ Finds b e r := fun e r t _ hstep => not_finds hstep hlocal (.inl hcold)
    obtain ⟨hguardedLocal', hlocalWrites⟩ := hnext.guarded hputsLocal hquiet hguardedLocal
    obtain ⟨hguardedCold', hcoldWrites⟩ := hnext.guarded hputsCold hquiet hguardedCold
    apply Stage.storesClear (hmine'.trans hmine) _ _ hguardedLocal' hguardedCold'
    · exact hnext.frame hother (P := fun s => s.localStore.streamKeys b = ∅)
        (fun e r s t hmove hstep => localStore_step hstep (hlocalWrites e r hmove)) hlocal
    · exact hnext.frame hother (P := fun s => s.coldTier.streamKeys b = ∅)
        (fun e r s t hmove hstep => coldTier_step hstep (hcoldWrites e r hmove)) hcold
  | done hmine hclear hguardedLocal hguardedCold hguardedIndex =>
    have hquiet : ∀ e r t, move = .call ⟨e, r⟩ → TierCall.Step e W.shared r t →
        ¬ Finds b e r :=
      fun e r t _ hstep => not_finds hstep hclear.localStore (.inl hclear.coldTier)
    obtain ⟨hguardedLocal', hlocalWrites⟩ := hnext.guarded hputsLocal hquiet hguardedLocal
    obtain ⟨hguardedCold', hcoldWrites⟩ := hnext.guarded hputsCold hquiet hguardedCold
    obtain ⟨hguardedIndex', hindexWrites⟩ := hnext.guarded hrecords hquiet hguardedIndex
    apply Stage.done (hmine'.trans hmine) _ hguardedLocal' hguardedCold' hguardedIndex'
    refine ⟨?_, ?_, ?_⟩
    · exact hnext.frame hother (P := fun s => s.localStore.streamKeys b = ∅)
        (fun e r s t hmove hstep => localStore_step hstep (hlocalWrites e r hmove))
        hclear.localStore
    · exact hnext.frame hother (P := fun s => s.coldTier.streamKeys b = ∅)
        (fun e r s t hmove hstep => coldTier_step hstep (hcoldWrites e r hmove)) hclear.coldTier
    · exact hnext.frame hother (P := fun s => s.index.Forgets b)
        (fun e r s t hmove hstep => index_step hstep (hindexWrites e r hmove)) hclear.index
  | failed e hmine => exact .failed e (hmine'.trans hmine)

lemma streamKeys_deleteStream {store : ChunkStore} :
    (store.deleteStream b).streamKeys b = ∅ := by
  rw [ChunkStore.streamKeys_eq_empty]
  intro key hkey
  exact (ChunkStore.mem_deleteStream.mp hkey).1

lemma Stage.mine {s t : TierState} {threads : List (TierOp × TierProgram (Except BlobError TierReply))}
    {e : TierCall} {next : e.Response → TierProgram (Except BlobError Unit)} {r : e.Response}
    (hstage : Stage b ⟨s, threads, .call e next⟩) (hstep : e.Step s r t)
    (hundisturbed : Undisturbed b ⟨s, threads, .call e next⟩ (.mine ⟨e, r⟩)) :
    Stage b ⟨t, threads, next r⟩ := by
  cases hstage with
  | begins hmine =>
    have hcall : Program.call e next = .call (.localStore (.deleteStream b))
      (ExceptT.bindCont fun _ => afterLocal b) := hmine
    obtain ⟨rfl, hnext⟩ := Program.call.inj hcall
    obtain rfl := eq_of_heq hnext
    cases r with
    | error e => exact .failed e rfl
    | ok u =>
      obtain ⟨-, rfl⟩ := hstep
      exact .betweenStores rfl streamKeys_deleteStream hundisturbed
  | betweenStores hmine hlocal hguarded =>
    have hcall : Program.call e next = .call (.coldTier (.deleteStream b))
      (ExceptT.bindCont fun _ => afterStores b) := hmine
    obtain ⟨rfl, hnext⟩ := Program.call.inj hcall
    obtain rfl := eq_of_heq hnext
    cases r with
    | error e => exact .failed e rfl
    | ok u =>
      obtain ⟨-, rfl⟩ := hstep
      exact .storesClear rfl hlocal streamKeys_deleteStream hguarded hundisturbed
  | storesClear hmine hlocal hcold hguardedLocal hguardedCold =>
    have hcall : Program.call e next = .call (.index (.removeStream b))
      (fun u => .done (.ok u)) := hmine
    obtain ⟨rfl, hnext⟩ := Program.call.inj hcall
    obtain rfl := eq_of_heq hnext
    obtain ⟨-, rfl⟩ := hstep
    refine .done rfl ⟨hlocal, hcold, ?_⟩ hguardedLocal hguardedCold hundisturbed
    intro key hkey
    show (s.index.removeStream b).contains key = false
    rw [contains_eq_false, LocalIndex.lookup_removeStream, if_pos hkey]
  | done hmine => exact absurd hmine (by simp)
  | failed e hmine => exact absurd hmine (by simp)

lemma Stage.next (hstage : Stage b W) (hnext : Next idle W move W')
    (hputs : ∀ op, move = .start op → PutsOther b op) (hundisturbed : Undisturbed b W move) :
    Stage b W' := by
  cases hmove : move with
  | mine event =>
    subst hmove
    cases hnext with
    | mine r hstep => exact hstage.mine hstep hundisturbed
  | start op => exact hstage.other hnext (by simp [hmove]) hputs hundisturbed
  | call event => exact hstage.other hnext (by simp [hmove]) hputs hundisturbed
  | finish => exact hstage.other hnext (by simp [hmove]) hputs hundisturbed

end Moves

/-- A run of operations on the tier beside a deletion of the stream. -/
def Run (idle : ℕ) (b : String) (s : TierState)
    (threads : List (TierOp × TierProgram (Except BlobError TierReply)))
    (path : List (World × Move)) (W : World) : Prop :=
  LabelledRun (Next idle) ⟨s, threads, (WriteBackTier.deleteStream b).run⟩ path W

/-- No operation that puts a chunk of the stream starts on the way. -/
def NoPuts (b : String) (path : List (World × Move)) : Prop :=
  ∀ x ∈ path, ∀ op, x.2 = .start op → PutsOther b op

lemma stage_of_run {s : TierState}
    {threads : List (TierOp × TierProgram (Except BlobError TierReply))}
    {path : List (World × Move)} {W : World} (hrun : Run idle b s threads path W)
    (hputs : NoPuts b path) (hundisturbed : ∀ x ∈ path, Undisturbed b x.1 x.2) : Stage b W := by
  have hbegins : Stage b ⟨s, threads, (WriteBackTier.deleteStream b).run⟩ := .begins rfl
  have hstep : ∀ W move W', Stage b W →
      ((∀ op, move = .start op → PutsOther b op) ∧ Undisturbed b W move) → Next idle W move W' →
        Stage b W' := by
    intro W move W' hstage hmove hnext
    exact hstage.next hnext hmove.1 hmove.2
  exact hrun.invariant_of_steps hbegins hstep fun x hx => ⟨hputs x hx, hundisturbed x hx⟩

/-- In an undisturbed run, once the deletion has succeeded nothing of the stream is left, then and
in every later state. -/
theorem clearOf_of_undisturbed {s : TierState}
    {threads : List (TierOp × TierProgram (Except BlobError TierReply))}
    {path : List (World × Move)} {W : World} (hrun : Run idle b s threads path W)
    (hputs : NoPuts b path) (hundisturbed : ∀ x ∈ path, Undisturbed b x.1 x.2)
    (hdone : W.mine = .done (.ok ())) : W.shared.ClearOf b := by
  cases stage_of_run hrun hputs hundisturbed with
  | done _ hclear => exact hclear
  | begins hmine => exact absurd (hmine.symm.trans hdone) call_ne_done
  | betweenStores hmine => exact absurd (hmine.symm.trans hdone) call_ne_done
  | storesClear hmine => exact absurd (hmine.symm.trans hdone) call_ne_done
  | failed e hmine => exact absurd (hmine.symm.trans hdone) (by simp)

def soleChunk : ChunkKey := ⟨"ab/1/1", 0⟩

/-- A read of the chunk that has not made a call yet. -/
def pendingRead : List (TierOp × TierProgram (Except BlobError TierReply)) :=
  [(.getChunk soleChunk, ((TierOp.getChunk soleChunk).program 0).run)]

lemma pendingRead_guarded {Writes' : TierCall → Prop} (hwrites : ∀ c, Writes' c → Writes b c)
    (s : TierState) (mine : TierProgram (Except BlobError Unit)) :
    (⟨s, pendingRead, mine⟩ : World).AllGuarded Writes' (Finds b) := by
  intro th hth
  obtain rfl := List.mem_singleton.mp hth
  have hread : PutsOther b (.getChunk soleChunk) := trivial
  have hfinding : WritesAfterFinding b ((TierOp.getChunk soleChunk).program 0).run :=
    writesAfterFinding_program hread
  exact Guarded.mono hfinding hwrites fun _ h => h

/-- The stream is deleted while a read of its chunk is about to begin. -/
theorem clearOf_pendingRead : ∃ (path : List (World × Move)) (W : World),
    Run 0 "ab/1/1" (tierStateAfter 0 100 [.putChunk soleChunk [7]]) pendingRead path W ∧
      W.mine = .done (.ok ()) ∧ W.shared.ClearOf "ab/1/1" := by
  have hbegins : Run 0 "ab/1/1" (tierStateAfter 0 100 [.putChunk soleChunk [7]]) pendingRead [] _ :=
    .start
  have hlocal := hbegins.step (.mine _ (TierCall.step_succeed _ _).1)
  have hcold := hlocal.step (.mine _ (TierCall.step_succeed _ _).1)
  have hindex := hcold.step (.mine _ (TierCall.step_succeed _ _).1)
  refine ⟨_, _, hindex, rfl, clearOf_of_undisturbed hindex ?_ ?_ rfl⟩
  · intro x hx op hop
    simp only [List.nil_append, List.cons_append, List.mem_cons, List.not_mem_nil, or_false] at hx
    obtain rfl | rfl | rfl := hx
    · exact absurd hop (by simp)
    · exact absurd hop (by simp)
    · exact absurd hop (by simp)
  · intro x hx
    simp only [List.nil_append, List.cons_append, List.mem_cons, List.not_mem_nil, or_false] at hx
    obtain rfl | rfl | rfl := hx
    · exact pendingRead_guarded (fun c h => .inl h) _ _
    · exact pendingRead_guarded (fun c h => .inr (.inl h)) _ _
    · exact pendingRead_guarded (fun c h => .inr (.inr h)) _ _

/-! ## A read that was half done -/

/-- The chunk was put and, idle, moved to the cold tier.  A read has it from there when the stream is
deleted, and then puts it on the local store. -/
theorem clearOf_rehydrated : ¬ ∀ (idle capacityBytes : ℕ) (b : String) (ops : List TierOp)
    (path : List (World × Move)) (W : World),
    Run idle b (tierStateAfter idle capacityBytes ops) [] path W → NoPuts b path →
      W.mine = .done (.ok ()) → W.threads = [] → W.shared.ClearOf b := by
  intro h
  obtain ⟨path, hrun, hstarts⟩ := @Beside.run_foldl_take _ _ _ _ _ _ TierCall.Step
    (fun op => (TierOp.program 0 op).run) TierCall.succeed (fun c s => (c.step_succeed s).1)
    [.start (.getChunk soleChunk), .first, .first, .mine, .mine, .mine, .first, .first, .first,
      .first]
    ⟨tierStateAfter 0 100 [.putChunk soleChunk [7], .runIdleSweep], [],
      (WriteBackTier.deleteStream "ab/1/1").run⟩
  have hputs : NoPuts "ab/1/1" path := by
    intro x hx op hop
    have hop' := hstarts x hx op hop
    simp only [List.mem_cons, Beside.Turn.start.injEq, reduceCtorEq, List.not_mem_nil,
      or_false] at hop'
    rw [hop']
    exact trivial
  have hclear := h 0 100 "ab/1/1" _ path _ hrun hputs rfl rfl
  exact absurd hclear.localStore (by decide +kernel)

end TierDeletion

end MaxSecu
