import MaxSecu.Server.VersionPhases

/-!
# Who writes a file

Every version of a file should have been staged by the file's owner.  A rotation checks that, and a
new file takes its first stager for owner.  A create request for a file that exists checks only that
its version 1 is not finalized: until then anyone may stage it, under the owner's name.
`writtenByOwner_iff` says that this is the only way.
-/

namespace MaxSecu

open AssociationList

/-- Every version of every file is on record as staged by a call of the file's owner. -/
def WrittenByOwner (ops : List FileOp) (l : Ledger) : Prop :=
  ∀ fileId entry v ver, l.files.lookup fileId = some entry → entry.versions.lookup v = some ver →
    ∃ st, OnRecord ops l fileId entry.currentVersion v ver st ∧
      st.input.callerId = entry.ownerId

/-- The call creates a file that someone else owns and has not finalized. -/
def FileOp.CreatesForeign (files : FileStore) : FileOp → Prop
  | stageVersion st _ => st.parsed.version = 1 ∧
    ∃ entry, files.lookup st.parsed.fileId = some entry ∧ entry.ownerId ≠ st.input.callerId ∧
      entry.currentVersion = 0
  | _ => False

namespace FileOwnership

variable {ops : List FileOp} {l : Ledger} {op : FileOp} {fileId : Id} {entry entry' : FileEntry}
  {v : UInt64} {ver : VersionEntry}

/-- The stages on record for the versions of a file are its owner's. -/
def Owned (l : Ledger) : Prop :=
  ∀ fileId entry v ver st, l.files.lookup fileId = some entry →
    entry.versions.lookup v = some ver → l.staged fileId v = some st →
    st.input.callerId = entry.ownerId

lemma rowChange_owner (hrow : RowChange l.files op entry entry') :
    entry'.ownerId = entry.ownerId := by
  cases hrow <;> rfl

lemma rowChange_versions (hrow : RowChange l.files op entry entry')
    (hv : v ∈ entry'.versions) : v ∈ entry.versions ∨
      ∃ st nowMs, op = .stageVersion st nowMs ∧ v = st.parsed.version := by
  cases hrow with
  | @stage st nowMs _ _ _ =>
    obtain hnew | hold := AList.mem_insert _ |>.mp hv
    · exact .inr ⟨st, nowMs, rfl, hnew⟩
    · exact .inl hold
  | @finalize _ _ version nowMs _ _ _ _ _ _ _ =>
    have hkeys : v ∈ (entry.finalize version nowMs).versions ↔ v ∈ entry.versions := by
      unfold FileEntry.finalize
      by_cases hfirst : 1 ≤ entry.currentVersion
      · simp only [if_pos hfirst, mem_adjust]
      · simp only [if_neg hfirst, mem_adjust]
    exact .inl (hkeys.mp hv)
  | addWrap _ _ _ _ _ _ => exact .inl (mem_adjust.mp hv)
  | deleteWrap _ _ _ _ _ _ _ => exact .inl (mem_adjust.mp hv)
  | discard _ _ _ => exact .inl (mem_eraseAll.mp hv).2

lemma owner_of_stage {st : CheckedStage} {nowMs : UInt64} (h : AllRecorded ops l)
    (hstage : FileStore.StageRow l.files st.parsed nowMs entry)
    (hopen : entry.isFinalized st.parsed.version = false)
    (hok : ¬ FileOp.CreatesForeign l.files (.stageVersion st nowMs)) :
    st.input.callerId = entry.ownerId := by
  cases hstage with
  | @create g hgenesis _ => exact (st.wellParsed.owner g hgenesis).symm
  | restage hgenesis hentry =>
    have hone := st.wellParsed.genesis.mpr ⟨_, hgenesis⟩
    by_contra hforeign
    refine hok ⟨hone, entry, hentry, Ne.symm hforeign, ?_⟩
    have hnot := ((h _ _ hentry).isFinalized_iff st.parsed.version).not.mp (by simp [hopen])
    rw [hone, UInt64.toNat_one] at hnot
    rw [← UInt64.toNat_inj, UInt64.toNat_zero]
    omega
  | rotate _ _ howner =>
    rw [howner]
    exact st.wellParsed.author.symm

lemma owned_step (h : AllRecorded ops l) (howned : Owned l) (hok : ¬ op.CreatesForeign l.files) :
    Owned (l.step op).1 := by
  intro fileId entry' v ver st hlookup hver hstaged
  obtain ⟨hbefore, hsame, _⟩ | ⟨hid, entry, files, hrow, hstep⟩ := Ledger.step_row hlookup
  · rw [hsame] at hstaged
    exact howned fileId entry' v ver st hbefore hver hstaged
  · rw [hstep] at hstaged
    rw [rowChange_owner hrow]
    by_cases hnew : ∃ st nowMs, op = .stageVersion st nowMs ∧ v = st.parsed.version
    · obtain ⟨st', nowMs, rfl, rfl⟩ := hnew
      subst hid
      have heq : some st' = some st := Ledger.staged_record.symm.trans hstaged
      obtain rfl : st' = st := Option.some.inj heq
      cases hrow with
      | stage hstage hopen => exact owner_of_stage h hstage hopen hok
    · obtain hold | hstage := rowChange_versions hrow (mem_iff_lookup.mpr ⟨ver, hver⟩)
      · rw [Ledger.staged_record_of_ne hnew] at hstaged
        obtain ⟨old, hold⟩ := mem_iff_lookup.mp hold
        obtain hentry | ⟨_, hnone⟩ := rowChange_before hrow
        · rw [hid] at hentry
          exact howned fileId entry v old st hentry hold hstaged
        · rw [hnone] at hold
          exact absurd hold (by simp)
      · exact absurd hstage hnew

lemma writtenByOwner_of_owned (h : AllRecorded ops l) (howned : Owned l) :
    WrittenByOwner ops l := by
  intro fileId entry v ver hentry hver
  obtain ⟨st, hrecord⟩ := (h fileId entry hentry).version v ver hver
  exact ⟨st, hrecord, howned fileId entry v ver st hentry hver hrecord.staged⟩

/-- A create of someone else's file succeeds, and puts the caller's stage under the owner's name. -/
lemma not_createsForeign_of_writtenByOwner (h : AllRecorded ops l)
    (hwritten : WrittenByOwner (ops ++ [op]) (l.step op).1) : ¬ op.CreatesForeign l.files := by
  intro hforeign
  cases op with
  | stageVersion st nowMs =>
    obtain ⟨hone, entry, hentry, hother, hcurrent⟩ := hforeign
    obtain ⟨g, hgenesis⟩ := st.wellParsed.genesis.mp hone
    have hopen : entry.isFinalized st.parsed.version = false := by
      apply (h _ _ hentry).not_finalized
      rw [hone, hcurrent]
      exact .inr Nat.zero_lt_one
    rw [Ledger.step_stageVersion (.restage hgenesis hentry) hopen] at hwritten
    have hver : (entry.stage st.parsed).versions.lookup st.parsed.version =
        some (.ofStage st.parsed) := by
      rw [FileEntry.lookup_stage, if_pos rfl]
    obtain ⟨st', hrecord, howner⟩ := hwritten _ _ _ _ (AList.lookup_insert _) hver
    have heq : some st = some st' := Ledger.staged_record.symm.trans hrecord.staged
    obtain rfl : st = st' := Option.some.inj heq
    exact hother howner.symm
  | _ => exact hforeign

end FileOwnership

/-- In every state of a run every version was staged by its file's owner, if and only if no call of
the run created a file that someone else owned and had not finalized. -/
theorem writtenByOwner_iff (ops : List FileOp) :
    (∀ done, done <+: ops → WrittenByOwner done (fileMachine.run done).1) ↔
      ∀ done op, done ++ [op] <+: ops →
        ¬ op.CreatesForeign (fileMachine.run done).1.files := by
  have howned : FileOwnership.Owned fileMachine.init := by
    intro fileId entry v ver st hentry
    exact absurd hentry (by simp [fileMachine])
  refine @Machine.run_iff _ _ _ fileMachine
    (fun ops l => AllRecorded ops l ∧ FileOwnership.Owned l) WrittenByOwner
    (fun l op => ¬ op.CreatesForeign l.files) ⟨recorded_run [], howned⟩
    (fun _ _ h => FileOwnership.writtenByOwner_of_owned h.1 h.2) ?_ ?_ ops
  · intro ops l op hinv hok
    obtain ⟨h, howned⟩ := hinv
    exact ⟨fun _ _ hentry => recorded_step h hentry, FileOwnership.owned_step h howned hok⟩
  · intro ops l op hinv hwritten
    exact FileOwnership.not_createsForeign_of_writtenByOwner hinv.1 hwritten

/-- Two users create one file, the second before the first has finalized it. -/
def createsTwice : List FileOp :=
  [.stageVersion (.plain ⟨.replicate 16 2⟩ ⟨.replicate 16 1⟩ 1) 0,
    .stageVersion (.plain ⟨.replicate 16 2⟩ ⟨.replicate 16 3⟩ 1) 0]

/-- The version of the first user's file is the second user's. -/
theorem writtenByOwner_createsTwice :
    ¬ ∀ done, done <+: createsTwice → WrittenByOwner done (fileMachine.run done).1 := by
  intro h
  have hrow : ((fileMachine.run createsTwice).1.files.lookup ⟨.replicate 16 2⟩).map
      (fun entry => (entry.ownerId, (entry.versions.lookup 1).isSome)) =
        some (⟨.replicate 16 1⟩, true) := by
    decide +kernel
  have hstage : ((fileMachine.run createsTwice).1.staged ⟨.replicate 16 2⟩ 1).map
      (fun st => st.input.callerId) = some ⟨.replicate 16 3⟩ := by
    decide +kernel
  obtain ⟨entry, hentry, hfields⟩ := Option.map_eq_some_iff.mp hrow
  obtain ⟨howner, hsome⟩ := Prod.mk.inj hfields
  obtain ⟨ver, hver⟩ := Option.isSome_iff_exists.mp hsome
  obtain ⟨st, hrecord, hcaller⟩ := h _ List.prefix_rfl _ entry 1 ver hentry hver
  rw [hrecord.staged, Option.map_some, hcaller, howner] at hstage
  exact absurd hstage (by decide)

end MaxSecu
