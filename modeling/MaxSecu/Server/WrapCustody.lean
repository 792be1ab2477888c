import MaxSecu.Server.VersionPhases

/-!
# Who may take a wrap away

A revocation takes the wrap of a user away, and is for the file's owner and for whoever granted that
wrap.  A re-share takes one away too: it replaces any wrap its recipient has, and is for every
reader.  `wrapCustody_iff` says that a reader's re-share over a wrap that is not theirs to revoke is
the only call that changes such a wrap, and the only one that costs an owner their own.
-/

namespace MaxSecu

open AssociationList ExceptRules

/-! ## The wrap of a user -/

/-- The first wrap of a user, which is the one they are served. -/
def VersionEntry.wrapOf (ver : VersionEntry) (recipientId : Id) : Option WrapInput :=
  ver.wraps.find? fun w => w.recipientId = recipientId

def FileEntry.wrapOf (entry : FileEntry) (v : UInt64) (recipientId : Id) : Option WrapInput :=
  (entry.versions.lookup v).bind fun ver => ver.wrapOf recipientId

def FileStore.wrapOf (files : FileStore) (fileId : Id) (v : UInt64) (recipientId : Id) :
    Option WrapInput :=
  (files.lookup fileId).bind fun entry => entry.wrapOf v recipientId

section Wraps

variable {ver : VersionEntry} {entry entry' : FileEntry} {files : FileStore} {wrap : WrapInput}
  {fileId recipientId r : Id} {v nowMs : UInt64}

lemma find?_filter_ne {ws : List WrapInput} (h : r ≠ recipientId) :
    ((ws.filter fun w => w.recipientId ≠ recipientId).find? fun w => w.recipientId = r) =
      ws.find? fun w => w.recipientId = r := by
  rw [List.find?_filter]
  congr 1
  funext w
  by_cases hw : w.recipientId = r
  · simp [hw, h]
  · simp [hw]

lemma VersionEntry.wrapOf_addWrap : (ver.addWrap wrap).wrapOf r =
    if r = wrap.recipientId then some wrap else ver.wrapOf r := by
  unfold wrapOf addWrap
  rw [List.find?_append]
  by_cases hr : r = wrap.recipientId
  · have hnone : ((ver.wraps.filter fun w => w.recipientId ≠ wrap.recipientId).find?
        fun w => w.recipientId = r) = none := by
      rw [List.find?_eq_none]
      intro w hw
      have hne := (List.mem_filter.mp hw).2
      simpa [hr] using hne
    rw [hnone, if_pos hr]
    simp [hr]
  · rw [find?_filter_ne hr, if_neg hr]
    have hother : ([wrap].find? fun w => w.recipientId = r) = none := by
      simp [Ne.symm hr]
    rw [hother, Option.or_none]

lemma VersionEntry.wrapOf_deleteWrap (h : r ≠ recipientId) :
    (ver.deleteWrap recipientId).wrapOf r = ver.wrapOf r :=
  find?_filter_ne h

lemma FileEntry.wrapOf_addWrap : (entry.addWrap wrap nowMs).wrapOf v r =
    if v = entry.currentVersion then
      (entry.versions.lookup v).bind fun ver => (ver.addWrap wrap).wrapOf r
    else entry.wrapOf v r := by
  unfold wrapOf
  rw [FileEntry.lookup_addWrap]
  by_cases hv : v = entry.currentVersion
  · rw [if_pos hv, if_pos hv, hv, Option.bind_map]
    rfl
  · rw [if_neg hv, if_neg hv]

lemma FileEntry.wrapOf_deleteWrap (h : r ≠ recipientId) :
    (entry.deleteWrap recipientId).wrapOf v r = entry.wrapOf v r := by
  unfold wrapOf
  rw [FileEntry.lookup_deleteWrap]
  by_cases hv : v = entry.currentVersion
  · rw [if_pos hv, hv, Option.bind_map]
    congr 1
    funext ver
    exact VersionEntry.wrapOf_deleteWrap h
  · rw [if_neg hv]

lemma FileStore.wrapOf_insert {f : Id} : FileStore.wrapOf (files.insert f entry') fileId v r =
    if fileId = f then entry'.wrapOf v r else files.wrapOf fileId v r := by
  unfold FileStore.wrapOf
  rw [lookup_insert_eq]
  by_cases hf : fileId = f
  · rw [if_pos hf, if_pos hf, Option.bind_some]
  · rw [if_neg hf, if_neg hf]

lemma FileStore.wrapOf_eq (h : files.lookup fileId = some entry) :
    files.wrapOf fileId v r = entry.wrapOf v r := by
  unfold FileStore.wrapOf
  rw [h, Option.bind_some]

lemma VersionEntry.isSome_wrapOf :
    (ver.wrapOf r).isSome = true ↔ ∃ w ∈ ver.wraps, w.recipientId = r := by
  simp [wrapOf]

end Wraps

/-! ## Sharing and revoking -/

namespace FileOp

/-- Who shares or revokes, in a call that does either. -/
def sharer : FileOp → Option Id
  | addWrap _ _ callerId _ => some callerId
  | deleteWrap _ _ callerId => some callerId
  | _ => none

/-- The call is a re-share that a reader may make, and replaces a wrap of the recipient with another
although the reader neither owns the file nor granted that wrap. -/
def ReplacesForeign (files : FileStore) (fileId recipientId : Id) : FileOp → Prop
  | addWrap f wrap callerId _ =>
    f = fileId ∧ wrap.recipientId = recipientId ∧ wrap.isReshareBy callerId = true ∧
      ∃ entry row, files.lookup fileId = some entry ∧ entry.currentVersion ≠ 0 ∧
        (entry.wrapOf entry.currentVersion callerId).isSome = true ∧
        entry.wrapOf entry.currentVersion recipientId = some row ∧ row ≠ wrap ∧
        callerId ≠ entry.ownerId ∧ callerId ≠ row.grantedBy
  | _ => False

/-- A call that shares or revokes leaves alone each wrap that the caller did not grant, of each file
that the caller does not own. -/
def SparesForeign (files : FileStore) (op : FileOp) : Prop :=
  ∀ callerId fileId entry v recipientId row, op.sharer = some callerId →
    files.lookup fileId = some entry → files.wrapOf fileId v recipientId = some row →
    callerId ≠ entry.ownerId → callerId ≠ row.grantedBy →
    (op.apply files).2.wrapOf fileId v recipientId = some row

end FileOp

namespace WrapCustody

variable {ops : List FileOp} {l : Ledger} {op : FileOp} {files : FileStore}
  {fileId recipientId callerId : Id} {entry : FileEntry} {v : UInt64} {row : WrapInput}

/-- A wrap that is not the caller's to revoke is as before, unless the call is a re-share to its
recipient that the store accepts. -/
lemma wrapOf_apply (hsharer : op.sharer = some callerId) (hentry : files.lookup fileId = some entry)
    (hrow : files.wrapOf fileId v recipientId = some row) (howner : callerId ≠ entry.ownerId)
    (hgranter : callerId ≠ row.grantedBy) :
    (op.apply files).2.wrapOf fileId v recipientId = some row ∨
      ∃ wrap nowMs, op = .addWrap fileId wrap callerId nowMs ∧ v = entry.currentVersion ∧
        wrap.recipientId = recipientId ∧ wrap.isReshareBy callerId = true ∧
        entry.currentVersion ≠ 0 ∧ (entry.wrapOf v callerId).isSome = true ∧
        (op.apply files).2.wrapOf fileId v recipientId = some wrap := by
  obtain ⟨_, hsame⟩ | ⟨_, hchange⟩ := op.apply_cases files
  · rw [hsame]
    exact .inl hrow
  · rw [FileStore.wrapOf_eq hentry] at hrow
    generalize (op.apply files).2 = after at hchange
    cases hchange with
    | absent _ => exact absurd hsharer (by simp [FileOp.sharer])
    | deleted _ _ => exact absurd hsharer (by simp [FileOp.sharer])
    | @row op old new hchanged =>
      rw [FileStore.wrapOf_insert]
      by_cases hfile : fileId = op.fileId
      · rw [if_pos hfile]
        cases hchanged with
        | stage _ _ => exact absurd hsharer (by simp [FileOp.sharer])
        | finalize _ _ _ _ _ => exact absurd hsharer (by simp [FileOp.sharer])
        | discard _ _ _ => exact absurd hsharer (by simp [FileOp.sharer])
        | @addWrap f caller wrap nowMs _ ver hreshare hold hcurrent hver _ hholds =>
          obtain rfl : fileId = f := hfile
          obtain rfl : caller = callerId := Option.some.inj hsharer
          obtain rfl : entry = old := Option.some.inj (hentry.symm.trans hold)
          rw [FileEntry.wrapOf_addWrap]
          by_cases hv : v = entry.currentVersion
          · rw [if_pos hv]
            by_cases hr : recipientId = wrap.recipientId
            · right
              have hmine : (entry.wrapOf v caller).isSome = true := by
                unfold FileEntry.wrapOf
                rw [hv, hver, Option.bind_some]
                exact VersionEntry.isSome_wrapOf.mpr hholds
              refine ⟨wrap, nowMs, rfl, hv, hr.symm, hreshare, hcurrent, hmine, ?_⟩
              rw [hv, hver, Option.bind_some, VersionEntry.wrapOf_addWrap, if_pos hr]
            · left
              rw [← hrow, FileEntry.wrapOf]
              congr 1
              funext ver'
              rw [VersionEntry.wrapOf_addWrap, if_neg hr]
          · rw [if_neg hv]
            exact .inl hrow
        | @deleteWrap f revoked caller _ ver target _ hold _ hver htarget _ hmay =>
          obtain rfl : fileId = f := hfile
          obtain rfl : caller = callerId := Option.some.inj hsharer
          obtain rfl : entry = old := Option.some.inj (hentry.symm.trans hold)
          left
          by_cases hr : recipientId = revoked
          · subst hr
            unfold FileEntry.wrapOf
            rw [FileEntry.lookup_deleteWrap]
            by_cases hv : v = entry.currentVersion
            · -- the row would be the target, which only its granter or the owner may revoke
              exfalso
              rw [FileEntry.wrapOf, hv, hver, Option.bind_some] at hrow
              obtain rfl : target = row := Option.some.inj (htarget.symm.trans hrow)
              exact hmay.elim howner hgranter
            · rw [if_neg hv]
              exact hrow
          · rw [FileEntry.wrapOf_deleteWrap hr]
            exact hrow
      · rw [if_neg hfile, FileStore.wrapOf_eq hentry]
        exact .inl hrow

lemma wrapOf_of_replacesForeign (h : AllRecorded ops l)
    (hreplaces : op.ReplacesForeign l.files fileId recipientId) :
    ∃ callerId entry row, op.sharer = some callerId ∧ l.files.lookup fileId = some entry ∧
      entry.wrapOf entry.currentVersion recipientId = some row ∧ callerId ≠ entry.ownerId ∧
      callerId ≠ row.grantedBy ∧
      (op.apply l.files).2.wrapOf fileId entry.currentVersion recipientId ≠ some row := by
  cases op with
  | addWrap f wrap caller nowMs =>
    obtain ⟨rfl, rfl, hreshare, entry, row, hentry, hcurrent, hholds, hrow, hne, howner,
      hgranter⟩ := hreplaces
    refine ⟨caller, entry, row, rfl, hentry, hrow, howner, hgranter, ?_⟩
    have hpos : 1 ≤ entry.currentVersion.toNat := by
      have hzero := UInt64.toNat_inj.not.mpr hcurrent
      rw [UInt64.toNat_zero] at hzero
      omega
    obtain ⟨ver, hver⟩ := (h f entry hentry).present entry.currentVersion hpos le_rfl
    have hfinal := ((h f entry hentry).isFinalized_iff entry.currentVersion).mpr ⟨hpos, le_rfl⟩
    rw [FileEntry.isFinalized, hver, Option.any_some] at hfinal
    rw [FileEntry.wrapOf, hver, Option.bind_some] at hholds
    have hrun : runFrom (FileStore.addWrap f wrap caller nowMs) l.files =
        (.ok (), l.files.insert f (entry.addWrap wrap nowMs)) :=
      FileStore.addWrap_eq_ok.mpr ⟨hreshare, entry, hentry, hcurrent, ver, hver, hfinal,
        VersionEntry.isSome_wrapOf.mp hholds, rfl⟩
    have hafter : (FileOp.apply l.files (.addWrap f wrap caller nowMs)).2 =
        l.files.insert f (entry.addWrap wrap nowMs) := by
      simp only [FileOp.apply, hrun]
    rw [hafter, FileStore.wrapOf_insert, if_pos rfl, FileEntry.wrapOf_addWrap, if_pos rfl, hver,
      Option.bind_some, VersionEntry.wrapOf_addWrap, if_pos rfl]
    intro heq
    exact hne (Option.some.inj heq).symm
  | _ => exact hreplaces.elim

lemma sparesForeign_iff (h : AllRecorded ops l) : op.SparesForeign l.files ↔
    ∀ fileId recipientId, ¬ op.ReplacesForeign l.files fileId recipientId := by
  constructor
  · intro hspares fileId recipientId hreplaces
    obtain ⟨callerId, entry, row, hsharer, hentry, hrow, howner, hgranter, hchanged⟩ :=
      wrapOf_of_replacesForeign h hreplaces
    rw [← FileStore.wrapOf_eq hentry] at hrow
    exact hchanged (hspares callerId fileId entry _ recipientId row hsharer hentry hrow howner
      hgranter)
  · intro hnone callerId fileId entry v recipientId row hsharer hentry hrow howner hgranter
    obtain hkept | ⟨wrap, nowMs, rfl, rfl, hrecipient, hreshare, hcurrent, hholds, hafter⟩ :=
      wrapOf_apply hsharer hentry hrow howner hgranter
    · exact hkept
    · rw [FileStore.wrapOf_eq hentry] at hrow
      by_cases hsame : row = wrap
      · rw [hsame]
        exact hafter
      · exact absurd ⟨rfl, hrecipient, hreshare, entry, row, hentry, hcurrent, hholds, hrow, hsame,
          howner, hgranter⟩ (hnone fileId recipientId)

lemma lookup_apply (hsharer : op.sharer = some callerId)
    (hentry : files.lookup fileId = some entry) :
    ∃ entry', (op.apply files).2.lookup fileId = some entry' ∧ entry'.ownerId = entry.ownerId ∧
      entry'.currentVersion = entry.currentVersion := by
  obtain ⟨_, hsame⟩ | ⟨_, hchange⟩ := op.apply_cases files
  · rw [hsame]
    exact ⟨entry, hentry, rfl, rfl⟩
  · generalize (op.apply files).2 = after at hchange
    cases hchange with
    | absent _ => exact absurd hsharer (by simp [FileOp.sharer])
    | deleted _ _ => exact absurd hsharer (by simp [FileOp.sharer])
    | @row op old new hchanged =>
      rw [lookup_insert_eq]
      by_cases hfile : fileId = op.fileId
      · rw [if_pos hfile]
        cases hchanged with
        | stage _ _ => exact absurd hsharer (by simp [FileOp.sharer])
        | finalize _ _ _ _ _ => exact absurd hsharer (by simp [FileOp.sharer])
        | discard _ _ _ => exact absurd hsharer (by simp [FileOp.sharer])
        | @addWrap f _ _ _ _ _ _ hold =>
          obtain rfl : fileId = f := hfile
          obtain rfl : entry = old := Option.some.inj (hentry.symm.trans hold)
          exact ⟨_, rfl, rfl, rfl⟩
        | @deleteWrap f _ _ _ _ _ _ hold =>
          obtain rfl : fileId = f := hfile
          obtain rfl : entry = old := Option.some.inj (hentry.symm.trans hold)
          exact ⟨_, rfl, rfl, rfl⟩
      · rw [if_neg hfile]
        exact ⟨entry, hentry, rfl, rfl⟩

end WrapCustody

/-- The owner's own wrap of the current version. -/
def FileStore.selfWrap (files : FileStore) (fileId : Id) : Option WrapInput :=
  (files.lookup fileId).bind fun entry => entry.wrapOf entry.currentVersion entry.ownerId

namespace WrapCustody

variable {ops later : List FileOp} {l : Ledger} {op : FileOp} {fileId callerId : Id}
  {entry : FileEntry} {row : WrapInput}

lemma selfWrap_eq {files : FileStore} (h : files.lookup fileId = some entry) :
    files.selfWrap fileId = files.wrapOf fileId entry.currentVersion entry.ownerId := by
  unfold FileStore.selfWrap
  rw [h, Option.bind_some, FileStore.wrapOf_eq h]

lemma selfWrap_step (h : AllRecorded ops l) (hentry : l.files.lookup fileId = some entry)
    (hrow : l.files.selfWrap fileId = some row) (hself : row.grantedBy = entry.ownerId)
    (hsharer : op.sharer = some callerId) (hreader : callerId ≠ entry.ownerId) :
    (l.step op).1.files.selfWrap fileId = some row ↔
      ¬ op.ReplacesForeign l.files fileId entry.ownerId := by
  obtain ⟨entry', hentry', howner, hcurrent⟩ := lookup_apply hsharer hentry
  rw [selfWrap_eq hentry] at hrow
  have hgranter : callerId ≠ row.grantedBy := by
    rw [hself]
    exact hreader
  rw [Ledger.step_files, selfWrap_eq hentry', howner, hcurrent]
  constructor
  · intro hkept hreplaces
    obtain ⟨_, entry'', row', _, hentry'', hrow', _, _, hchanged⟩ :=
      wrapOf_of_replacesForeign h hreplaces
    obtain rfl : entry = entry'' := Option.some.inj (hentry.symm.trans hentry'')
    rw [← FileStore.wrapOf_eq hentry, hrow] at hrow'
    obtain rfl : row = row' := Option.some.inj hrow'
    exact hchanged hkept
  · intro hspares
    obtain hkept | ⟨wrap, nowMs, rfl, _, hrecipient, hreshare, hpos, hholds, hafter⟩ :=
      wrapOf_apply hsharer hentry hrow hreader hgranter
    · exact hkept
    · rw [FileStore.wrapOf_eq hentry] at hrow
      by_cases hsame : row = wrap
      · rw [hsame]
        exact hafter
      · exact absurd ⟨rfl, hrecipient, hreshare, entry, row, hentry, hpos, hholds, hrow, hsame,
          hreader, hgranter⟩ hspares

lemma owner_run (hentry : (fileMachine.run ops).1.files.lookup fileId = some entry)
    (hsharers : ∀ op ∈ later, ∃ callerId, op.sharer = some callerId) {done : List FileOp}
    (hdone : done <+: later) :
    ∃ entry', (fileMachine.run (ops ++ done)).1.files.lookup fileId = some entry' ∧
      entry'.ownerId = entry.ownerId := by
  induction done using List.reverseRecOn with
  | nil => exact ⟨entry, by rw [List.append_nil]; exact hentry, rfl⟩
  | append_singleton done op ih =>
    obtain ⟨entry', hentry', howner⟩ := ih ((List.prefix_append done [op]).trans hdone)
    obtain ⟨callerId, hsharer⟩ := hsharers op (hdone.subset (by simp))
    obtain ⟨entry'', hentry'', howner', _⟩ := lookup_apply hsharer hentry'
    rw [← Ledger.step_files] at hentry''
    rw [← List.append_assoc, Machine.run_append_singleton]
    exact ⟨entry'', hentry'', howner'.trans howner⟩

end WrapCustody

/-- After any run, a call that shares or revokes leaves alone what is neither the caller's file nor
granted by the caller if and only if it is not a re-share over such a wrap.  So in any further run
of such calls by readers, an owner keeps the wrap they gave themselves if and only if no call of it
is a re-share to them that replaces it. -/
theorem wrapCustody_iff (ops : List FileOp) :
    (∀ op : FileOp, op.SparesForeign (fileMachine.run ops).1.files ↔
        ∀ fileId recipientId,
          ¬ op.ReplacesForeign (fileMachine.run ops).1.files fileId recipientId) ∧
      ∀ fileId entry row later, (fileMachine.run ops).1.files.lookup fileId = some entry →
        (fileMachine.run ops).1.files.selfWrap fileId = some row →
        row.grantedBy = entry.ownerId →
        (∀ op ∈ later, ∃ callerId, op.sharer = some callerId ∧ callerId ≠ entry.ownerId) →
        ((∀ done, done <+: later →
            (fileMachine.run (ops ++ done)).1.files.selfWrap fileId = some row) ↔
          ∀ done op, done ++ [op] <+: later →
            ¬ op.ReplacesForeign (fileMachine.run (ops ++ done)).1.files fileId
              entry.ownerId) := by
  refine ⟨fun op => WrapCustody.sparesForeign_iff (recorded_run ops), ?_⟩
  intro fileId entry row later hentry hrow hself hreaders
  have hsharers : ∀ op ∈ later, ∃ callerId, op.sharer = some callerId := by
    intro op hop
    obtain ⟨callerId, hsharer, _⟩ := hreaders op hop
    exact ⟨callerId, hsharer⟩
  -- one more call keeps the wrap exactly if it is no re-share over it
  have hstep : ∀ done op, done ++ [op] <+: later →
      (fileMachine.run (ops ++ done)).1.files.selfWrap fileId = some row →
      ((fileMachine.run (ops ++ (done ++ [op]))).1.files.selfWrap fileId = some row ↔
        ¬ op.ReplacesForeign (fileMachine.run (ops ++ done)).1.files fileId entry.ownerId) := by
    intro done op hdone hrow'
    obtain ⟨entry', hentry', howner⟩ :=
      WrapCustody.owner_run hentry hsharers ((List.prefix_append done [op]).trans hdone)
    obtain ⟨callerId, hsharer, hreader⟩ := hreaders op (hdone.subset (by simp))
    rw [← howner] at hself hreader ⊢
    rw [← List.append_assoc, Machine.run_append_singleton]
    exact WrapCustody.selfWrap_step (recorded_run (ops ++ done)) hentry' hrow' hself hsharer
      hreader
  constructor
  · intro hkept done op hdone
    exact (hstep done op hdone (hkept done ((List.prefix_append done [op]).trans hdone))).mp
      (hkept _ hdone)
  · intro hspares done hdone
    induction done using List.reverseRecOn with
    | nil =>
      rw [List.append_nil]
      exact hrow
    | append_singleton done op ih =>
      have hbefore := ih ((List.prefix_append done [op]).trans hdone)
      exact (hstep done op hdone hbefore).mpr (hspares done op hdone)

/-- A file with a wrap for its owner, one for a reader and one for recovery. -/
def sharedFile : List FileOp :=
  [.stageVersion
      (@CheckedStage.authored
        (CheckedStage.plainManifest ⟨.replicate 16 2⟩ ⟨.replicate 16 1⟩ 1)
        [⟨⟨.replicate 16 1⟩, 1, [], 1, ⟨.replicate 16 1⟩, [], .replicate 64 0⟩,
          ⟨⟨.replicate 16 3⟩, 1, [], 1, ⟨.replicate 16 1⟩, [], .replicate 64 0⟩,
          ⟨RECOVERY_ID, 2, [], 1, ⟨.replicate 16 1⟩, [], .replicate 64 0⟩] true none
        { CheckedStage.plain_admissible ⟨.replicate 16 2⟩ ⟨.replicate 16 1⟩ 1 with
          whole := by decide
          recovery := by decide }) 0,
    .finalizeVersion ⟨.replicate 16 2⟩ 1 ⟨.replicate 16 1⟩ 0]

/-- The reader shares with a third user, and tries to revoke the owner. -/
def readerCalls : List FileOp :=
  [.addWrap ⟨.replicate 16 2⟩
      ⟨⟨.replicate 16 4⟩, 1, [], 1, ⟨.replicate 16 3⟩, [], .replicate 64 0⟩ ⟨.replicate 16 3⟩ 0,
    .deleteWrap ⟨.replicate 16 2⟩ ⟨.replicate 16 1⟩ ⟨.replicate 16 3⟩]

/-- The owner still has their own wrap. -/
theorem wrapCustody_readerCalls :
    (fileMachine.run (sharedFile ++ readerCalls)).1.files.selfWrap ⟨.replicate 16 2⟩ =
      some ⟨⟨.replicate 16 1⟩, 1, [], 1, ⟨.replicate 16 1⟩, [], .replicate 64 0⟩ := by
  have hrow : ((fileMachine.run sharedFile).1.files.lookup ⟨.replicate 16 2⟩).map
      FileEntry.ownerId = some ⟨.replicate 16 1⟩ := by
    decide +kernel
  have hself : (fileMachine.run sharedFile).1.files.selfWrap ⟨.replicate 16 2⟩ =
      some ⟨⟨.replicate 16 1⟩, 1, [], 1, ⟨.replicate 16 1⟩, [], .replicate 64 0⟩ := by
    decide +kernel
  obtain ⟨entry, hentry, howner⟩ := Option.map_eq_some_iff.mp hrow
  have hreaders : ∀ op ∈ readerCalls, ∃ callerId, op.sharer = some callerId ∧
      callerId ≠ entry.ownerId := by
    rw [howner]
    intro op hop
    exact ⟨⟨.replicate 16 3⟩, by fin_cases hop <;> rfl, by decide⟩
  refine ((wrapCustody_iff sharedFile).2 _ entry _ readerCalls hentry hself howner.symm
    hreaders).mpr ?_ readerCalls List.prefix_rfl
  intro done op hdone hreplaces
  have hop : op ∈ readerCalls := hdone.subset (by simp)
  rw [howner] at hreplaces
  fin_cases hop
  · exact absurd hreplaces.2.1 (by decide)
  · exact hreplaces

/-- The reader re-shares to the owner. -/
def replacesOwner : FileOp :=
  .addWrap ⟨.replicate 16 2⟩
    ⟨⟨.replicate 16 1⟩, 1, [], 1, ⟨.replicate 16 3⟩, [], .replicate 64 0⟩ ⟨.replicate 16 3⟩ 0

/-- The call changes the wrap that the owner gave themselves. -/
theorem wrapCustody_replacesOwner :
    ¬ replacesOwner.SparesForeign (fileMachine.run sharedFile).1.files ∧
      (fileMachine.run (sharedFile ++ [replacesOwner])).1.files.selfWrap ⟨.replicate 16 2⟩ ≠
        (fileMachine.run sharedFile).1.files.selfWrap ⟨.replicate 16 2⟩ := by
  refine ⟨?_, by decide +kernel⟩
  intro hspares
  have hrow : ((fileMachine.run sharedFile).1.files.lookup ⟨.replicate 16 2⟩).map
      FileEntry.ownerId = some ⟨.replicate 16 1⟩ := by
    decide +kernel
  have hbefore : (fileMachine.run sharedFile).1.files.wrapOf ⟨.replicate 16 2⟩ 1
      ⟨.replicate 16 1⟩ =
        some ⟨⟨.replicate 16 1⟩, 1, [], 1, ⟨.replicate 16 1⟩, [], .replicate 64 0⟩ := by
    decide +kernel
  have hafter : (replacesOwner.apply (fileMachine.run sharedFile).1.files).2.wrapOf
      ⟨.replicate 16 2⟩ 1 ⟨.replicate 16 1⟩ =
        some ⟨⟨.replicate 16 1⟩, 1, [], 1, ⟨.replicate 16 3⟩, [], .replicate 64 0⟩ := by
    decide +kernel
  obtain ⟨entry, hentry, howner⟩ := Option.map_eq_some_iff.mp hrow
  have hkept := hspares ⟨.replicate 16 3⟩ _ entry 1 _ _ rfl hentry hbefore
    (by rw [howner]; decide) (by decide)
  rw [hafter] at hkept
  exact absurd hkept (by decide)

end MaxSecu
