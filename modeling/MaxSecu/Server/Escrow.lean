import MaxSecu.Server.VersionPhases

/-!
# The recovery escrow on the server

Every file that can be read at all can be read by the recovery recipient, with the wrap that was
staged for it: no order of calls removes or replaces the recovery wrap of a current version
(`escrow_stands`).  The recovery recipient is named by a type and by an id, and no stored wrap has
one without the other.
-/

namespace MaxSecu

namespace FileStore

variable {files : FileStore} {fileId callerId : Id} {entry : FileEntry} {ver : VersionEntry}
  {my : WrapInput}

/-- What the holder of a wrap is served of the current version. -/
def viewOf (entry : FileEntry) (ver : VersionEntry) (my : WrapInput) : FileView where
  version := entry.currentVersion
  manifestBytes := ver.manifestBytes
  manifestSig := ver.manifestSig
  genesisBytes := entry.genesisBytes
  genesisSig := entry.genesisSig
  myWrap := ⟨my.wrappedDek, my.grantBytes, my.grantSig, ancestorChain ver.wraps my entry.ownerId⟩
  recoveryGrant := (ver.wraps.find? fun w => w.recipientType = 2).map fun w =>
    (w.grantBytes, w.grantSig)
  streams := ver.streams.map fun s => ⟨s.streamType, s.chunkCount, s.chunkSize, s.blobRef⟩

lemma getFile_latest (hentry : files.lookup fileId = some entry)
    (hcurrent : entry.currentVersion ≠ 0)
    (hver : entry.versions.lookup entry.currentVersion = some ver) (hfinal : ver.finalized = true)
    (hmy : (ver.wraps.find? fun w => w.recipientId = callerId) = some my) :
    getFile files fileId .latest callerId = some (viewOf entry ver my) := by
  simp [getFile, hentry, hcurrent, hver, hfinal, hmy, viewOf]

end FileStore

/-- The current version has the recovery wraps of the stage it was finalized from, and the recovery
recipient is served the first of them. -/
def Escrowed (l : Ledger) (fileId : Id) (entry : FileEntry) : Prop :=
  ∃ st ver w, l.committed fileId entry.currentVersion = some st ∧
    st.parsed.fileId = fileId ∧ st.parsed.version = entry.currentVersion ∧
    entry.versions.lookup entry.currentVersion = some ver ∧
    ver.wraps.filter WrapInput.isRecovery = st.input.wraps.filter WrapInput.isRecovery ∧
    w ∈ ver.wraps ∧ w.recipientType = 2 ∧ w.recipientId = RECOVERY_ID ∧ w ∈ st.input.wraps ∧
    FileStore.getFile l.files fileId .latest RECOVERY_ID = some (FileStore.viewOf entry ver w) ∧
    (FileStore.viewOf entry ver w).recoveryGrant = some (w.grantBytes, w.grantSig)

/-- The escrow of every readable file stands, and no wrap names the recovery recipient by half. -/
structure Ledger.EscrowStands (l : Ledger) : Prop where
  escrowed : ∀ fileId entry, l.files.lookup fileId = some entry → 1 ≤ entry.currentVersion →
    Escrowed l fileId entry
  paired : ∀ fileId entry v ver, l.files.lookup fileId = some entry →
    entry.versions.lookup v = some ver →
    ∀ w ∈ ver.wraps, w.recipientType = 2 ↔ w.recipientId = RECOVERY_ID

namespace Escrow

variable {ops : List FileOp} {l : Ledger} {fileId : Id} {entry : FileEntry} {v : UInt64}
  {ver : VersionEntry}

lemma isHalfShape_of_reshared {w : WrapInput} (h : Reshared ops fileId w) :
    w.isHalfShape = false := by
  obtain ⟨callerId, _, _, hreshare⟩ := h
  unfold WrapInput.isReshareBy at hreshare
  simp only [decide_eq_true_eq] at hreshare
  obtain ⟨_, htype, hid⟩ := hreshare
  rw [WrapInput.isHalfShape_eq_false, htype]
  simp [hid]

lemma wraps_whole (h : Recorded ops l fileId entry) (hver : entry.versions.lookup v = some ver) :
    ∀ w ∈ ver.wraps, w.isHalfShape = false := by
  obtain ⟨st, hrecord⟩ := h.version v ver hver
  have hstaged := st.wellParsed.wraps
  intro w hw
  cases hrecord.phase with
  | staged => exact hstaged w hw
  | current _ _ _ hwraps =>
    obtain hold | hnew := hwraps w hw
    · exact hstaged w hold
    · exact isHalfShape_of_reshared hnew
  | superseded => exact absurd hw (by simp [VersionEntry.supersede])

lemma find_recovery {ws : List WrapInput} (h : ∀ w ∈ ws, w.isHalfShape = false) :
    (ws.find? fun w => w.recipientId = RECOVERY_ID) = (ws.filter WrapInput.isRecovery).head? ∧
      (ws.find? fun w => w.recipientType = 2) = (ws.filter WrapInput.isRecovery).head? := by
  rw [List.head?_filter]
  have hid : ∀ w ∈ ws, decide (w.recipientId = RECOVERY_ID) = w.isRecovery := by
    intro w hw
    rw [Bool.eq_iff_iff, decide_eq_true_eq]
    exact (WrapInput.isRecovery_iff (h w hw)).symm
  have htype : ∀ w ∈ ws, decide (w.recipientType = 2) = w.isRecovery := by
    intro w hw
    rw [← hid w hw, Bool.eq_iff_iff, decide_eq_true_eq, decide_eq_true_eq]
    exact WrapInput.isHalfShape_eq_false.mp (h w hw)
  exact ⟨List.find?_congr hid, List.find?_congr htype⟩

lemma exists_head_recovery (st : CheckedStage) :
    ∃ w, (st.parsed.wraps.filter WrapInput.isRecovery).head? = some w ∧ w ∈ st.parsed.wraps ∧
      w.isRecovery = true := by
  obtain ⟨r, hr, hrecovery⟩ := st.wellParsed.recovery
  have hmem : r ∈ st.parsed.wraps.filter WrapInput.isRecovery :=
    List.mem_filter.mpr ⟨hr, hrecovery⟩
  cases hwraps : st.parsed.wraps.filter WrapInput.isRecovery with
  | nil => exact absurd (hwraps ▸ hmem) (by simp)
  | cons w ws =>
    have hw : w ∈ st.parsed.wraps.filter WrapInput.isRecovery := by
      rw [hwraps]
      simp
    obtain ⟨hstaged, hfirst⟩ := List.mem_filter.mp hw
    exact ⟨w, rfl, hstaged, hfirst⟩

lemma escrowed_of_recorded (h : Recorded ops l fileId entry)
    (hentry : l.files.lookup fileId = some entry) (hcurrent : 1 ≤ entry.currentVersion) :
    Escrowed l fileId entry := by
  have hpos : 1 ≤ entry.currentVersion.toNat := UInt64.le_iff_toNat_le.mp hcurrent
  obtain ⟨ver, hver⟩ := h.present entry.currentVersion hpos le_rfl
  obtain ⟨st, hrecord⟩ := h.version _ ver hver
  have hwhole := wraps_whole h hver
  obtain ⟨wraps, rfl, hsame, _⟩ := hrecord.phase.eq_current hpos hrecord.sameVersion
  obtain ⟨w, hfirst, _, hrecovery⟩ := exists_head_recovery st
  rw [← hsame] at hfirst
  obtain ⟨hbyId, hbyType⟩ := find_recovery hwhole
  rw [hfirst] at hbyId hbyType
  have hmem : w ∈ wraps := List.mem_of_find?_eq_some hbyId
  have hstaged : w ∈ st.parsed.wraps := by
    have hw : w ∈ wraps.filter WrapInput.isRecovery := List.mem_filter.mpr ⟨hmem, hrecovery⟩
    rw [hsame] at hw
    exact List.mem_of_mem_filter hw
  have hnamed : w.recipientType = 2 ∧ w.recipientId = RECOVERY_ID := by
    unfold WrapInput.isRecovery at hrecovery
    exact of_decide_eq_true hrecovery
  have hposted := st.wellParsed.posted
  refine ⟨st, _, w, hrecord.committed rfl, hrecord.sameFile, hrecord.sameVersion, hver, ?_, hmem,
    hnamed.1, hnamed.2, ?_, ?_, ?_⟩
  · rw [← hposted]
    exact hsame
  · rw [← hposted]
    exact hstaged
  · have hne : entry.currentVersion ≠ 0 := by
      intro hzero
      rw [hzero, UInt64.toNat_zero] at hpos
      omega
    exact FileStore.getFile_latest hentry hne hver rfl hbyId
  · show (List.find? _ wraps).map _ = _
    rw [hbyType]
    rfl

end Escrow

/-- The escrow is never blinded: it stands after every run of calls, by whichever callers. -/
theorem escrow_stands (ops : List FileOp) : (fileMachine.run ops).1.EscrowStands where
  escrowed := fun _ _ hentry hcurrent =>
    Escrow.escrowed_of_recorded (recorded_run ops _ _ hentry) hentry hcurrent
  paired := fun _ _ _ _ hentry hver w hw =>
    WrapInput.isHalfShape_eq_false.mp (Escrow.wraps_whole (recorded_run ops _ _ hentry) hver w hw)

end MaxSecu
