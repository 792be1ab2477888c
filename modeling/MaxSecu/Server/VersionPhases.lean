import MaxSecu.Server.FileLedger

/-!
# Every version is on record

A version of a file passes through three phases: it is as its last stage left it, then it is the
current version of its file, and then it is superseded and only its manifest is left.  In every
reachable state each version is in one of them, and the ledger names the stage that put it there
(`recorded_run`).

Sharing and revoking change the wraps of the current version, and never a recovery wrap.
-/

namespace MaxSecu

open AssociationList

/-- A call of the run shared the file with a further user by this wrap. -/
def Reshared (ops : List FileOp) (fileId : Id) (w : WrapInput) : Prop :=
  ∃ callerId nowMs, FileOp.addWrap fileId w callerId nowMs ∈ ops ∧ w.isReshareBy callerId = true

/-- What has become of a staged version, in a file whose current version is `current`. -/
inductive Phase (reshared : WrapInput → Prop) (p : ParsedStage) (current : UInt64) :
    VersionEntry → Prop
  | staged : p.version.toNat = 0 ∨ current.toNat < p.version.toNat →
      Phase reshared p current (.ofStage p)
  | current {wraps : List WrapInput} : 1 ≤ p.version.toNat → p.version = current →
      wraps.filter WrapInput.isRecovery = p.wraps.filter WrapInput.isRecovery →
      (∀ w ∈ wraps, w ∈ p.wraps ∨ reshared w) →
      Phase reshared p current { VersionEntry.ofStage p with finalized := true, wraps := wraps }
  | superseded : 1 ≤ p.version.toNat → p.version.toNat < current.toNat →
      Phase reshared p current (VersionEntry.ofStage p).finalize.supersede

/-- The stage that a version was put there by. -/
structure OnRecord (ops : List FileOp) (l : Ledger) (fileId : Id) (current v : UInt64)
    (ver : VersionEntry) (st : CheckedStage) : Prop where
  staged : l.staged fileId v = some st
  sameFile : st.parsed.fileId = fileId
  sameVersion : st.parsed.version = v
  committed : ver.finalized = true → l.committed fileId v = some st
  phase : Phase (Reshared ops fileId) st.parsed current ver

structure Recorded (ops : List FileOp) (l : Ledger) (fileId : Id) (entry : FileEntry) : Prop where
  version : ∀ v ver, entry.versions.lookup v = some ver →
    ∃ st, OnRecord ops l fileId entry.currentVersion v ver st
  /-- No version up to the current one is missing. -/
  present : ∀ v : UInt64, 1 ≤ v.toNat → v.toNat ≤ entry.currentVersion.toNat →
    ∃ ver, entry.versions.lookup v = some ver

def AllRecorded (ops : List FileOp) (l : Ledger) : Prop :=
  ∀ fileId entry, l.files.lookup fileId = some entry → Recorded ops l fileId entry

namespace Phase

variable {reshared reshared' : WrapInput → Prop} {p : ParsedStage} {current : UInt64}
  {ver : VersionEntry}

lemma finalized_iff (h : Phase reshared p current ver) : ver.finalized = true ↔
    1 ≤ p.version.toNat ∧ p.version.toNat ≤ current.toNat := by
  cases h with
  | staged hopen =>
    constructor
    · intro hfinal
      exact absurd hfinal (by simp [VersionEntry.ofStage])
    · intro hbounds
      omega
  | current hpos hcurrent _ _ => exact ⟨fun _ => ⟨hpos, by rw [hcurrent]⟩, fun _ => rfl⟩
  | superseded hpos hlt => exact ⟨fun _ => ⟨hpos, hlt.le⟩, fun _ => rfl⟩

lemma eq_ofStage (h : Phase reshared p current ver) (hstaged : ver.finalized = false) :
    ver = .ofStage p := by
  cases h with
  | staged => rfl
  | current => exact absurd hstaged (by simp)
  | superseded => exact absurd hstaged (by simp [VersionEntry.finalize, VersionEntry.supersede])

lemma eq_current (h : Phase reshared p current ver) (hpos : 1 ≤ current.toNat)
    (hcurrent : p.version = current) :
    ∃ wraps, ver = { VersionEntry.ofStage p with finalized := true, wraps := wraps } ∧
      wraps.filter WrapInput.isRecovery = p.wraps.filter WrapInput.isRecovery ∧
      ∀ w ∈ wraps, w ∈ p.wraps ∨ reshared w := by
  cases h with
  | staged hopen =>
    rw [hcurrent] at hopen
    omega
  | current _ _ hrecovery hwraps => exact ⟨_, rfl, hrecovery, hwraps⟩
  | superseded _ hlt =>
    rw [hcurrent] at hlt
    omega

lemma setWraps {ws : List WrapInput} (h : Phase reshared p current ver)
    (hpos : 1 ≤ current.toNat) (hcurrent : p.version = current)
    (hrecovery : ws.filter WrapInput.isRecovery = ver.wraps.filter WrapInput.isRecovery)
    (hws : ∀ w ∈ ws, w ∈ ver.wraps ∨ reshared w) :
    Phase reshared p current { ver with wraps := ws } := by
  obtain ⟨wraps, rfl, hsame, hwraps⟩ := h.eq_current hpos hcurrent
  refine .current (by rw [hcurrent]; exact hpos) hcurrent (hrecovery.trans hsame) ?_
  intro w hw
  obtain hold | hnew := hws w hw
  · exact hwraps w hold
  · exact .inr hnew

lemma mono (h : Phase reshared p current ver) (hmono : ∀ w, reshared w → reshared' w) :
    Phase reshared' p current ver := by
  cases h with
  | staged hopen => exact .staged hopen
  | current hpos hcurrent hrecovery hwraps =>
    exact .current hpos hcurrent hrecovery fun w hw => (hwraps w hw).imp_right (hmono w)
  | superseded hpos hlt => exact .superseded hpos hlt

/-- The next version is committed: this one is it, or the one that it supersedes, or neither. -/
lemma finalize_self (h : Phase reshared p current ver) (hstaged : ver.finalized = false)
    (hnext : p.version.toNat = current.toNat + 1) :
    Phase reshared p p.version ver.finalize := by
  rw [h.eq_ofStage hstaged]
  exact .current (by omega) rfl rfl fun w hw => .inl hw

lemma finalize_prior {version : UInt64} (h : Phase reshared p current ver)
    (hpos : 1 ≤ current.toNat) (hcurrent : p.version = current)
    (hnext : version.toNat = current.toNat + 1) : Phase reshared p version ver.supersede := by
  obtain ⟨wraps, rfl, _, _⟩ := h.eq_current hpos hcurrent
  rw [← hcurrent] at hpos hnext
  exact .superseded hpos (by omega)

lemma finalize_other {version : UInt64} (h : Phase reshared p current ver)
    (hself : p.version ≠ version) (hprior : ¬ (1 ≤ p.version.toNat ∧ p.version = current))
    (hnext : version.toNat = current.toNat + 1) : Phase reshared p version ver := by
  have hne : p.version.toNat ≠ version.toNat := fun heq => hself (UInt64.toNat_inj.mp heq)
  cases h with
  | staged hopen => exact .staged (by omega)
  | current hpos hcurrent _ _ => exact absurd ⟨hpos, hcurrent⟩ hprior
  | superseded hpos hlt => exact .superseded hpos (by omega)

end Phase

namespace WrapInput

lemma not_isRecovery_of_isReshareBy {w : WrapInput} {callerId : Id}
    (h : w.isReshareBy callerId = true) : w.isRecovery = false := by
  unfold isReshareBy at h
  unfold isRecovery
  simp only [decide_eq_true_eq] at h
  simp [h.2.2]

lemma filter_isRecovery_filter_ne {ws : List WrapInput} {recipientId : Id}
    (h : recipientId ≠ RECOVERY_ID) :
    (ws.filter fun w => w.recipientId ≠ recipientId).filter isRecovery = ws.filter isRecovery := by
  rw [List.filter_filter]
  apply List.filter_congr
  intro w _
  by_cases hrecovery : w.isRecovery = true
  · have hid : w.recipientId = RECOVERY_ID := by
      unfold isRecovery at hrecovery
      simp only [decide_eq_true_eq] at hrecovery
      exact hrecovery.2
    simp [hrecovery, hid, Ne.symm h]
  · simp [hrecovery]

end WrapInput

section Steps

variable {ops : List FileOp} {l : Ledger} {op : FileOp} {fileId : Id} {entry entry' : FileEntry}
  {files : FileStore}

lemma Reshared.mono {w : WrapInput} (h : Reshared ops fileId w) (op : FileOp) :
    Reshared (ops ++ [op]) fileId w := by
  obtain ⟨callerId, nowMs, hmem, hreshare⟩ := h
  exact ⟨callerId, nowMs, List.mem_append_left _ hmem, hreshare⟩

lemma OnRecord.keep {l' : Ledger} {current v : UInt64} {ver : VersionEntry} {st : CheckedStage}
    (h : OnRecord ops l fileId current v ver st)
    (hstaged : l'.staged fileId v = l.staged fileId v)
    (hcommitted : l'.committed fileId v = l.committed fileId v) :
    OnRecord (ops ++ [op]) l' fileId current v ver st where
  staged := by rw [hstaged]; exact h.staged
  sameFile := h.sameFile
  sameVersion := h.sameVersion
  committed := fun hfinal => by rw [hcommitted]; exact h.committed hfinal
  phase := h.phase.mono fun _ hw => hw.mono op

lemma Recorded.keep {l' : Ledger} (h : Recorded ops l fileId entry)
    (hstaged : l'.staged fileId = l.staged fileId)
    (hcommitted : l'.committed fileId = l.committed fileId) :
    Recorded (ops ++ [op]) l' fileId entry where
  version := by
    intro v ver hver
    obtain ⟨st, hrecord⟩ := h.version v ver hver
    exact ⟨st, hrecord.keep (by rw [hstaged]) (by rw [hcommitted])⟩
  present := h.present

lemma Recorded.isFinalized_iff (h : Recorded ops l fileId entry) (v : UInt64) :
    entry.isFinalized v = true ↔ 1 ≤ v.toNat ∧ v.toNat ≤ entry.currentVersion.toNat := by
  unfold FileEntry.isFinalized
  constructor
  · intro hfinal
    obtain ⟨ver, hver, hfinal⟩ := (Option.any_eq_true _ _).mp hfinal
    obtain ⟨st, hrecord⟩ := h.version v ver hver
    rw [← hrecord.sameVersion]
    exact hrecord.phase.finalized_iff.mp hfinal
  · intro ⟨hpos, hle⟩
    obtain ⟨ver, hver⟩ := h.present v hpos hle
    obtain ⟨st, hrecord⟩ := h.version v ver hver
    rw [hver, Option.any_some]
    rw [← hrecord.sameVersion] at hpos hle
    exact hrecord.phase.finalized_iff.mpr ⟨hpos, hle⟩

lemma Recorded.not_finalized (h : Recorded ops l fileId entry) {v : UInt64}
    (hv : v.toNat = 0 ∨ entry.currentVersion.toNat < v.toNat) : entry.isFinalized v = false := by
  rw [Bool.eq_false_iff]
  intro hfinal
  have hbounds := (h.isFinalized_iff v).mp hfinal
  omega

lemma recorded_create {p : ParsedStage} {g : GenesisRow} {nowMs : UInt64} :
    Recorded ops l fileId (.create p g nowMs) where
  version := by
    intro v ver hver
    exact absurd hver (by simp [FileEntry.create])
  present := by
    intro v hpos hle
    have hzero : v.toNat ≤ 0 := hle
    omega

lemma recorded_stage {st : CheckedStage} {nowMs : UInt64}
    (h : Recorded ops l st.parsed.fileId entry)
    (hopen : entry.isFinalized st.parsed.version = false) :
    Recorded (ops ++ [.stageVersion st nowMs]) (l.record files (.stageVersion st nowMs))
      st.parsed.fileId (entry.stage st.parsed) where
  version := by
    intro v ver hver
    rw [FileEntry.lookup_stage] at hver
    by_cases hv : v = st.parsed.version
    · rw [if_pos hv] at hver
      obtain rfl : VersionEntry.ofStage st.parsed = ver := Option.some.inj hver
      subst hv
      refine ⟨st, ⟨Ledger.staged_record, rfl, rfl,
        fun hfinal => absurd hfinal (by simp [VersionEntry.ofStage]), .staged ?_⟩⟩
      have hnot := (h.isFinalized_iff st.parsed.version).not.mp (by simp [hopen])
      show _ ∨ entry.currentVersion.toNat < _
      omega
    · rw [if_neg hv] at hver
      obtain ⟨st', hrecord⟩ := h.version v ver hver
      refine ⟨st', hrecord.keep (Ledger.staged_record_of_ne ?_) rfl⟩
      rintro ⟨st'', nowMs', hop, heq⟩
      obtain ⟨rfl, _⟩ := FileOp.stageVersion.inj hop
      exact hv heq
  present := by
    intro v hpos hle
    rw [FileEntry.lookup_stage]
    by_cases hv : v = st.parsed.version
    · exact ⟨_, if_pos hv⟩
    · rw [if_neg hv]
      exact h.present v hpos hle

lemma recorded_finalize {callerId : Id} {version nowMs : UInt64} {ver : VersionEntry}
    (h : Recorded ops l fileId entry) (hver : entry.versions.lookup version = some ver)
    (hstaged : ver.finalized = false)
    (hnext : version.toNat = entry.currentVersion.toNat + 1) :
    Recorded (ops ++ [.finalizeVersion fileId version callerId nowMs])
      (l.record files (.finalizeVersion fileId version callerId nowMs)) fileId
      (entry.finalize version nowMs) where
  version := by
    intro v ver' hver'
    rw [FileEntry.lookup_finalize hnext] at hver'
    by_cases hself : v = version
    · rw [if_pos hself, hver, Option.map_some] at hver'
      obtain rfl : ver.finalize = ver' := Option.some.inj hver'
      subst hself
      obtain ⟨st, hrecord⟩ := h.version v ver hver
      have hv := hrecord.sameVersion
      refine ⟨st, ⟨hrecord.staged, hrecord.sameFile, hv, fun _ => ?_, ?_⟩⟩
      · rw [Ledger.committed_record, if_pos rfl]
        exact hrecord.staged
      · have hphase := hrecord.phase.finalize_self hstaged (by rw [hv]; exact hnext)
        rw [hv] at hphase
        exact hphase.mono fun _ hw => hw.mono _
    · rw [if_neg hself] at hver'
      have hsame : (l.record files (.finalizeVersion fileId version callerId nowMs)).committed
          fileId v = l.committed fileId v := by
        rw [Ledger.committed_record, if_neg hself]
      by_cases hprior : 1 ≤ v.toNat ∧ v = entry.currentVersion
      · rw [if_pos hprior] at hver'
        obtain ⟨old, hold, rfl⟩ := Option.map_eq_some_iff.mp hver'
        rw [← hprior.2] at hold
        obtain ⟨st, hrecord⟩ := h.version v old hold
        have hv := hrecord.sameVersion
        have hpos : 1 ≤ entry.currentVersion.toNat := by
          rw [← hprior.2]
          exact hprior.1
        have hfinal : old.finalized = true := by
          rw [hrecord.phase.finalized_iff, hv, hprior.2]
          exact ⟨hpos, le_rfl⟩
        have hphase := hrecord.phase.finalize_prior hpos (by rw [hv]; exact hprior.2) hnext
        refine ⟨st, ⟨hrecord.staged, hrecord.sameFile, hv, fun _ => ?_,
          hphase.mono fun _ hw => hw.mono _⟩⟩
        rw [hsame]
        exact hrecord.committed hfinal
      · rw [if_neg hprior] at hver'
        obtain ⟨st, hrecord⟩ := h.version v ver' hver'
        have hv := hrecord.sameVersion
        have hphase := hrecord.phase.finalize_other (by rw [hv]; exact hself)
          (by rw [hv]; exact hprior) hnext
        refine ⟨st, ⟨hrecord.staged, hrecord.sameFile, hv, fun hfinal => ?_,
          hphase.mono fun _ hw => hw.mono _⟩⟩
        rw [hsame]
        exact hrecord.committed hfinal
  present := by
    intro v hpos hle
    rw [FileEntry.lookup_finalize hnext]
    by_cases hself : v = version
    · exact ⟨ver.finalize, by rw [if_pos hself, hver, Option.map_some]⟩
    · rw [if_neg hself]
      have hle' : v.toNat ≤ version.toNat := hle
      have hne : v.toNat ≠ version.toNat := fun heq => hself (UInt64.toNat_inj.mp heq)
      obtain ⟨old, hold⟩ := h.present v hpos (by omega)
      by_cases hprior : 1 ≤ v.toNat ∧ v = entry.currentVersion
      · rw [if_pos hprior, ← hprior.2, hold]
        exact ⟨old.supersede, rfl⟩
      · rw [if_neg hprior]
        exact ⟨old, hold⟩

lemma recorded_wraps {l' : Ledger} (edit : List WrapInput → List WrapInput)
    (h : Recorded ops l fileId entry) (hcurrent : entry.currentVersion ≠ 0)
    (hsame : entry'.currentVersion = entry.currentVersion)
    (hlookup : ∀ v, entry'.versions.lookup v =
      if v = entry.currentVersion then
        (entry.versions.lookup entry.currentVersion).map fun ver =>
          { ver with wraps := edit ver.wraps }
      else entry.versions.lookup v)
    (hrecovery : ∀ ws, (edit ws).filter WrapInput.isRecovery = ws.filter WrapInput.isRecovery)
    (hedit : ∀ ws, ∀ w ∈ edit ws, w ∈ ws ∨ Reshared (ops ++ [op]) fileId w)
    (hstaged : l'.staged fileId = l.staged fileId)
    (hcommitted : l'.committed fileId = l.committed fileId) :
    Recorded (ops ++ [op]) l' fileId entry' where
  version := by
    intro v ver hver
    rw [hlookup] at hver
    rw [hsame]
    by_cases hv : v = entry.currentVersion
    · rw [if_pos hv] at hver
      obtain ⟨old, hold, rfl⟩ := Option.map_eq_some_iff.mp hver
      rw [← hv] at hold
      obtain ⟨st, hrecord⟩ := h.version v old hold
      have hkept : OnRecord (ops ++ [op]) l' fileId entry.currentVersion v old st :=
        hrecord.keep (by rw [hstaged]) (by rw [hcommitted])
      have hpos : 1 ≤ entry.currentVersion.toNat := by
        have hne := UInt64.toNat_inj.not.mpr hcurrent
        rw [UInt64.toNat_zero] at hne
        omega
      refine ⟨st, ⟨hkept.staged, hkept.sameFile, hkept.sameVersion, hkept.committed, ?_⟩⟩
      exact hkept.phase.setWraps hpos (hkept.sameVersion.trans hv) (hrecovery old.wraps)
        (hedit old.wraps)
    · rw [if_neg hv] at hver
      obtain ⟨st, hrecord⟩ := h.version v ver hver
      exact ⟨st, hrecord.keep (by rw [hstaged]) (by rw [hcommitted])⟩
  present := by
    intro v hpos hle
    rw [hsame] at hle
    obtain ⟨ver, hver⟩ := h.present v hpos hle
    rw [hlookup]
    by_cases hv : v = entry.currentVersion
    · rw [if_pos hv, ← hv, hver]
      exact ⟨_, rfl⟩
    · rw [if_neg hv]
      exact ⟨ver, hver⟩

lemma recorded_addWrap {callerId : Id} {wrap : WrapInput} {nowMs : UInt64}
    (h : Recorded ops l fileId entry) (hreshare : wrap.isReshareBy callerId = true)
    (hcurrent : entry.currentVersion ≠ 0) :
    Recorded (ops ++ [.addWrap fileId wrap callerId nowMs])
      (l.record files (.addWrap fileId wrap callerId nowMs)) fileId
      (entry.addWrap wrap nowMs) := by
  have hid : wrap.recipientId ≠ RECOVERY_ID := by
    unfold WrapInput.isReshareBy at hreshare
    simp only [decide_eq_true_eq] at hreshare
    exact hreshare.2.2
  refine recorded_wraps
    (fun ws => (ws.filter fun w => w.recipientId ≠ wrap.recipientId) ++ [wrap]) h hcurrent rfl
    (fun _ => FileEntry.lookup_addWrap) ?_ ?_ rfl rfl
  · intro ws
    rw [List.filter_append, WrapInput.filter_isRecovery_filter_ne hid]
    simp [WrapInput.not_isRecovery_of_isReshareBy hreshare]
  · intro ws w hw
    obtain hold | hnew := List.mem_append.mp hw
    · exact .inl (List.mem_of_mem_filter hold)
    · obtain rfl : w = wrap := List.mem_singleton.mp hnew
      exact .inr ⟨callerId, nowMs, by simp, hreshare⟩

lemma recorded_deleteWrap {recipientId callerId : Id} (h : Recorded ops l fileId entry)
    (hid : recipientId ≠ RECOVERY_ID) (hcurrent : entry.currentVersion ≠ 0) :
    Recorded (ops ++ [.deleteWrap fileId recipientId callerId])
      (l.record files (.deleteWrap fileId recipientId callerId)) fileId
      (entry.deleteWrap recipientId) :=
  recorded_wraps (fun ws => ws.filter fun w => w.recipientId ≠ recipientId) h hcurrent rfl
    (fun _ => FileEntry.lookup_deleteWrap)
    (fun _ => WrapInput.filter_isRecovery_filter_ne hid)
    (fun _ _ hw => .inl (List.mem_of_mem_filter hw)) rfl rfl

lemma recorded_discard {callerId : Id} (h : Recorded ops l fileId entry)
    (hcurrent : entry.currentVersion = 0) :
    Recorded (ops ++ [.discardUnfinalized fileId callerId])
      (l.record files (.discardUnfinalized fileId callerId)) fileId entry.discardStaged where
  version := by
    intro v ver hver
    rw [FileEntry.lookup_discardStaged] at hver
    obtain ⟨hold, _⟩ := Option.filter_eq_some_iff.mp hver
    obtain ⟨st, hrecord⟩ := h.version v ver hold
    exact ⟨st, hrecord.keep rfl rfl⟩
  present := by
    intro v hpos hle
    have hzero : v.toNat ≤ entry.currentVersion.toNat := hle
    rw [hcurrent, UInt64.toNat_zero] at hzero
    omega

/-- Whatever a call does to a row, its versions are on record. -/
theorem recorded_step (h : AllRecorded ops l)
    (hlookup : (l.step op).1.files.lookup fileId = some entry') :
    Recorded (ops ++ [op]) (l.step op).1 fileId entry' := by
  obtain ⟨hbefore, hstaged, hcommitted⟩ | ⟨rfl, entry, files, hrow, hstep⟩ :=
    Ledger.step_row hlookup
  · exact (h fileId entry' hbefore).keep hstaged hcommitted
  · rw [hstep]
    cases hrow with
    | stage hrow hopen =>
      cases hrow with
      | create hgenesis hnew => exact recorded_stage recorded_create hopen
      | restage _ hentry => exact recorded_stage (h _ _ hentry) hopen
      | rotate _ hentry _ => exact recorded_stage (h _ _ hentry) hopen
    | finalize hentry _ hver hstaged hnext =>
      exact recorded_finalize (h _ _ hentry) hver hstaged hnext
    | addWrap hreshare hentry hcurrent _ _ _ =>
      exact recorded_addWrap (h _ _ hentry) hreshare hcurrent
    | deleteWrap hid hentry hcurrent _ _ _ _ =>
      exact recorded_deleteWrap (h _ _ hentry) hid hcurrent
    | discard hentry _ hcurrent => exact recorded_discard (h _ _ hentry) hcurrent

end Steps

/-- After every run, every version of every file is on record. -/
theorem recorded_run (ops : List FileOp) : AllRecorded ops (fileMachine.run ops).1 := by
  refine @Machine.run_induction _ _ _ fileMachine (fun ops l _ => AllRecorded ops l) ?_ ?_ ops
  · intro fileId entry hnone
    exact absurd hnone (by simp [fileMachine])
  · intro ops l _ op h fileId entry hentry
    exact recorded_step h hentry

end MaxSecu
