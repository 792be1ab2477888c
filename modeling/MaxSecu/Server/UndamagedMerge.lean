import MaxSecu.Server.PgNumbering

/-!
# Merging into an undamaged server

A backup is a snapshot of the database, and the server runs on.  Whatever the snapshot holds of a
file is then still there, superseded or recorded as taken away (`Continues`), and a merge adds
nothing.  That is so unless a deleted file is created again under its id: the gate takes the new
file for the old one, since neither a tombstone nor a row says which of the two it belongs to.
-/

namespace MaxSecu.Backup

open Table

variable {s l after : Database}

/-- A revocation is recorded for the key of a wrap. -/
def Revoked (rows : Tables) (w : WrapRow) : Prop :=
  ∃ x ∈ rows wrapRevocations, x.fileId = w.fileId ∧ x.fileVersion = w.fileVersion ∧
    x.recipientId = w.recipientId

/-- What a later state owes to a row of the current version of a file. -/
structure Keeps (l after : Database) (g : FileRow) : Prop where
  file : ∃ g' ∈ after.rows files, g'.fileId = g.fileId ∧ g'.currentVersion = g.currentVersion
  finalized : ∀ v, HasFinalized l.rows g.fileId v → HasFinalized after.rows g.fileId v
  streams : ∀ y ∈ l.rows fileStreams, y.fileId = g.fileId → y.version = g.currentVersion →
    ∃ y' ∈ after.rows fileStreams, fileStreams.Conflicts y' y
  wraps : ∀ w ∈ l.rows fileKeyWraps, w.fileId = g.fileId → w.fileVersion = g.currentVersion →
    (∃ w' ∈ after.rows fileKeyWraps, fileKeyWraps.Conflicts w' w) ∨ Revoked after.rows w

/-- The file of the snapshot is still there, with what the snapshot has of its current version. -/
def Stays (s l : Database) (fileId : Id) : Prop :=
  ∃ g ∈ l.rows files, g.fileId = fileId ∧
    (∀ v, HasFinalized s.rows fileId v → HasFinalized l.rows fileId v) ∧
    (∀ x ∈ s.rows fileStreams, x.fileId = fileId → x.version = g.currentVersion →
      HasFinalized s.rows fileId x.version → ∃ y ∈ l.rows fileStreams, fileStreams.Conflicts y x) ∧
    ∀ w ∈ s.rows fileKeyWraps, w.fileId = fileId → w.fileVersion = g.currentVersion →
      HasFinalized s.rows fileId w.fileVersion →
        (∃ w' ∈ l.rows fileKeyWraps, fileKeyWraps.Conflicts w' w) ∨ Revoked l.rows w

/-- The file was deleted, and is not there. -/
def Gone (l : Database) (fileId : Id) : Prop :=
  (∀ g ∈ l.rows files, g.fileId ≠ fileId) ∧ ∃ d ∈ l.rows fileTombstones, d.fileId = fileId

/-- A later state of a server whose snapshot was taken. -/
structure Continues (s l : Database) : Prop where
  accounts : ∀ t ∈ [users, directoryBindings, registrationKeys, firstAdminClaim, recoveryAccount,
    sessions, authNonces], l.rows t = s.rows t
  tombstones : s.rows fileTombstones ⊆ l.rows fileTombstones
  revocations : s.rows wrapRevocations ⊆ l.rows wrapRevocations
  kept : ∀ f ∈ s.rows files, Stays s l f.fileId ∨ Gone l f.fileId

lemma Continues.refl (s : Database) : Continues s s where
  accounts _ _ := rfl
  tombstones := List.Subset.refl _
  revocations := List.Subset.refl _
  kept f hf := Or.inl ⟨f, hf, rfl, fun _ h => h, fun x hx _ _ _ => ⟨x, hx, conflicts_refl x⟩,
    fun w hw _ _ _ => Or.inl ⟨w, hw, conflicts_refl w⟩⟩

/-- A call stages a file that the snapshot has finalized and that was deleted since. -/
def PgCall.Recreates (s db : Database) : PgCall → Prop
  | .stageVersion st _ => Gone db st.parsed.fileId ∧ ∃ v, HasFinalized s.rows st.parsed.fileId v
  | _ => False

/-! ## One call -/

lemma one_le_of_stream {y : StreamRow} (hy : y ∈ l.rows fileStreams) : 1 ≤ y.version := by
  obtain ⟨r, hr, -, hversion⟩ := l.referential fileStreams y hy
  rw [← hversion]
  exact l.checks fileVersions r hr

lemma one_le_of_wrap {w : WrapRow} (hw : w ∈ l.rows fileKeyWraps) : 1 ≤ w.fileVersion := by
  obtain ⟨r, hr, -, hversion⟩ := l.referential fileKeyWraps w hw
  rw [← hversion]
  exact l.checks fileVersions r hr

lemma Database.Numbered.current (hl : l.Numbered) {g : FileRow} (hg : g ∈ l.rows files)
    (hpos : 1 ≤ g.currentVersion) : HasFinalized l.rows g.fileId g.currentVersion :=
  (hl.finalized g hg _).mpr ⟨hpos, Int64.le_refl _⟩

lemma Revoked.mono {rows rows' : Tables} (h : rows wrapRevocations ⊆ rows' wrapRevocations)
    {w : WrapRow} (hw : Revoked rows w) : Revoked rows' w := by
  obtain ⟨x, hx, hsame⟩ := hw
  exact ⟨x, h hx, hsame⟩

/-- A state that keeps the rows of a file's current version still has what the snapshot has. -/
lemma Stays.keep {fileId : Id} (h : Stays s l fileId)
    (hrevocations : l.rows wrapRevocations ⊆ after.rows wrapRevocations)
    (hkeeps : ∀ g ∈ l.rows files, g.fileId = fileId → Keeps l after g) : Stays s after fileId := by
  obtain ⟨g, hg, rfl, hfinal, hstreams, hwraps⟩ := h
  obtain ⟨⟨g', hg', hid, hcur⟩, hfinalized, hkeptStreams, hkeptWraps⟩ := hkeeps g hg rfl
  refine ⟨g', hg', hid, fun v hv => hfinalized v (hfinal v hv), ?_, ?_⟩
  · intro x hx hxid hxversion hxfinal
    obtain ⟨y, hy, hyid, hyversion, hytype⟩ := hstreams x hx hxid (hxversion.trans hcur) hxfinal
    obtain ⟨y', hy', hyid', hyversion', hytype'⟩ := hkeptStreams y hy (hyid.trans hxid)
      (hyversion.trans (hxversion.trans hcur))
    exact ⟨y', hy', hyid'.trans hyid, hyversion'.trans hyversion, hytype'.trans hytype⟩
  · intro w hw hwid hwversion hwfinal
    obtain ⟨w₁, hw₁, hid₁, hversion₁, hrecipient₁⟩ | hrevoked :=
      hwraps w hw hwid (hwversion.trans hcur) hwfinal
    · obtain ⟨w₂, hw₂, hid₂, hversion₂, hrecipient₂⟩ | ⟨x, hx, hxid, hxversion, hxrecipient⟩ :=
        hkeptWraps w₁ hw₁ (hid₁.trans hwid) (hversion₁.trans (hwversion.trans hcur))
      · exact Or.inl ⟨w₂, hw₂, hid₂.trans hid₁, hversion₂.trans hversion₁,
          hrecipient₂.trans hrecipient₁⟩
      · exact Or.inr ⟨x, hx, hxid.trans hid₁, hxversion.trans hversion₁,
          hxrecipient.trans hrecipient₁⟩
    · exact Or.inr (hrevoked.mono hrevocations)

/-- The file moves on to a version that was not finalized before. -/
def Advances (l after : Database) (g : FileRow) : Prop :=
  ∃ g' ∈ after.rows files, g'.fileId = g.fileId ∧
    ¬ HasFinalized l.rows g.fileId g'.currentVersion ∧
    ∀ v, HasFinalized l.rows g.fileId v → HasFinalized after.rows g.fileId v

lemma Stays.advance {fileId : Id} (h : Stays s l fileId)
    (hadvances : ∀ g ∈ l.rows files, g.fileId = fileId → Advances l after g) :
    Stays s after fileId := by
  obtain ⟨g, hg, rfl, hfinal, -, -⟩ := h
  obtain ⟨g', hg', hid, hnew, hfinalized⟩ := hadvances g hg rfl
  refine ⟨g', hg', hid, fun v hv => hfinalized v (hfinal v hv), ?_, ?_⟩
  · intro x _ _ hversion hxfinal
    rw [hversion] at hxfinal
    exact absurd (hfinal _ hxfinal) hnew
  · intro w _ _ hversion hwfinal
    rw [hversion] at hwfinal
    exact absurd (hfinal _ hwfinal) hnew

section Statements

variable {g : FileRow}

lemma keeps_putVersion (hl : l.Numbered) (hg : g ∈ l.rows files) {p : ParsedStage}
    {now : Timestamptz} {rows : Tables} (hrows : after.rows = Tables.putVersion rows p now)
    (hfiles : l.rows files ⊆ rows files) (hversions : rows fileVersions = l.rows fileVersions)
    (hstreams : rows fileStreams = l.rows fileStreams)
    (hwraps : rows fileKeyWraps = l.rows fileKeyWraps)
    (hopen : ∀ v ∈ l.rows fileVersions, v.fileId = p.fileId → v.version = p.version.toInt64 →
      v.finalized = false) : Keeps l after g := by
  have hother : 1 ≤ g.currentVersion →
      ¬ (g.fileId = p.fileId ∧ g.currentVersion = p.version.toInt64) := by
    rintro hpos ⟨hid, hversion⟩
    obtain ⟨r, hr, hrid, hrversion, hfinal⟩ := hl.current hg hpos
    have := hopen r hr (hrid.trans hid) (hrversion.trans hversion)
    rw [hfinal] at this
    exact absurd this (by simp)
  constructor
  · rw [hrows]
    exact ⟨g, hfiles hg, rfl, rfl⟩
  · intro v hv
    rw [hrows, hasFinalized_putVersion]
    unfold HasFinalized
    rwa [hversions]
  · intro y hy hid hversion
    have hpos := one_le_of_stream hy
    rw [hversion] at hpos
    refine ⟨y, ?_, conflicts_refl y⟩
    rw [hrows]
    refine List.mem_append_left _ (List.mem_filter.mpr ⟨hstreams ▸ hy, ?_⟩)
    rw [hid, hversion]
    exact decide_eq_true (hother hpos)
  · intro w hw hid hversion
    have hpos := one_le_of_wrap hw
    rw [hversion] at hpos
    refine Or.inl ⟨w, ?_, conflicts_refl w⟩
    rw [hrows]
    refine List.mem_append_left _ (List.mem_filter.mpr ⟨hwraps ▸ hw, ?_⟩)
    rw [hid, hversion]
    exact decide_eq_true (hother hpos)

lemma keeps_putWrap (hg : g ∈ l.rows files) {fileId : Id} {version : Int64} {wrap : WrapInput}
    {now updatedAt : Timestamptz}
    (hrows : after.rows = Tables.putWrap l.rows fileId version wrap now updatedAt) :
    Keeps l after g := by
  constructor
  · rw [hrows]
    refine ⟨_, List.mem_map_of_mem hg, ?_, ?_⟩ <;> split_ifs <;> rfl
  · intro v hv
    rwa [hrows]
  · intro y hy _ _
    rw [hrows]
    exact ⟨y, hy, conflicts_refl y⟩
  · intro w hw _ _
    left
    rw [hrows]
    simp only [Tables.putWrap]
    split_ifs with hthere
    · refine ⟨_, List.mem_map_of_mem hw, ?_⟩
      split_ifs with hsame
      · exact ⟨hsame.1.symm, hsame.2.1.symm, hsame.2.2.symm⟩
      · exact conflicts_refl w
    · exact ⟨w, List.mem_append_left _ hw, conflicts_refl w⟩

lemma keeps_revokeWrap (hg : g ∈ l.rows files) {fileId recipientId : Id} {version : Int64}
    {now : Timestamptz}
    (hrows : after.rows = Tables.revokeWrap l.rows fileId version recipientId now) :
    Keeps l after g := by
  constructor
  · rw [hrows]
    exact ⟨g, hg, rfl, rfl⟩
  · intro v hv
    rwa [hrows]
  · intro y hy _ _
    rw [hrows]
    exact ⟨y, hy, conflicts_refl y⟩
  · intro w hw _ _
    rw [hrows]
    by_cases hsame : w.fileId = fileId ∧ w.fileVersion = version ∧ w.recipientId = recipientId
    · right
      obtain ⟨x, hx, hid, hversion, hrecipient⟩ := exists_insertOr wrapRevocations
        ⟨fileId, version, recipientId, now⟩ (l.rows wrapRevocations)
      exact ⟨x, hx, hid.trans hsame.1.symm, hversion.trans hsame.2.1.symm,
        hrecipient.trans hsame.2.2.symm⟩
    · exact Or.inl ⟨w, List.mem_filter.mpr ⟨hw, decide_eq_true hsame⟩, conflicts_refl w⟩

lemma keeps_dropStaged (hg : g ∈ l.rows files) {f : FileRow} (hf : f ∈ l.rows files)
    (hcur : ¬ 1 ≤ f.currentVersion) (hrows : after.rows = Tables.dropStaged l.rows f.fileId) :
    Keeps l after g := by
  have hother : 1 ≤ g.currentVersion → g.fileId ≠ f.fileId := by
    intro hpos hid
    rw [Database.fileRow_eq hg hf hid] at hpos
    exact hcur hpos
  constructor
  · rw [hrows]
    exact ⟨g, hg, rfl, rfl⟩
  · intro v hv
    rwa [hrows, hasFinalized_dropStaged]
  · intro y hy hid hversion
    have hpos := one_le_of_stream hy
    rw [hversion] at hpos
    refine ⟨y, ?_, conflicts_refl y⟩
    rw [hrows]
    refine List.mem_filter.mpr ⟨hy, ?_⟩
    simp [hid, hother hpos]
  · intro w hw hid hversion
    have hpos := one_le_of_wrap hw
    rw [hversion] at hpos
    refine Or.inl ⟨w, ?_, conflicts_refl w⟩
    rw [hrows]
    refine List.mem_filter.mpr ⟨hw, ?_⟩
    simp [hid, hother hpos]

lemma keeps_delete (hg : g ∈ l.rows files) {ids : List Id} {now : Timestamptz}
    (hrows : after.rows = Tables.bury (Tables.dropFiles l.rows ids) ids now)
    (hfree : g.fileId ∉ ids) : Keeps l after g := by
  constructor
  · rw [hrows]
    exact ⟨g, List.mem_filter.mpr ⟨hg, decide_eq_true hfree⟩, rfl, rfl⟩
  · intro v hv
    rw [hrows]
    exact (hasFinalized_dropFiles hfree).mpr hv
  · intro y hy hid _
    rw [hrows]
    exact ⟨y, List.mem_filter.mpr ⟨hy, decide_eq_true (hid ▸ hfree)⟩, conflicts_refl y⟩
  · intro w hw hid _
    rw [hrows]
    exact Or.inl ⟨w, List.mem_filter.mpr ⟨hw, decide_eq_true (hid ▸ hfree)⟩, conflicts_refl w⟩

lemma gone_delete {ids : List Id} {now : Timestamptz} {fileId : Id}
    (hrows : after.rows = Tables.bury (Tables.dropFiles l.rows ids) ids now)
    (hid : fileId ∈ ids) : Gone after fileId := by
  unfold Gone
  rw [hrows]
  constructor
  · intro x hx
    have := of_decide_eq_true (List.mem_filter.mp hx).2
    intro heq
    rw [heq] at this
    exact this hid
  · have htomb : (⟨fileId, now⟩ : TombstoneRow) ∈ ids.map fun id => (⟨id, now⟩ : TombstoneRow) :=
      List.mem_map_of_mem hid
    have hburied : ∃ d ∈ l.rows fileTombstones ++ KeyedRows.missing fileTombstones.Conflicts
        (l.rows fileTombstones) (ids.map fun id => ⟨id, now⟩),
        fileTombstones.Conflicts d ⟨fileId, now⟩ :=
      KeyedRows.exists_clash_of_mem conflicts_refl htomb
    exact hburied

lemma keeps_or_advances (hl : l.Numbered) (hg : g ∈ l.rows files) {f : FileRow}
    (hf : f ∈ l.rows files) {version : UInt64} {now : Timestamptz}
    (hversion : version = f.currentVersion.toUInt64 + 1)
    (hstaged : ∃ r ∈ l.rows fileVersions, r.fileId = f.fileId ∧ r.version = version.toInt64)
    (hrows : after.rows = Tables.finalize l.rows f.fileId version.toInt64 f.currentVersion now) :
    Keeps l after g ∨ Advances l after g := by
  have hfinal : ∀ v, HasFinalized l.rows g.fileId v → HasFinalized after.rows g.fileId v := by
    intro v hv
    rw [hrows, hasFinalized_finalize hstaged]
    exact Or.inl hv
  by_cases hid : g.fileId = f.fileId
  · obtain rfl := Database.fileRow_eq hg hf hid
    right
    refine ⟨_, by rw [hrows]; exact List.mem_map_of_mem hg, ?_, ?_, hfinal⟩
    · rw [if_pos rfl]
    · rw [if_pos rfl, hl.finalized g hg]
      rintro ⟨hlow, hhigh⟩
      have hsucc := int64_succ (l.checks files g hg).2 (hversion ▸ hlow)
      rw [hversion, Int64.le_iff_toInt_le, hsucc] at hhigh
      omega
  · left
    constructor
    · rw [hrows]
      refine ⟨_, List.mem_map_of_mem hg, ?_, ?_⟩ <;> rw [if_neg hid]
    · exact hfinal
    · intro y hy hyid _
      refine ⟨y, ?_, conflicts_refl y⟩
      rw [hrows]
      simp only [Tables.finalize]
      split_ifs with hcur
      · refine List.mem_filter.mpr ⟨hy, ?_⟩
        simp [hyid, hid]
      · exact hy
    · intro w hw hwid _
      refine Or.inl ⟨w, ?_, conflicts_refl w⟩
      rw [hrows]
      simp only [Tables.finalize]
      split_ifs with hcur
      · refine List.mem_filter.mpr ⟨hw, ?_⟩
        simp [hwid, hid]
      · exact hw

end Statements

/-! ## Runs -/

namespace Effect

variable {call : PgCall} {rows : Tables}

lemma fate (heffect : Effect l call rows) (hrows : after.rows = rows) (hl : l.Numbered)
    {g : FileRow} (hg : g ∈ l.rows files) :
    Keeps l after g ∨ Advances l after g ∨ Gone after g.fileId := by
  cases heffect with
  | create st g' now hgenesis hopen =>
    left
    exact keeps_putVersion hl hg hrows insertOr_subset rfl rfl rfl hopen
  | rotate st now f hf hid hopen =>
    left
    exact keeps_putVersion hl hg hrows (List.Subset.refl _) rfl rfl rfl hopen
  | finalize f version callerId now hf hversion hstaged =>
    exact (keeps_or_advances hl hg hf hversion hstaged hrows).imp_right Or.inl
  | addWrap f wrap callerId nowMs now hshape hf =>
    left
    exact keeps_putWrap hg hrows
  | deleteWrap f recipientId callerId now hrecovery hf =>
    left
    exact keeps_revokeWrap hg hrows
  | discard f callerId hf hcur =>
    left
    exact keeps_dropStaged hg hf hcur hrows
  | delete f ownerId now ids hf hid =>
    by_cases hfree : g.fileId ∈ ids
    · right
      right
      exact gone_delete hrows hfree
    · left
      exact keeps_delete hg hrows hfree

lemma absences (heffect : Effect l call rows) :
    l.rows fileTombstones ⊆ rows fileTombstones ∧ l.rows wrapRevocations ⊆ rows wrapRevocations := by
  cases heffect with
  | deleteWrap f recipientId callerId now hrecovery hf => exact ⟨List.Subset.refl _, insertOr_subset⟩
  | delete f ownerId now ids hf hid => exact ⟨List.subset_append_left _ _, List.Subset.refl _⟩
  | _ => exact ⟨List.Subset.refl _, List.Subset.refl _⟩

lemma accounts (heffect : Effect l call rows) : ∀ t ∈ [users, directoryBindings, registrationKeys,
    firstAdminClaim, recoveryAccount, sessions, authNonces], rows t = l.rows t := by
  intro t ht
  simp only [List.mem_cons, List.not_mem_nil, or_false] at ht
  obtain rfl | rfl | rfl | rfl | rfl | rfl | rfl := ht <;> cases heffect <;> rfl

lemma files_subset (heffect : Effect l call rows) {g : FileRow} (hg : g ∈ rows files) :
    (∃ f ∈ l.rows files, f.fileId = g.fileId) ∨
      ∃ st now, call = .stageVersion st now ∧ g.fileId = st.parsed.fileId := by
  cases heffect with
  | create st g' now hgenesis hopen =>
    obtain hg | ⟨rfl, -⟩ := mem_insertOr hg
    · exact Or.inl ⟨g, hg, rfl⟩
    · exact Or.inr ⟨st, now, rfl, rfl⟩
  | finalize f version callerId now hf hversion hstaged =>
    obtain ⟨f₀, hf₀, rfl⟩ := List.mem_map.mp hg
    refine Or.inl ⟨f₀, hf₀, ?_⟩
    split_ifs <;> rfl
  | addWrap f wrap callerId nowMs now hshape hf =>
    obtain ⟨f₀, hf₀, rfl⟩ := List.mem_map.mp hg
    refine Or.inl ⟨f₀, hf₀, ?_⟩
    split_ifs <;> rfl
  | delete f ownerId now ids hf hid => exact Or.inl ⟨g, (List.mem_filter.mp hg).1, rfl⟩
  | _ => exact Or.inl ⟨g, hg, rfl⟩

end Effect

lemma Continues.next {call : PgCall} (h : Continues s l) (hl : l.Numbered)
    (hfresh : ¬ call.Recreates s l) (hnext : call.Next l after) : Continues s after := by
  rw [PgCall.Next] at hnext
  obtain hsame | heffect := call.apply_cases l
  · rwa [hnext, hsame]
  rw [← hnext] at heffect
  obtain ⟨htombstones, hrevocations⟩ := heffect.absences
  constructor
  · intro t ht
    rw [heffect.accounts t ht]
    exact h.accounts t ht
  · exact List.Subset.trans h.tombstones htombstones
  · exact List.Subset.trans h.revocations hrevocations
  · intro f hf
    obtain hstays | ⟨hno, d, hd, hid⟩ := h.kept f hf
    · by_cases hgone : Gone after f.fileId
      · exact Or.inr hgone
      left
      obtain ⟨g, hg, hgid, -⟩ := id hstays
      have hunique : ∀ g' ∈ l.rows files, g'.fileId = f.fileId → g' = g :=
        fun g' hg' hid' => Database.fileRow_eq hg' hg (hid'.trans hgid.symm)
      obtain hkeeps | hadvances | hgone' := heffect.fate rfl hl hg
      · refine hstays.keep hrevocations ?_
        intro g' hg' hid'
        rwa [hunique g' hg' hid']
      · refine hstays.advance ?_
        intro g' hg' hid'
        rwa [hunique g' hg' hid']
      · rw [hgid] at hgone'
        exact absurd hgone' hgone
    · by_cases hback : ∃ g ∈ after.rows files, g.fileId = f.fileId
      · left
        obtain ⟨g, hg, hgid⟩ := hback
        obtain ⟨f₀, hf₀, hid₀⟩ | ⟨st, now, rfl, hst⟩ := heffect.files_subset hg
        · exact absurd (hid₀.trans hgid) (hno f₀ hf₀)
        -- the snapshot has nothing of it that could be restored
        have hpid : st.parsed.fileId = f.fileId := hst.symm.trans hgid
        have hnone : ∀ v, ¬ HasFinalized s.rows f.fileId v := by
          intro v hv
          rw [← hpid] at hv hno hid
          exact hfresh ⟨⟨hno, d, hd, hid⟩, v, hv⟩
        exact ⟨g, hg, hgid, fun v hv => absurd hv (hnone v),
          fun x _ _ _ hfinal => absurd hfinal (hnone x.version),
          fun w _ _ _ hfinal => absurd hfinal (hnone w.fileVersion)⟩
      · refine Or.inr ⟨?_, d, htombstones hd, hid⟩
        intro g hg hgid
        exact hback ⟨g, hg, hgid⟩

lemma Continues.added_eq_nil (h : Continues s l) (hl : l.Numbered) (t : Table) : added l s t = [] := by
  refine KeyedRows.missing_eq_nil ?_
  intro r hr
  obtain ⟨hstaged, hadmits⟩ := mem_candidates.mp hr
  have haccount : ∀ t (r : t.Row), r ∈ s.rows t → l.rows t = s.rows t →
      ∃ x ∈ l.rows t, t.Conflicts x r := by
    intro t r hr heq
    rw [heq]
    exact ⟨r, hr, conflicts_refl r⟩
  have hstays : ∀ id cur, RestoredAt l s id cur → Stays s l id ∧
      ∀ g ∈ l.rows files, g.fileId = id → g.currentVersion = cur := by
    rintro id cur ⟨f, hf, rfl, hat⟩
    obtain hstays | ⟨hno, d, hd, hid⟩ := h.kept f hf
    · refine ⟨hstays, ?_⟩
      obtain ⟨g, hg, hgid, -⟩ := hstays
      obtain ⟨g', hg', hgid', hcur'⟩ | ⟨hno, -⟩ := hat
      · intro x hx hxid
        rw [Database.fileRow_eq hx hg' (hxid.trans hgid'.symm)]
        exact hcur'
      · exact absurd hgid (hno g hg)
    · obtain ⟨g, hg, hgid, -⟩ | ⟨-, hnone, -⟩ := hat
      · exact absurd hgid (hno g hg)
      · exact absurd hid (hnone d hd)
  have hfinal : ∀ id v, s.finalizes id v = true → HasFinalized s.rows id v := by
    intro id v hv
    obtain ⟨x, hx, hsame⟩ := List.any_eq_true.mp hv
    exact ⟨x, hx, of_decide_eq_true hsame⟩
  cases t with
  | files =>
    obtain ⟨cur, hcur⟩ := hadmits
    obtain ⟨⟨g, hg, hid, -⟩, -⟩ := hstays _ _ hcur
    exact ⟨g, hg, hid⟩
  | fileGenesis =>
    obtain ⟨cur, hcur⟩ := hadmits
    obtain ⟨⟨g, hg, hid, -⟩, -⟩ := hstays _ _ hcur
    obtain ⟨x, hx, hxid⟩ := hl.genesis g hg
    exact ⟨x, hx, hxid.trans hid⟩
  | fileVersions =>
    obtain ⟨hfinalized, cur, hcur⟩ := hadmits
    obtain ⟨⟨g, hg, hid, hversions, -⟩, -⟩ := hstays _ _ hcur
    obtain ⟨x, hx, hxid, hxversion, -⟩ := hversions r.version ⟨r, hstaged, rfl, rfl, hfinalized⟩
    exact ⟨x, hx, hxid, hxversion⟩
  | fileStreams =>
    obtain ⟨hfinalized, hcur⟩ := hadmits
    obtain ⟨⟨g, hg, hid, -, hstreams, -⟩, hat⟩ := hstays _ _ hcur
    exact hstreams r hstaged rfl (hat g hg hid).symm (hfinal _ _ hfinalized)
  | fileKeyWraps =>
    obtain ⟨hfinalized, hcur, hfree⟩ := hadmits
    obtain ⟨⟨g, hg, hid, -, -, hwraps⟩, hat⟩ := hstays _ _ hcur
    obtain hthere | ⟨x, hx, hsame⟩ := hwraps r hstaged rfl (hat g hg hid).symm (hfinal _ _ hfinalized)
    · exact hthere
    · exact absurd hsame (hfree x hx)
  | fileTombstones => exact ⟨r, h.tombstones hstaged, conflicts_refl r⟩
  | wrapRevocations => exact ⟨r, h.revocations hstaged, conflicts_refl r⟩
  | _ => exact haccount _ r hstaged (h.accounts _ (by simp))

abbrev PgRun := LabelledRun fun (db : Database) (call : PgCall) after => call.Next db after

lemma Continues.run {path : List (Database × PgCall)} (hs : s.Numbered) (hrun : PgRun s path l)
    (hfresh : ∀ x ∈ path, ¬ x.2.Recreates s x.1) : Continues s l ∧ l.Numbered := by
  have hstep : ∀ t (call : PgCall) u, (Continues s t ∧ t.Numbered) → ¬ call.Recreates s t →
      call.Next t u → Continues s u ∧ u.Numbered := by
    intro t call u h hok hnext
    exact ⟨h.1.next h.2 hok hnext, h.2.next hnext⟩
  exact @LabelledRun.invariant_of_steps _ _ _ _ _ _ (fun t => Continues s t ∧ t.Numbered)
    (fun t call => ¬ call.Recreates s t) ⟨Continues.refl s, hs⟩ hstep hrun hfresh

lemma Continues.runMerge_eq (h : Continues s l) (hl : l.Numbered) (others : ℕ) (apply : Bool) :
    (runMerge l s others apply).2 = l := by
  cases hrun : runMerge l s others apply with
  | mk answer after =>
    cases answer with
    | error e => exact runMerge_error hrun
    | ok preview =>
      obtain ⟨-, m, hmerged, -, rfl⟩ := runMerge_ok hrun
      show (if apply then m.live else l) = l
      rw [hmerged.live_eq (h.added_eq_nil hl), ite_self]

/-- A merge of the snapshot changes the answer to no query, and the versions stay numbered. -/
structure MergeHarmless (s l : Database) (others : ℕ) (apply : Bool) : Prop where
  getFile : ∀ fileId selector callerId,
    PgStore.getFile (runMerge l s others apply).2 fileId selector callerId =
      PgStore.getFile l fileId selector callerId
  listFiles : ∀ filter,
    PgStore.listFiles (runMerge l s others apply).2 filter = PgStore.listFiles l filter
  listRecipients : ∀ fileId callerId,
    PgStore.listRecipients (runMerge l s others apply).2 fileId callerId =
      PgStore.listRecipients l fileId callerId
  versionMeta : ∀ fileId version,
    PgStore.versionMeta (runMerge l s others apply).2 fileId version =
      PgStore.versionMeta l fileId version
  numbered : (runMerge l s others apply).2.Numbered

/-- A merge of a snapshot into the server that ran on from it does no harm, if no file of the
snapshot was deleted and created again since. -/
theorem mergeHarmless_of_run {start : Database} {before later : List (Database × PgCall)}
    (hstart : start.FileFree) (hbefore : PgRun start before s) (hlater : PgRun s later l)
    (hfresh : ∀ x ∈ later, ¬ x.2.Recreates s x.1) (others : ℕ) (apply : Bool) :
    MergeHarmless s l others apply := by
  obtain ⟨hcontinues, hl⟩ := Continues.run (numbered_of_run hstart hbefore) hlater hfresh
  have hsame := hcontinues.runMerge_eq hl others apply
  constructor
  · rw [hsame]
    intros
    rfl
  · rw [hsame]
    intro filter
    rfl
  · rw [hsame]
    intros
    rfl
  · rw [hsame]
    intros
    rfl
  · rwa [hsame]

/-! ## A file that is created again -/

/-- One account, and no files. -/
def aliceRows : Tables
  | users => [⟨⟨.replicate 16 1⟩, "alice", .replicate 32 0, .replicate 32 0, 1, [], .active, 0, none⟩]
  | _ => []

lemma aliceRows_hold : Tables.Hold aliceRows := by
  decide +kernel

def aliceDb : Database := ⟨aliceRows, aliceRows_hold.1, aliceRows_hold.2.1, aliceRows_hold.2.2⟩

/-- A file of alice with her own wrap and the one for recovery. -/
def aliceUpload : List PgCall :=
  [.stageVersion
      (@CheckedStage.authored
        (CheckedStage.plainManifest ⟨.replicate 16 2⟩ ⟨.replicate 16 1⟩ 1)
        [⟨⟨.replicate 16 1⟩, 1, [], 1, ⟨.replicate 16 1⟩, [], .replicate 64 0⟩,
          ⟨RECOVERY_ID, 2, [], 1, ⟨.replicate 16 1⟩, [], .replicate 64 0⟩] true none
        { CheckedStage.plain_admissible ⟨.replicate 16 2⟩ ⟨.replicate 16 1⟩ 1 with
          whole := by decide
          recovery := by decide }) 0,
    .finalizeVersion ⟨.replicate 16 2⟩ 1 ⟨.replicate 16 1⟩ 0]

/-- She deletes it, and stores another under the same id, with a wrap for recovery alone. -/
def aliceReplaces : List PgCall :=
  [.deleteFile ⟨.replicate 16 2⟩ ⟨.replicate 16 1⟩ 0,
    .stageVersion (.plain ⟨.replicate 16 2⟩ ⟨.replicate 16 1⟩ 1) 0,
    .finalizeVersion ⟨.replicate 16 2⟩ 1 ⟨.replicate 16 1⟩ 0]

def runCalls (db : Database) (calls : List PgCall) : Database :=
  calls.foldl (fun db call => call.apply db) db

lemma exists_pgRun (db : Database) (calls : List PgCall) :
    ∃ path, PgRun db path (runCalls db calls) := by
  induction calls using List.reverseRecOn with
  | nil => exact ⟨[], .start⟩
  | append_singleton calls call ih =>
    obtain ⟨path, hrun⟩ := ih
    refine ⟨_, hrun.step (i := call) ?_⟩
    unfold runCalls
    rw [List.foldl_append]
    rfl

lemma aliceDb_fileFree : aliceDb.FileFree := by
  constructor <;> rfl

/-- With no file created again, as when she only deletes. -/
theorem mergeHarmless_of_deletion : ∃ later,
    PgRun (runCalls aliceDb aliceUpload) later
      (runCalls (runCalls aliceDb aliceUpload) (aliceReplaces.take 1)) ∧
    MergeHarmless (runCalls aliceDb aliceUpload)
      (runCalls (runCalls aliceDb aliceUpload) (aliceReplaces.take 1)) 0 true := by
  obtain ⟨before, hbefore⟩ := exists_pgRun aliceDb aliceUpload
  have hlater : PgRun (runCalls aliceDb aliceUpload)
      [(runCalls aliceDb aliceUpload, .deleteFile ⟨.replicate 16 2⟩ ⟨.replicate 16 1⟩ 0)]
      (runCalls (runCalls aliceDb aliceUpload) (aliceReplaces.take 1)) :=
    LabelledRun.start.step rfl
  refine ⟨_, hlater, mergeHarmless_of_run aliceDb_fileFree hbefore hlater ?_ 0 true⟩
  intro x hx
  obtain rfl := List.mem_singleton.mp hx
  exact id

/-- The merge gives the new file the wrap of the old one. -/
theorem exists_run_not_mergeHarmless : ∃ (start s l : Database) (before later : _),
    start.FileFree ∧ PgRun start before s ∧ PgRun s later l ∧ ¬ MergeHarmless s l 0 true := by
  obtain ⟨before, hbefore⟩ := exists_pgRun aliceDb aliceUpload
  obtain ⟨later, hlater⟩ := exists_pgRun (runCalls aliceDb aliceUpload) aliceReplaces
  refine ⟨_, _, _, before, later, aliceDb_fileFree, hbefore, hlater, ?_⟩
  intro h
  have hsame := h.getFile ⟨.replicate 16 2⟩ .latest ⟨.replicate 16 1⟩
  have hnone : (PgStore.getFile (runCalls (runCalls aliceDb aliceUpload) aliceReplaces)
      ⟨.replicate 16 2⟩ .latest ⟨.replicate 16 1⟩).isSome = false := by
    decide +kernel
  have hsome : (PgStore.getFile (runMerge (runCalls (runCalls aliceDb aliceUpload) aliceReplaces)
      (runCalls aliceDb aliceUpload) 0 true).2 ⟨.replicate 16 2⟩ .latest
      ⟨.replicate 16 1⟩).isSome = true := by
    decide +kernel
  rw [hsame, hnone] at hsome
  exact absurd hsome (by simp)

end MaxSecu.Backup
