import MaxSecu.Server.BackupAddOnly
import MaxSecu.Server.PgFiles

/-!
# The versions that the tables hold

After every run the finalized versions of a file are numbered from 1 to its current version, and
every file has its genesis (`Database.Numbered`).
-/

namespace MaxSecu.Backup

open Table

/-- The tables hold the version, finalized. -/
def HasFinalized (rows : Tables) (fileId : Id) (v : Int64) : Prop :=
  ∃ r ∈ rows fileVersions, r.fileId = fileId ∧ r.version = v ∧ r.finalized = true

structure Database.Numbered (db : Database) : Prop where
  finalized : ∀ f ∈ db.rows files, ∀ v,
    HasFinalized db.rows f.fileId v ↔ 1 ≤ v ∧ v ≤ f.currentVersion
  genesis : ∀ f ∈ db.rows files, ∃ g ∈ db.rows fileGenesis, g.fileId = f.fileId

variable {db after : Database}

lemma insertOr_subset {t : Table} {r : t.Row} {rows : List t.Row} : rows ⊆ insertOr t r rows :=
  List.subset_append_left _ _

lemma exists_insertOr (t : Table) (r : t.Row) (rows : List t.Row) :
    ∃ s ∈ insertOr t r rows, t.Conflicts s r :=
  KeyedRows.exists_clash_of_mem conflicts_refl List.mem_cons_self

lemma mem_insertOr {t : Table} {r s : t.Row} {rows : List t.Row} (h : s ∈ insertOr t r rows) :
    s ∈ rows ∨ s = r ∧ ∀ x ∈ rows, ¬ t.Conflicts x s := by
  obtain h | h := List.mem_append.mp h
  · exact Or.inl h
  · refine Or.inr ⟨?_, fun x hx => KeyedRows.not_clash_of_mem_missing h hx⟩
    exact List.mem_singleton.mp (KeyedRows.missing_sublist.subset h)

lemma int64_succ {c : Int64} (hc : 0 ≤ c) (hnext : 1 ≤ (c.toUInt64 + 1).toInt64) :
    (c.toUInt64 + 1).toInt64.toInt = c.toInt + 1 := by
  have hsum : (c.toUInt64 + 1).toInt64 = c + 1 := rfl
  have hone : (1 : Int64).toInt = 1 := rfl
  have hzero : (0 : Int64).toInt = 0 := rfl
  rw [hsum, Int64.le_iff_toInt_le, Int64.toInt_add, hone] at hnext
  rw [Int64.le_iff_toInt_le, hzero] at hc
  rw [hsum, Int64.toInt_add, hone]
  have hlt := c.toInt_lt
  simp only [Int.bmod] at hnext ⊢
  split_ifs at hnext ⊢ with hsmall <;> omega

lemma Database.Numbered.of_same (h : db.Numbered)
    (hfiles : ∀ f' ∈ after.rows files, ∃ f ∈ db.rows files,
      f.fileId = f'.fileId ∧ f.currentVersion = f'.currentVersion ∧
      (∀ v, HasFinalized after.rows f.fileId v ↔ HasFinalized db.rows f.fileId v) ∧
      ∀ g ∈ db.rows fileGenesis, g.fileId = f.fileId →
        ∃ g' ∈ after.rows fileGenesis, g'.fileId = f.fileId) : after.Numbered where
  finalized f' hf' v := by
    obtain ⟨f, hf, hid, hcur, hsame, -⟩ := hfiles f' hf'
    rw [← hid, ← hcur, hsame]
    exact h.finalized f hf v
  genesis f' hf' := by
    obtain ⟨f, hf, hid, -, -, hkept⟩ := hfiles f' hf'
    obtain ⟨g, hg, hgid⟩ := h.genesis f hf
    rw [← hid]
    exact hkept g hg hgid

section Steps

variable {rows : Tables} {p : ParsedStage} {now : Timestamptz} {fileId : Id} {v : Int64}

lemma hasFinalized_putVersion :
    HasFinalized (Tables.putVersion rows p now) fileId v ↔ HasFinalized rows fileId v := by
  unfold HasFinalized Tables.putVersion
  simp only [List.mem_append, List.mem_filter, List.mem_singleton, decide_eq_true_eq]
  constructor
  · rintro ⟨r, ⟨hr, -⟩ | rfl, hid, hv, hfinal⟩
    · exact ⟨r, hr, hid, hv, hfinal⟩
    · exact absurd hfinal (by simp)
  · rintro ⟨r, hr, hid, hv, hfinal⟩
    exact ⟨r, Or.inl ⟨hr, by simp [hfinal]⟩, hid, hv, hfinal⟩

lemma hasFinalized_dropStaged {id : Id} :
    HasFinalized (Tables.dropStaged rows id) fileId v ↔ HasFinalized rows fileId v := by
  unfold HasFinalized Tables.dropStaged
  simp only [List.mem_filter, decide_eq_true_eq]
  constructor
  · rintro ⟨r, ⟨hr, -⟩, hid, hv, hfinal⟩
    exact ⟨r, hr, hid, hv, hfinal⟩
  · rintro ⟨r, hr, hid, hv, hfinal⟩
    exact ⟨r, ⟨hr, by simp [hfinal]⟩, hid, hv, hfinal⟩

lemma hasFinalized_dropFiles {ids : List Id} (h : fileId ∉ ids) :
    HasFinalized (Tables.dropFiles rows ids) fileId v ↔ HasFinalized rows fileId v := by
  unfold HasFinalized Tables.dropFiles
  simp only [List.mem_filter, decide_eq_true_eq]
  constructor
  · rintro ⟨r, ⟨hr, -⟩, hid, hv, hfinal⟩
    exact ⟨r, hr, hid, hv, hfinal⟩
  · rintro ⟨r, hr, rfl, hv, hfinal⟩
    exact ⟨r, ⟨hr, h⟩, rfl, hv, hfinal⟩

lemma hasFinalized_finalize {id : Id} {version current : Int64}
    (hstaged : ∃ r ∈ rows fileVersions, r.fileId = id ∧ r.version = version) :
    HasFinalized (Tables.finalize rows id version current now) fileId v ↔
      HasFinalized rows fileId v ∨ fileId = id ∧ v = version := by
  unfold HasFinalized Tables.finalize
  simp only [List.mem_map]
  constructor
  · rintro ⟨r, ⟨r', hr', rfl⟩, hid, hv, hfinal⟩
    split_ifs at hid hv hfinal with hsame
    · exact Or.inr ⟨hid.symm.trans hsame.1, hv.symm.trans hsame.2⟩
    · exact Or.inl ⟨r', hr', hid, hv, hfinal⟩
  · rintro (⟨r, hr, hid, hv, hfinal⟩ | ⟨rfl, rfl⟩)
    · refine ⟨_, ⟨r, hr, rfl⟩, ?_⟩
      split_ifs with hsame
      · exact ⟨hid, hv, rfl⟩
      · exact ⟨hid, hv, hfinal⟩
    · obtain ⟨r, hr, hid, hv⟩ := hstaged
      refine ⟨_, ⟨r, hr, rfl⟩, ?_⟩
      rw [if_pos ⟨hid, hv⟩]
      exact ⟨hid, hv, rfl⟩

end Steps

lemma Database.Numbered.next {call : PgCall} (h : db.Numbered) (hnext : call.Next db after) :
    after.Numbered := by
  rw [hnext]
  obtain hsame | heffect := call.apply_cases db
  · rwa [hsame]
  generalize call.apply db = after at heffect
  generalize hrows : after.rows = rows at heffect
  cases heffect with
  | create st g now hgenesis hopen =>
    have hkept : ∀ f ∈ db.rows files, f ∈ after.rows files ∧
        ∀ g ∈ db.rows fileGenesis, g ∈ after.rows fileGenesis := by
      rw [hrows]
      intro f hf
      exact ⟨insertOr_subset hf, fun g hg => insertOr_subset hg⟩
    have hfinal : ∀ id v, HasFinalized after.rows id v ↔ HasFinalized db.rows id v := by
      intro id v
      rw [hrows, hasFinalized_putVersion]
      rfl
    have hcases : ∀ f ∈ after.rows files, f ∈ db.rows files ∨
        f.fileId = st.parsed.fileId ∧ f.currentVersion = 0 ∧ ∀ x ∈ db.rows files, x.fileId ≠ st.parsed.fileId := by
      intro f hf
      rw [hrows] at hf
      obtain hf | ⟨rfl, hno⟩ := mem_insertOr hf
      · exact Or.inl hf
      · exact Or.inr ⟨rfl, rfl, hno⟩
    constructor
    · intro f hf v
      rw [hfinal]
      obtain hf | ⟨hid, hcur, hno⟩ := hcases f hf
      · exact h.finalized f hf v
      · constructor
        · rintro ⟨r, hr, hrid, -⟩
          obtain ⟨x, hx, hxid⟩ := db.referential fileVersions r hr
          exact absurd (hxid.trans (hrid.trans hid)) (hno x hx)
        · rw [hcur]
          rintro ⟨hlow, hhigh⟩
          rw [Int64.le_iff_toInt_le] at hlow hhigh
          exact absurd (hlow.trans hhigh) (by decide)
    · intro f hf
      obtain hf | ⟨hid, -, -⟩ := hcases f hf
      · obtain ⟨g', hg', hgid⟩ := h.genesis f hf
        exact ⟨g', (hkept f hf).2 g' hg', hgid⟩
      · obtain ⟨g', hg', hgid⟩ := exists_insertOr fileGenesis
          ⟨st.parsed.fileId, g.ownerId.bytes.toList, g.ownerKeyVersion.toInt64, g.genesisBytes,
            g.genesisSig, now⟩ (db.rows fileGenesis)
        rw [hrows, hid]
        exact ⟨g', hg', hgid⟩
  | rotate st now f hf hid hopen =>
    refine h.of_same ?_
    intro f' hf'
    rw [hrows] at hf' ⊢
    exact ⟨f', hf', rfl, rfl, fun v => hasFinalized_putVersion, fun g hg hgid => ⟨g, hg, hgid⟩⟩
  | finalize f version callerId now hf hversion hstaged =>
    have hfinal : ∀ id v, HasFinalized after.rows id v ↔
        HasFinalized db.rows id v ∨ id = f.fileId ∧ v = version.toInt64 := by
      intro id v
      rw [hrows]
      exact hasFinalized_finalize hstaged
    have hnumber : version.toInt64.toInt = f.currentVersion.toInt + 1 := by
      obtain ⟨r, hr, -, hrversion⟩ := hstaged
      have hpos : 1 ≤ r.version := db.checks fileVersions r hr
      have hnonneg : 0 ≤ f.currentVersion := (db.checks files f hf).2
      rw [hrversion, hversion] at hpos
      rw [hversion]
      exact int64_succ hnonneg hpos
    have hcases : ∀ f' ∈ after.rows files, ∃ f₀ ∈ db.rows files, f₀.fileId = f'.fileId ∧
        f'.currentVersion = if f₀.fileId = f.fileId then version.toInt64
          else f₀.currentVersion := by
      intro f' hf'
      rw [hrows] at hf'
      obtain ⟨f₀, hf₀, rfl⟩ := List.mem_map.mp hf'
      refine ⟨f₀, hf₀, ?_, ?_⟩ <;> split_ifs <;> rfl
    constructor
    · intro f' hf' v
      obtain ⟨f₀, hf₀, hid, hcur⟩ := hcases f' hf'
      rw [hfinal, ← hid, h.finalized f₀ hf₀, hcur]
      by_cases hsame : f₀.fileId = f.fileId
      · obtain rfl := Database.fileRow_eq hf₀ hf hsame
        rw [if_pos rfl]
        have hone : (1 : Int64).toInt = 1 := rfl
        have hlow := (db.checks files f₀ hf₀).2
        rw [Int64.le_iff_toInt_le] at hlow
        have hzero : (0 : Int64).toInt = 0 := rfl
        simp only [Int64.le_iff_toInt_le, ← Int64.toInt_inj, true_and, hnumber, hone]
        omega
      · rw [if_neg hsame]
        simp [hsame]
    · intro f' hf'
      obtain ⟨f₀, hf₀, hid, -⟩ := hcases f' hf'
      obtain ⟨g, hg, hgid⟩ := h.genesis f₀ hf₀
      rw [hrows, ← hid]
      exact ⟨g, hg, hgid⟩
  | addWrap f wrap callerId nowMs now hshape hf =>
    refine h.of_same ?_
    intro f' hf'
    rw [hrows] at hf' ⊢
    obtain ⟨f₀, hf₀, rfl⟩ := List.mem_map.mp hf'
    refine ⟨f₀, hf₀, ?_, ?_, fun v => Iff.rfl, fun g hg hgid => ⟨g, hg, hgid⟩⟩ <;>
      split_ifs <;> rfl
  | deleteWrap f recipientId callerId now hrecovery hf =>
    refine h.of_same ?_
    intro f' hf'
    rw [hrows] at hf' ⊢
    exact ⟨f', hf', rfl, rfl, fun v => Iff.rfl, fun g hg hgid => ⟨g, hg, hgid⟩⟩
  | discard f callerId hf hcur =>
    refine h.of_same ?_
    intro f' hf'
    rw [hrows] at hf' ⊢
    exact ⟨f', hf', rfl, rfl, fun v => hasFinalized_dropStaged, fun g hg hgid => ⟨g, hg, hgid⟩⟩
  | delete f ownerId now ids hf hid =>
    refine h.of_same ?_
    intro f' hf'
    rw [hrows] at hf' ⊢
    obtain ⟨hf', hkept⟩ := List.mem_filter.mp hf'
    have hfree : f'.fileId ∉ ids := of_decide_eq_true hkept
    refine ⟨f', hf', rfl, rfl, fun v => hasFinalized_dropFiles hfree, ?_⟩
    intro g hg hgid
    refine ⟨g, List.mem_filter.mpr ⟨hg, ?_⟩, hgid⟩
    rw [hgid]
    exact decide_eq_true hfree

lemma Database.FileFree.numbered (h : db.FileFree) : db.Numbered where
  finalized f hf := by
    rw [h.files] at hf
    exact absurd hf List.not_mem_nil
  genesis f hf := by
    rw [h.files] at hf
    exact absurd hf List.not_mem_nil

lemma numbered_of_run {start : Database} {path : List (Database × PgCall)} (hstart : start.FileFree)
    (hrun : LabelledRun (fun db call after => PgCall.Next db call after) start path db) :
    db.Numbered :=
  LabelledRun.invariant hstart.numbered (fun _ _ _ h hnext => h.next hnext) hrun

end MaxSecu.Backup
