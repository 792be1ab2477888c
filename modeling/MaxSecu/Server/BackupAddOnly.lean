import MaxSecu.Server.BackupMerge

/-!
# A merge only adds, and only once

What a merge inserts is said without its order of statements: each staged row that the gate lets
through, unless its key is taken.  The statements of a merge add just these rows, so a second
merge of the same backup finds every one of its rows there.
-/

namespace MaxSecu.Backup

open Table Gate

variable {live staged : Database} {m : Merging} {fileId : Id} {cur : Int64}

/-! ## The gate -/

namespace Gate

variable {facts : LiveFacts} {stagedFiles : List (Id × Int64)} {gate : FileGate}

lemma survivors_plan (file : Id × Int64) :
    (FileGate.plan facts gate file).survivors =
      if file.1 ∈ facts.tombstoned ∧ file.1 ∉ facts.liveFiles then gate.survivors
      else Function.update gate.survivors file.1
        (some ((facts.currentVersion file.1).getD file.2)) := by
  unfold FileGate.plan
  by_cases hskip : file.1 ∈ facts.tombstoned ∧ file.1 ∉ facts.liveFiles
  · rw [if_pos hskip, if_pos hskip]
  · rw [if_neg hskip, if_neg hskip]

lemma foldl_plan_of_not_mem (h : fileId ∉ stagedFiles.map Prod.fst) :
    (stagedFiles.foldl (FileGate.plan facts) gate).survivors fileId = gate.survivors fileId := by
  induction stagedFiles generalizing gate with
  | nil => rfl
  | cons file rest ih =>
    rw [List.map_cons, List.mem_cons, not_or] at h
    rw [List.foldl_cons, ih h.2, survivors_plan]
    split_ifs with hskip
    · rfl
    · exact Function.update_of_ne h.1 _ _

lemma foldl_plan_eq_some (hnodup : (stagedFiles.map Prod.fst).Nodup)
    (hgate : gate.survivors fileId = none) :
    (stagedFiles.foldl (FileGate.plan facts) gate).survivors fileId = some cur ↔
      ∃ c, (fileId, c) ∈ stagedFiles ∧ ¬ (fileId ∈ facts.tombstoned ∧ fileId ∉ facts.liveFiles) ∧
        (facts.currentVersion fileId).getD c = cur := by
  induction stagedFiles generalizing gate with
  | nil => simp [hgate]
  | cons file rest ih =>
    obtain ⟨id, c⟩ := file
    rw [List.map_cons, List.nodup_cons] at hnodup
    rw [List.foldl_cons]
    by_cases hid : fileId = id
    · subst hid
      rw [foldl_plan_of_not_mem hnodup.1, survivors_plan]
      have hrest : ∀ c', (fileId, c') ∈ (fileId, c) :: rest ↔ c' = c := by
        intro c'
        rw [List.mem_cons, Prod.mk.injEq]
        constructor
        · rintro (h | h)
          · exact h.2
          · exact absurd (List.mem_map_of_mem h) hnodup.1
        · intro h
          exact Or.inl ⟨rfl, h⟩
      simp only [hrest, exists_eq_left]
      by_cases hskip : fileId ∈ facts.tombstoned ∧ fileId ∉ facts.liveFiles
      · rw [if_pos hskip]
        simp [hgate, hskip]
      · rw [if_neg hskip]
        simp [hskip]
    · have hkeep : (FileGate.plan facts gate (id, c)).survivors fileId = none := by
        rw [survivors_plan]
        split_ifs with hskip
        · exact hgate
        · rw [← hgate]
          exact Function.update_of_ne hid _ _
      rw [ih hnodup.2 hkeep]
      simp [hid]

end Gate

def theGate (live staged : Database) : FileGate :=
  planFileGate ((staged.rows files).map fun r => (r.fileId, r.currentVersion)) (readLiveFacts live)

/-- The backup holds a file, and its streams and wraps come back at one version: the live one's,
or the backup's own when the live database has lost the file and not deleted it. -/
def RestoredAt (live staged : Database) (fileId : Id) (cur : Int64) : Prop :=
  ∃ f ∈ staged.rows files, f.fileId = fileId ∧
    ((∃ g ∈ live.rows files, g.fileId = fileId ∧ g.currentVersion = cur) ∨
      ((∀ g ∈ live.rows files, g.fileId ≠ fileId) ∧
        (∀ d ∈ live.rows fileTombstones, d.fileId ≠ fileId) ∧ f.currentVersion = cur))

lemma Database.fileRow_eq {db : Database} {f g : FileRow} (hf : f ∈ db.rows files)
    (hg : g ∈ db.rows files) (h : f.fileId = g.fileId) : f = g := by
  have hpair := db.unique files
  by_contra hne
  have hsymm : Std.Symm fun r s : FileRow => ¬ files.Conflicts r s := ⟨fun r s h h' => h h'.symm⟩
  exact hpair.forall hf hg hne h

lemma readLiveFacts_currentVersion :
    (readLiveFacts live).currentVersion fileId = some cur ↔
      ∃ g ∈ live.rows files, g.fileId = fileId ∧ g.currentVersion = cur := by
  unfold readLiveFacts
  simp only [Option.map_eq_some_iff]
  constructor
  · rintro ⟨g, hg, hcur⟩
    exact ⟨g, List.mem_of_find?_eq_some hg, by simpa using List.find?_some hg, hcur⟩
  · rintro ⟨g, hg, hid, hcur⟩
    cases hfind : (live.rows files).find? fun f => f.fileId = fileId with
    | none =>
      rw [List.find?_eq_none] at hfind
      exact absurd (by simpa using hid) (hfind g hg)
    | some f =>
      have hf : f.fileId = fileId := by simpa using List.find?_some hfind
      have hfg := Database.fileRow_eq (List.mem_of_find?_eq_some hfind) hg (hf.trans hid.symm)
      exact ⟨f, rfl, by rw [hfg, hcur]⟩

lemma mem_liveFiles :
    fileId ∈ (readLiveFacts live).liveFiles ↔ ∃ g ∈ live.rows files, g.fileId = fileId := by
  simp [readLiveFacts]

lemma mem_tombstoned :
    fileId ∈ (readLiveFacts live).tombstoned ↔
      ∃ d ∈ live.rows fileTombstones, d.fileId = fileId := by
  simp [readLiveFacts]

lemma mem_revoked {version : Int64} {recipientId : Id} :
    (fileId, version, recipientId) ∈ (readLiveFacts live).revoked ↔
      ∃ r ∈ live.rows wrapRevocations, r.fileId = fileId ∧ r.fileVersion = version ∧
        r.recipientId = recipientId := by
  simp [readLiveFacts]

lemma survivorCur_theGate :
    (theGate live staged).survivorCur fileId = some cur ↔ RestoredAt live staged fileId cur := by
  have hnodup : (((staged.rows files).map fun r => (r.fileId, r.currentVersion)).map
      Prod.fst).Nodup := by
    rw [List.map_map, List.nodup_map_iff_inj_on]
    · intro f hf g hg h
      exact Database.fileRow_eq hf hg h
    · exact KeyedRows.nodup_of_not_clash conflicts_refl (staged.unique files)
  unfold theGate FileGate.survivorCur planFileGate RestoredAt
  rw [foldl_plan_eq_some hnodup rfl, mem_tombstoned, mem_liveFiles]
  simp only [List.mem_map, Prod.mk.injEq]
  cases hcur : (readLiveFacts live).currentVersion fileId with
  | some v =>
    obtain ⟨g, hg, hid, hv⟩ := readLiveFacts_currentVersion.mp hcur
    have hlive : ∀ v', (∃ g ∈ live.rows files, g.fileId = fileId ∧ g.currentVersion = v') ↔
        v = v' := by
      intro v'
      rw [← readLiveFacts_currentVersion, hcur, Option.some_inj]
    have hnot : ¬ ∀ g ∈ live.rows files, g.fileId ≠ fileId := fun h => h g hg hid
    simp only [hlive, Option.getD_some]
    constructor
    · rintro ⟨c, ⟨f, hf, hfid, -⟩, -, rfl⟩
      exact ⟨f, hf, hfid, Or.inl rfl⟩
    · rintro ⟨f, hf, hfid, rfl | h⟩
      · exact ⟨_, ⟨f, hf, hfid, rfl⟩, fun h => h.2 ⟨g, hg, hid⟩, rfl⟩
      · exact absurd h.1 hnot
  | none =>
    have hnone : ∀ g ∈ live.rows files, g.fileId ≠ fileId := by
      intro g hg hid
      have := readLiveFacts_currentVersion.mpr ⟨g, hg, hid, rfl⟩
      rw [hcur] at this
      exact absurd this (by simp)
    have hnot : ¬ ∃ g ∈ live.rows files, g.fileId = fileId := by
      rintro ⟨g, hg, hid⟩
      exact hnone g hg hid
    have hnot' : ¬ ∃ g ∈ live.rows files, g.fileId = fileId ∧ g.currentVersion = cur := by
      rintro ⟨g, hg, hid, -⟩
      exact hnone g hg hid
    simp only [hnot, hnot', false_or, not_false_iff, and_true, Option.getD_none]
    constructor
    · rintro ⟨c, ⟨f, hf, hfid, hc⟩, htomb, rfl⟩
      refine ⟨f, hf, hfid, hnone, ?_, hc⟩
      intro d hd hid
      exact htomb ⟨d, hd, hid⟩
    · rintro ⟨f, hf, hfid, -, htomb, hc⟩
      refine ⟨cur, ⟨f, hf, hfid, hc⟩, ?_, rfl⟩
      rintro ⟨d, hd, hid⟩
      exact htomb d hd hid

/-! ## What a merge brings back -/

/-- The staged rows that a merge tries to insert, by table. -/
def candidates (live staged : Database) : (t : Table) → List t.Row
  | files => (theGate live staged).surviving FileRow.fileId (staged.rows files)
  | fileGenesis => (theGate live staged).surviving GenesisRow.fileId (staged.rows fileGenesis)
  | fileVersions => (theGate live staged).surviving VersionRow.fileId
      ((staged.rows fileVersions).filter VersionRow.finalized)
  | fileStreams => keptStreams staged (theGate live staged)
  | fileKeyWraps => keptWraps staged (theGate live staged) (readLiveFacts live)
  | users => staged.rows users
  | directoryBindings => staged.rows directoryBindings
  | registrationKeys => staged.rows registrationKeys
  | firstAdminClaim => staged.rows firstAdminClaim
  | recoveryAccount => staged.rows recoveryAccount
  | sessions => staged.rows sessions
  | authNonces => staged.rows authNonces
  | fileTombstones => staged.rows fileTombstones
  | wrapRevocations => staged.rows wrapRevocations

/-- What the gate asks of a staged row. -/
def Admits (live staged : Database) : (t : Table) → t.Row → Prop
  | files, r => ∃ cur, RestoredAt live staged r.fileId cur
  | fileGenesis, r => ∃ cur, RestoredAt live staged r.fileId cur
  | fileVersions, r => r.finalized = true ∧ ∃ cur, RestoredAt live staged r.fileId cur
  | fileStreams, r => staged.finalizes r.fileId r.version ∧ RestoredAt live staged r.fileId r.version
  | fileKeyWraps, r => staged.finalizes r.fileId r.fileVersion ∧
      RestoredAt live staged r.fileId r.fileVersion ∧
      ∀ x ∈ live.rows wrapRevocations, ¬ (x.fileId = r.fileId ∧ x.fileVersion = r.fileVersion ∧
        x.recipientId = r.recipientId)
  | _, _ => True

lemma mem_surviving {R : Type} {rowId : R → Id} {rows : List R} {r : R} :
    r ∈ (theGate live staged).surviving rowId rows ↔
      r ∈ rows ∧ ∃ cur, RestoredAt live staged (rowId r) cur := by
  unfold FileGate.surviving
  rw [List.mem_filter, Option.isSome_iff_exists]
  simp only [survivorCur_theGate]

lemma mem_keptStreams {r : StreamRow} :
    r ∈ keptStreams staged (theGate live staged) ↔ r ∈ staged.rows fileStreams ∧
      staged.finalizes r.fileId r.version ∧ RestoredAt live staged r.fileId r.version := by
  unfold keptStreams
  rw [← survivorCur_theGate]
  simp only [List.mem_filter, and_assoc]
  cases (theGate live staged).survivorCur r.fileId with
  | none => simp
  | some cur =>
    have hcur : keepStream cur r.version = true ↔ some cur = some r.version := by
      rw [Option.some_inj, keepStream, decide_eq_true_iff, eq_comm]
    simp only [hcur]

lemma wrapVerdict_eq_keep {facts : LiveFacts} {cur version : Int64} {recipientId : Id} :
    wrapVerdict facts fileId cur version recipientId = .keep ↔
      cur = version ∧ (fileId, version, recipientId) ∉ facts.revoked := by
  unfold wrapVerdict
  by_cases hcur : version = cur
  · by_cases hrevoked : (fileId, version, recipientId) ∈ facts.revoked <;> simp_all
  · simp [hcur, Ne.symm hcur]

lemma mem_keptWraps {r : WrapRow} :
    r ∈ keptWraps staged (theGate live staged) (readLiveFacts live) ↔
      r ∈ staged.rows fileKeyWraps ∧ Admits live staged fileKeyWraps r := by
  unfold keptWraps judgedWraps
  simp only [Admits, List.mem_map, List.mem_filter, List.mem_filterMap, Option.map_eq_some_iff,
    survivorCur_theGate]
  constructor
  · rintro ⟨j, ⟨⟨w, ⟨hw, hfinal⟩, cur, hcur, rfl⟩, hkeep⟩, rfl⟩
    obtain ⟨rfl, hrevoked⟩ := wrapVerdict_eq_keep.mp (of_decide_eq_true hkeep)
    refine ⟨hw, hfinal, hcur, ?_⟩
    intro x hx hsame
    exact hrevoked (mem_revoked.mpr ⟨x, hx, hsame⟩)
  · rintro ⟨hr, hfinal, hcur, hfree⟩
    refine ⟨(r, .keep), ⟨⟨r, ⟨hr, hfinal⟩, r.fileVersion, hcur, ?_⟩, by simp⟩, rfl⟩
    rw [Prod.mk.injEq, wrapVerdict_eq_keep, mem_revoked]
    refine ⟨rfl, rfl, ?_⟩
    rintro ⟨x, hx, hsame⟩
    exact hfree x hx hsame

lemma mem_candidates {t : Table} {r : t.Row} :
    r ∈ candidates live staged t ↔ r ∈ staged.rows t ∧ Admits live staged t r := by
  cases t with
  | files => exact mem_surviving
  | fileGenesis => exact mem_surviving
  | fileVersions =>
    refine mem_surviving.trans ?_
    simp only [Admits, List.mem_filter, and_assoc]
  | fileStreams => exact mem_keptStreams
  | fileKeyWraps => exact mem_keptWraps
  | _ => simp [candidates, Admits]

lemma judged_sublist {R V : Type} {judge : R → Option (R × V)} {p : R × V → Bool}
    (hjudge : ∀ r j, judge r = some j → j.1 = r) {rows : List R} :
    (((rows.filterMap judge).filter p).map Prod.fst).Sublist rows := by
  induction rows with
  | nil => exact List.Sublist.refl _
  | cons r rest ih =>
    rw [List.filterMap_cons]
    cases hr : judge r with
    | none => exact ih.cons r
    | some j =>
      obtain rfl := hjudge r j hr
      by_cases hp : p j = true
      · simpa [List.filter_cons, hp] using ih
      · simpa [List.filter_cons, hp] using ih.cons j.1

lemma keptWraps_sublist {gate : FileGate} {facts : LiveFacts} :
    (keptWraps staged gate facts).Sublist (staged.rows fileKeyWraps) := by
  unfold keptWraps judgedWraps
  refine (judged_sublist ?_).trans List.filter_sublist
  intro r j hj
  obtain ⟨cur, -, rfl⟩ := Option.map_eq_some_iff.mp hj
  rfl

lemma candidates_sublist {t : Table} : (candidates live staged t).Sublist (staged.rows t) := by
  cases t with
  | files => exact List.filter_sublist
  | fileGenesis => exact List.filter_sublist
  | fileVersions => exact List.filter_sublist.trans List.filter_sublist
  | fileStreams => exact List.filter_sublist.trans List.filter_sublist
  | fileKeyWraps => exact keptWraps_sublist
  | _ => exact List.Sublist.refl _

def added (live staged : Database) (t : Table) : List t.Row :=
  KeyedRows.missing t.Conflicts (live.rows t) (candidates live staged t)

/-- The entry of a table in the account of a merge. -/
def countOf (n : ℕ) : Option ℕ := if n > 0 then some n else none

/-- A merge that has handled the tables of `done`, and no others. -/
structure Merged (live staged : Database) (done : List Table) (m : Merging) : Prop where
  rows : ∀ t, m.live.rows t = live.rows t ++ if t ∈ done then added live staged t else []
  counts : ∀ t, m.preview.perTableInserts t.name =
    countOf (if t ∈ done then (added live staged t).length else 0)

lemma recordInserts_perTableInserts {preview : MergePreview} {name : String} {n : ℕ}
    (h : preview.perTableInserts name = none) :
    (recordInserts preview name n).perTableInserts =
      Function.update preview.perTableInserts name (countOf n) := by
  unfold recordInserts countOf
  by_cases hn : n > 0
  · rw [if_pos hn, if_pos hn, h]
    simp
  · rw [if_neg hn, if_neg hn, ← h, Function.update_eq_self]

namespace Merged

variable {done : List Table} {t : Table}

lemma start : Merged live staged [] ⟨live, {}⟩ where
  rows _ := by simp
  counts _ := rfl

lemma covers (h : Merged live staged done m) (ht : t ∈ done) {r : t.Row}
    (hr : r ∈ candidates live staged t) : ∃ s ∈ m.live.rows t, t.Conflicts s r := by
  rw [h.rows t, if_pos ht]
  exact KeyedRows.exists_clash_of_mem conflicts_refl hr

lemma insert (h : Merged live staged done m) (ht : t ∉ done)
    (hrefers : ∀ r ∈ added live staged t, Refers m.live.rows t r) :
    ∃ m', m.insert t (candidates live staged t) = .ok m' ∧ Merged live staged (t :: done) m' := by
  have hrows : m.live.rows t = live.rows t := by
    rw [h.rows t, if_neg ht, List.append_nil]
  have hadded : KeyedRows.missing t.Conflicts (m.live.rows t) (candidates live staged t) =
      added live staged t := by
    rw [hrows]
    rfl
  have hchecks : ∀ r ∈ added live staged t, t.Checks r := by
    intro r hr
    exact staged.checks t r (mem_candidates.mp (KeyedRows.missing_sublist.subset hr)).1
  obtain ⟨after, hafter, hafterRows⟩ := Database.insertMissing_eq_ok (hadded ▸ hchecks)
    (hadded ▸ hrefers)
  rw [hadded] at hafter hafterRows
  have hcount : m.preview.perTableInserts t.name = none := by
    rw [h.counts t, if_neg ht]
    rfl
  refine ⟨⟨after, recordInserts m.preview t.name (added live staged t).length⟩, ?_, ?_, ?_⟩
  · unfold Merging.insert
    rw [hafter]
    rfl
  · intro u
    show after.rows u = _
    rw [hafterRows, Database.append]
    by_cases hu : u = t
    · subst hu
      rw [Function.update_self, hrows, if_pos List.mem_cons_self]
    · rw [Function.update_of_ne hu, h.rows u]
      simp [hu]
  · intro u
    rw [recordInserts_perTableInserts hcount]
    by_cases hu : u = t
    · subst hu
      rw [Function.update_self, if_pos List.mem_cons_self]
    · have hname : u.name ≠ t.name := fun hname => hu (name_inj.mp hname)
      rw [Function.update_of_ne hname, h.counts u]
      simp [hu]

lemma withPreview (h : Merged live staged done m) (preview : MergePreview)
    (hpreview : preview.perTableInserts = m.preview.perTableInserts) :
    Merged live staged done ⟨m.live, preview⟩ where
  rows := h.rows
  counts u := by rw [hpreview, h.counts u]

end Merged

/-! ## The statements in their order -/

/-- The backup has the account, and the live database has its name under another id only. -/
def Unmerged (live staged : Database) (userId : Id) : Prop :=
  ∃ u ∈ staged.rows users, u.userId = userId ∧
    (∃ v ∈ live.rows users, v.username = u.username) ∧ ∀ v ∈ live.rows users, v.userId ≠ userId

/-- A file that would come back belongs to such an account. -/
def Orphaned (live staged : Database) : Prop :=
  ∃ f ∈ staged.rows files, (∃ cur, RestoredAt live staged f.fileId cur) ∧
    Unmerged live staged f.ownerId

lemma Database.userRow_eq {db : Database} {u v : UserRow} (hu : u ∈ db.rows users)
    (hv : v ∈ db.rows users) (h : users.Conflicts u v) : u = v := by
  by_contra hne
  have hsymm : Std.Symm fun r s : UserRow => ¬ users.Conflicts r s :=
    ⟨fun r s h h' => h (Or.imp Eq.symm Eq.symm h')⟩
  exact (db.unique users).forall hu hv hne h

lemma lookup_unmergedUsers {after : Database} {owner : Id}
    (hafter : after.rows users = live.rows users ++ added live staged users) :
    ((unmergedUsers after ((KeyedRows.skipped users.Conflicts (live.rows users)
      (staged.rows users)).map fun r => (r.userId, r.username))).lookup owner ≠ none) ↔
      Unmerged live staged owner := by
  rw [Ne, List.lookup_eq_none_iff]
  unfold unmergedUsers Unmerged
  push Not
  simp only [List.mem_filter, List.mem_map, KeyedRows.mem_skipped (staged.unique users),
    decide_eq_true_eq, hafter, List.mem_append]
  constructor
  · rintro ⟨p, ⟨⟨u, ⟨hu, v, hv, hclash⟩, rfl⟩, habsent⟩, howner⟩
    obtain rfl : owner = u.userId := by simpa using howner
    have hfree : ∀ v ∈ live.rows users, v.userId ≠ u.userId := by
      intro v hv hid
      exact habsent ⟨v, Or.inl hv, hid⟩
    refine ⟨u, hu, rfl, ⟨v, hv, ?_⟩, hfree⟩
    obtain hid | hname := hclash
    · exact absurd hid (hfree v hv)
    · exact hname
  · rintro ⟨u, hu, rfl, ⟨v, hv, hname⟩, hfree⟩
    refine ⟨_, ⟨⟨u, ⟨hu, v, hv, Or.inr hname⟩, rfl⟩, ?_⟩, by simp⟩
    rintro ⟨w, hw | hw, hid⟩
    · exact hfree w hw hid
    · obtain ⟨hstaged, hno⟩ := (KeyedRows.mem_missing (staged.unique users)).mp hw
      obtain rfl := Database.userRow_eq hstaged hu (Or.inl hid)
      exact hno v hv (Or.inr hname)

namespace Merged

variable {done : List Table}

lemma live_subset (h : Merged live staged done m) {t : Table} : live.rows t ⊆ m.live.rows t := by
  rw [h.rows t]
  exact List.subset_append_left _ _

lemma mem_candidates_of_added {t : Table} {r : t.Row} (hr : r ∈ added live staged t) :
    r ∈ candidates live staged t :=
  KeyedRows.missing_sublist.subset hr

lemma owner_mem (h : Merged live staged done m) (husers : users ∈ done)
    (horphan : ¬ Orphaned live staged) {r : FileRow} (hr : r ∈ added live staged files) :
    Refers m.live.rows files r := by
  obtain ⟨hstaged, hcur⟩ := mem_candidates.mp (mem_candidates_of_added hr)
  obtain ⟨u, hu, howner⟩ := staged.referential files r hstaged
  obtain ⟨s, hs, hclash⟩ := h.covers husers hu
  obtain hid | hname := hclash
  · exact ⟨s, hs, hid.trans howner⟩
  · rw [h.rows users, if_pos husers] at hs
    obtain hs | hs := List.mem_append.mp hs
    · have hmerged : ¬ Unmerged live staged r.ownerId := fun hun => horphan ⟨r, hstaged, hcur, hun⟩
      have hlive : ∃ v ∈ live.rows users, v.userId = r.ownerId := by
        by_contra hnone
        refine hmerged ⟨u, hu, howner, ⟨s, hs, hname⟩, ?_⟩
        intro v hv hid
        exact hnone ⟨v, hv, hid⟩
      obtain ⟨v, hv, hid⟩ := hlive
      exact ⟨v, h.live_subset hv, hid⟩
    · refine ⟨u, ?_, howner⟩
      have hstagedUser := (mem_candidates.mp (mem_candidates_of_added hs)).1
      have hsu := Database.userRow_eq hstagedUser hu (Or.inr hname)
      rw [← hsu, h.rows users, if_pos husers]
      exact List.mem_append_right _ hs

lemma file_mem (h : Merged live staged done m) (hfiles : files ∈ done)
    (hcur : RestoredAt live staged fileId cur) : ∃ f ∈ m.live.rows files, f.fileId = fileId := by
  obtain ⟨f, hf, hid, hat⟩ := hcur
  have hcandidate : f ∈ candidates live staged files := by
    rw [mem_candidates]
    refine ⟨hf, cur, f, hf, rfl, ?_⟩
    rwa [hid]
  obtain ⟨g, hg, hclash⟩ := h.covers hfiles hcandidate
  exact ⟨g, hg, hclash.trans hid⟩

/-- Once the versions are merged, the finalized versions of every file that comes back are
there. -/
lemma version_mem (h : Merged live staged done m) (hversions : fileVersions ∈ done)
    {version : Int64} (hfinal : staged.finalizes fileId version = true)
    (hcur : RestoredAt live staged fileId cur) :
    ∃ v ∈ m.live.rows fileVersions, v.fileId = fileId ∧ v.version = version := by
  unfold Database.finalizes at hfinal
  obtain ⟨v, hv, hsame⟩ := List.any_eq_true.mp hfinal
  obtain ⟨hid, hversion, hfinalized⟩ := of_decide_eq_true hsame
  have hcandidate : v ∈ candidates live staged fileVersions := by
    rw [mem_candidates]
    refine ⟨hv, hfinalized, cur, ?_⟩
    rwa [hid]
  obtain ⟨w, hw, hclash⟩ := h.covers hversions hcandidate
  exact ⟨w, hw, hclash.1.trans hid, hclash.2.trans hversion⟩

end Merged

def mergeOrder : List Table :=
  [wrapRevocations, fileTombstones, fileKeyWraps, fileStreams, fileVersions, fileGenesis, files,
    authNonces, sessions, recoveryAccount, firstAdminClaim, registrationKeys, directoryBindings,
    users]

lemma mem_mergeOrder (t : Table) : t ∈ mergeOrder := by
  cases t <;> decide

lemma mergeFiles_eq {after : Database}
    (hafter : after.rows users = live.rows users ++ added live staged users) :
    let owners := unmergedUsers after ((KeyedRows.skipped users.Conflicts (live.rows users)
      (staged.rows users)).map fun r => (r.userId, r.username))
    (Orphaned live staged → ∃ usernames, mergeFiles m staged (readLiveFacts live) owners =
      .error (.ownerUsernameCollision usernames)) ∧
    (¬ Orphaned live staged → mergeFiles m staged (readLiveFacts live) owners =
      (m.insert files (candidates live staged files)).bind
        fun m => .ok (m, theGate live staged)) := by
  intro owners
  have hiff : ((theGate live staged).surviving FileRow.fileId (staged.rows files)).filterMap
      (fun r => owners.lookup r.ownerId) ≠ [] ↔ Orphaned live staged := by
    rw [Ne, List.filterMap_eq_nil_iff]
    push Not
    unfold Orphaned
    simp only [mem_surviving, and_assoc]
    refine exists_congr fun f => and_congr_right fun hf => and_congr_right fun hcur => ?_
    exact lookup_unmergedUsers hafter
  constructor
  · intro horphan
    exact ⟨_, if_pos (hiff.mpr horphan)⟩
  · intro horphan
    exact if_neg fun h => horphan (hiff.mp h)

lemma mergeUsers_eq (live staged : Database) :
    ∃ m, mergeUsers ⟨live, {}⟩ staged = .ok (m, (KeyedRows.skipped users.Conflicts (live.rows users)
        (staged.rows users)).map fun r => (r.userId, r.username)) ∧
      Merged live staged [users] m := by
  have hstart : Merged live staged [] ⟨live, {}⟩ := Merged.start
  obtain ⟨m, hm, hmerged⟩ := hstart.insert (t := users) (by simp) (fun _ _ => trivial)
  refine ⟨m, ?_, hmerged⟩
  have hinsert : Merging.insert ⟨live, {}⟩ users (staged.rows users) = .ok m := hm
  simp only [mergeUsers, hinsert]
  rfl

lemma mergeNeverGated_eq (h : Merged live staged [users] m) :
    ∃ m', mergeNeverGated m staged = .ok m' ∧
      Merged live staged [authNonces, sessions, recoveryAccount, firstAdminClaim, registrationKeys,
        directoryBindings, users] m' := by
  obtain ⟨m₁, hm₁, h₁⟩ := h.insert (t := directoryBindings) (by decide) (fun _ _ => trivial)
  obtain ⟨m₂, hm₂, h₂⟩ := h₁.insert (t := registrationKeys) (by decide) (fun _ _ => trivial)
  obtain ⟨m₃, hm₃, h₃⟩ := h₂.insert (t := firstAdminClaim) (by decide) (fun _ _ => trivial)
  obtain ⟨m₄, hm₄, h₄⟩ := h₃.insert (t := recoveryAccount) (by decide) (fun _ _ => trivial)
  obtain ⟨m₅, hm₅, h₅⟩ := h₄.insert (t := sessions) (by decide) (fun _ _ => trivial)
  obtain ⟨m₆, hm₆, h₆⟩ := h₅.insert (t := authNonces) (by decide) (fun _ _ => trivial)
  refine ⟨m₆, ?_, h₆⟩
  simp only [candidates] at hm₁ hm₂ hm₃ hm₄ hm₅ hm₆
  simp only [mergeNeverGated, mergeDirectoryBindings, mergeRegistrationKeys, mergeFirstAdminClaim,
    mergeRecoveryAccount, mergeSessions, mergeAuthNonces, hm₁, hm₂, hm₃, hm₄, hm₅, hm₆, bind,
    Except.bind]

lemma mergeSubtrees_eq {done : List Table} (h : Merged live staged done m) (hfiles : files ∈ done)
    (hgenesis : fileGenesis ∉ done) (hversions : fileVersions ∉ done)
    (hstreams : fileStreams ∉ done) (hwraps : fileKeyWraps ∉ done) :
    ∃ m', mergeSubtrees m staged (theGate live staged) (readLiveFacts live) = .ok m' ∧
      Merged live staged (fileKeyWraps :: fileStreams :: fileVersions :: fileGenesis :: done)
        m' := by
  have hadmits : ∀ {t : Table} {r : t.Row}, r ∈ added live staged t → Admits live staged t r :=
    fun hr => (mem_candidates.mp (Merged.mem_candidates_of_added hr)).2
  obtain ⟨m₁, hm₁, h₁⟩ := h.insert hgenesis fun r hr => by
    obtain ⟨cur, hcur⟩ := hadmits hr
    exact h.file_mem hfiles hcur
  obtain ⟨m₂, hm₂, h₂⟩ := h₁.insert (t := fileVersions) (by simp [hversions]) fun r hr => by
    obtain ⟨-, cur, hcur⟩ := hadmits hr
    exact h₁.file_mem (by simp [hfiles]) hcur
  obtain ⟨m₃, hm₃, h₃⟩ := h₂.insert (t := fileStreams) (by simp [hstreams]) fun r hr => by
    obtain ⟨hfinal, hcur⟩ := hadmits hr
    exact h₂.version_mem (by simp) hfinal hcur
  have hcounted := h₃.withPreview { m₃.preview with
    wrapsSkippedSuperseded := m₃.preview.wrapsSkippedSuperseded +
      (judgedWraps staged (theGate live staged) (readLiveFacts live)).countP
        fun j => j.2 = .skipSuperseded
    wrapsSkippedRevoked := m₃.preview.wrapsSkippedRevoked +
      (judgedWraps staged (theGate live staged) (readLiveFacts live)).countP
        fun j => j.2 = .skipRevoked } rfl
  obtain ⟨m₄, hm₄, h₄⟩ := hcounted.insert (t := fileKeyWraps) (by simp [hwraps]) fun r hr => by
    obtain ⟨hfinal, hcur, -⟩ := hadmits hr
    exact h₃.version_mem (by simp) hfinal hcur
  refine ⟨m₄, ?_, h₄⟩
  simp only [candidates] at hm₁ hm₂ hm₃ hm₄
  simp only [mergeSubtrees, mergeFileGenesis, mergeFileVersions, mergeFileStreams,
    mergeFileKeyWraps, hm₁, hm₂, hm₃, hm₄, bind, Except.bind]

lemma mergeAbsences_eq {done : List Table} (h : Merged live staged done m)
    (htombstones : fileTombstones ∉ done) (hrevocations : wrapRevocations ∉ done) :
    ∃ m', mergeAbsences m staged = .ok m' ∧
      Merged live staged (wrapRevocations :: fileTombstones :: done) m' := by
  obtain ⟨m₁, hm₁, h₁⟩ := h.insert htombstones (fun _ _ => trivial)
  obtain ⟨m₂, hm₂, h₂⟩ := h₁.insert (t := wrapRevocations) (by simp [hrevocations])
    (fun _ _ => trivial)
  refine ⟨m₂, ?_, h₂⟩
  simp only [candidates] at hm₁ hm₂
  simp only [mergeAbsences, mergeFileTombstones, mergeWrapRevocations, hm₁, hm₂, bind, Except.bind]

lemma mergeTables_eq (live staged : Database) :
    (Orphaned live staged → ∃ usernames,
      mergeTables live staged = .error (.ownerUsernameCollision usernames)) ∧
    (¬ Orphaned live staged → ∃ m, mergeTables live staged = .ok m ∧
      Merged live staged mergeOrder m) := by
  obtain ⟨m₁, hm₁, h₁⟩ := mergeUsers_eq live staged
  obtain ⟨m₂, hm₂, h₂⟩ := mergeNeverGated_eq h₁
  obtain ⟨hrefused, hgoes⟩ := mergeFiles_eq (m := m₂) (h₁.rows users)
  constructor
  · intro horphan
    obtain ⟨usernames, herror⟩ := hrefused horphan
    refine ⟨usernames, ?_⟩
    simp only [mergeTables, hm₁, hm₂, herror, bind, Except.bind]
  · intro horphan
    obtain ⟨m₃, hm₃, h₃⟩ := h₂.insert (t := files) (by decide) fun r hr =>
      h₂.owner_mem (by decide) horphan hr
    have hfiles := hgoes horphan
    rw [hm₃] at hfiles
    have hgated := h₃.withPreview { m₃.preview with
      subtreesSkippedTombstoned := (theGate live staged).skippedTombstoned
      filesRestoredWhole := (theGate live staged).restoredWhole } rfl
    obtain ⟨m₄, hm₄, h₄⟩ := mergeSubtrees_eq hgated (by decide) (by decide) (by decide) (by decide)
      (by decide)
    obtain ⟨m₅, hm₅, h₅⟩ := mergeAbsences_eq h₄ (by decide) (by decide)
    refine ⟨m₅, ?_, h₅⟩
    simp only [mergeTables, hm₁, hm₂, hfiles, hm₄, hm₅, bind, Except.bind]

/-! ## A merge does not depend on the order of a scan -/

section Scans

variable {live' staged' : Database} (hlive : live'.SameRows live) (hstaged : staged'.SameRows staged)

include hlive hstaged

lemma restoredAt_congr :
    RestoredAt live' staged' fileId cur ↔ RestoredAt live staged fileId cur := by
  simp only [RestoredAt, (hlive _).mem_iff, (hstaged _).mem_iff]

lemma admits_congr {t : Table} {r : t.Row} : Admits live' staged' t r ↔ Admits live staged t r := by
  have hfinal : ∀ id v, staged'.finalizes id v = true ↔ staged.finalizes id v = true := by
    intro id v
    simp only [Database.finalizes, List.any_eq_true, (hstaged _).mem_iff]
  cases t with
  | files => simp only [Admits, restoredAt_congr hlive hstaged]
  | fileGenesis => simp only [Admits, restoredAt_congr hlive hstaged]
  | fileVersions => simp only [Admits, restoredAt_congr hlive hstaged]
  | fileStreams => simp only [Admits, restoredAt_congr hlive hstaged, hfinal]
  | fileKeyWraps =>
    simp only [Admits, restoredAt_congr hlive hstaged, hfinal, (hlive _).mem_iff]
  | _ => exact Iff.rfl

lemma mem_candidates_congr {t : Table} {r : t.Row} :
    r ∈ candidates live' staged' t ↔ r ∈ candidates live staged t := by
  rw [mem_candidates, mem_candidates, admits_congr hlive hstaged, (hstaged t).mem_iff]

lemma length_added_congr (t : Table) :
    (added live' staged' t).length = (added live staged t).length :=
  KeyedRows.length_missing_congr conflicts_refl ((staged'.unique t).sublist candidates_sublist)
    ((staged.unique t).sublist candidates_sublist) (fun _ => (hlive t).mem_iff)
    (fun _ => mem_candidates_congr hlive hstaged)

lemma orphaned_congr : Orphaned live' staged' ↔ Orphaned live staged := by
  simp only [Orphaned, Unmerged, restoredAt_congr hlive hstaged, (hlive _).mem_iff,
    (hstaged _).mem_iff]

end Scans

/-! ## A second merge -/

namespace Merged

variable (h : Merged live staged mergeOrder m)

include h

lemma rows_eq (t : Table) : m.live.rows t = live.rows t ++ added live staged t := by
  rw [h.rows t, if_pos (mem_mergeOrder t)]

lemma inserted_eq (t : Table) : m.preview.inserted t = (added live staged t).length := by
  unfold MergePreview.inserted
  rw [h.counts t, if_pos (mem_mergeOrder t)]
  unfold countOf
  split_ifs with hn
  · rfl
  · rw [Option.getD_none]
    omega

/-- A file comes back at the version it came back at before: the row that was inserted for it is
the backup's own. -/
lemma restoredAt_again (hcur : RestoredAt m.live staged fileId cur) :
    RestoredAt live staged fileId cur := by
  obtain ⟨f, hf, hid, hat | hlost⟩ := hcur
  · obtain ⟨g, hg, hgid, hgcur⟩ := hat
    rw [h.rows_eq] at hg
    obtain hg | hg := List.mem_append.mp hg
    · exact ⟨f, hf, hid, Or.inl ⟨g, hg, hgid, hgcur⟩⟩
    · obtain ⟨hstaged, cur', f', hf', hid', hat'⟩ := mem_candidates.mp (mem_candidates_of_added hg)
      obtain rfl := Database.fileRow_eq hf' hstaged hid'
      obtain hlive | ⟨hno, htomb, -⟩ := hat'
      · obtain ⟨s, hs, hsid, -⟩ := hlive
        have hclash : ¬ files.Conflicts s f' := KeyedRows.not_clash_of_mem_missing hg hs
        exact absurd hsid hclash
      · rw [← hgid]
        exact ⟨f', hf', rfl, Or.inr ⟨hno, htomb, hgcur⟩⟩
  · obtain ⟨hno, htomb, hfcur⟩ := hlost
    exact ⟨f, hf, hid, Or.inr ⟨fun g hg => hno g (h.live_subset hg),
      fun d hd => htomb d (h.live_subset hd), hfcur⟩⟩

lemma candidates_again {t : Table} {r : t.Row} (hr : r ∈ candidates m.live staged t) :
    r ∈ candidates live staged t := by
  obtain ⟨hstaged, hadmits⟩ := mem_candidates.mp hr
  refine mem_candidates.mpr ⟨hstaged, ?_⟩
  cases t with
  | files =>
    obtain ⟨cur, hcur⟩ := hadmits
    exact ⟨cur, h.restoredAt_again hcur⟩
  | fileGenesis =>
    obtain ⟨cur, hcur⟩ := hadmits
    exact ⟨cur, h.restoredAt_again hcur⟩
  | fileVersions =>
    obtain ⟨hfinal, cur, hcur⟩ := hadmits
    exact ⟨hfinal, cur, h.restoredAt_again hcur⟩
  | fileStreams =>
    obtain ⟨hfinal, hcur⟩ := hadmits
    exact ⟨hfinal, h.restoredAt_again hcur⟩
  | fileKeyWraps =>
    obtain ⟨hfinal, hcur, hfree⟩ := hadmits
    exact ⟨hfinal, h.restoredAt_again hcur, fun x hx => hfree x (h.live_subset hx)⟩
  | _ => trivial

lemma added_again (t : Table) : added m.live staged t = [] := by
  refine KeyedRows.missing_eq_nil ?_
  intro r hr
  exact h.covers (mem_mergeOrder t) (h.candidates_again hr)

lemma live_eq (hadded : ∀ t, added live staged t = []) : m.live = live := by
  refine Database.eq_of_rows ?_
  funext t
  rw [h.rows_eq, hadded, List.append_nil]

lemma not_orphaned_again (horphan : ¬ Orphaned live staged) : ¬ Orphaned m.live staged := by
  rintro ⟨f, hf, ⟨cur, hcur⟩, u, hu, howner, ⟨v, hv, hname⟩, hfree⟩
  rw [h.rows_eq] at hv
  obtain hv | hv := List.mem_append.mp hv
  · exact horphan ⟨f, hf, ⟨cur, h.restoredAt_again hcur⟩, u, hu, howner, ⟨v, hv, hname⟩,
      fun w hw => hfree w (h.live_subset hw)⟩
  · obtain ⟨hstaged, -⟩ := mem_candidates.mp (mem_candidates_of_added hv)
    obtain rfl := Database.userRow_eq hstaged hu (Or.inr hname)
    refine hfree v ?_ howner
    rw [h.rows_eq]
    exact List.mem_append_right _ hv

end Merged

/-- Every live row stays where it is, and rows of the backup whose keys were absent follow. -/
def Database.Extends (after live staged : Database) : Prop :=
  ∀ t, ∃ new, after.rows t = live.rows t ++ new ∧
    ∀ r ∈ new, r ∈ staged.rows t ∧ ∀ s ∈ live.rows t, ¬ t.Conflicts s r

lemma runMerge_ok {others : ℕ} {apply : Bool} {preview : MergePreview} {after : Database}
    (h : runMerge live staged others apply = (.ok preview, after)) :
    ¬ Orphaned live staged ∧ ∃ m, Merged live staged mergeOrder m ∧ m.preview = preview ∧
      after = if apply then m.live else live := by
  unfold runMerge at h
  by_cases hothers : others > 0
  · rw [if_pos hothers] at h
    simp at h
  · rw [if_neg hothers] at h
    obtain ⟨hrefused, hgoes⟩ := mergeTables_eq live staged
    by_cases horphan : Orphaned live staged
    · obtain ⟨usernames, herror⟩ := hrefused horphan
      rw [herror] at h
      simp at h
    · obtain ⟨m, hm, hmerged⟩ := hgoes horphan
      rw [hm] at h
      obtain ⟨hpreview, hafter⟩ := Prod.mk.inj h
      exact ⟨horphan, m, hmerged, Except.ok.inj hpreview, hafter.symm⟩

lemma runMerge_error {others : ℕ} {apply : Bool} {e : BackupError} {after : Database}
    (h : runMerge live staged others apply = (.error e, after)) : after = live := by
  unfold runMerge at h
  by_cases hothers : others > 0
  · rw [if_pos hothers] at h
    exact (Prod.mk.inj h).2.symm
  · rw [if_neg hothers] at h
    cases hm : mergeTables live staged with
    | error e' =>
      rw [hm] at h
      exact (Prod.mk.inj h).2.symm
    | ok m =>
      rw [hm] at h
      simp at h

lemma runMerge_of_not_orphaned (horphan : ¬ Orphaned live staged) (apply : Bool) :
    ∃ m, Merged live staged mergeOrder m ∧
      runMerge live staged 0 apply = (.ok m.preview, if apply then m.live else live) := by
  obtain ⟨m, hm, hmerged⟩ := (mergeTables_eq live staged).2 horphan
  refine ⟨m, hmerged, ?_⟩
  unfold runMerge
  rw [if_neg (by omega), hm]

end MaxSecu.Backup
