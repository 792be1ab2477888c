import Mathlib.Data.List.TakeWhile
import MaxSecu.Server.AncestorChain
import MaxSecu.Server.UndamagedMerge

/-!
# A file that is lost and merged back

When all rows of a file are lost, a merge brings back what the snapshot has of its current version,
but no wrap for which a revocation is on record, and nothing at all of a file with a tombstone.
Neither record says which wrap or which file of that id it was for, so one from before the
snapshot counts as well (`getFile_afterLoss_iff`).
-/

namespace MaxSecu.Backup

open Table AncestorChain

variable {s t l after : Database}

/-! ## Recovery is never revoked -/

/-- The wraps of the recovery type are for the recovery recipient, who is never revoked. -/
structure Database.RecoveryApart (db : Database) : Prop where
  wraps : ∀ w ∈ db.rows fileKeyWraps, w.recipientType = 2 → w.recipientId = RECOVERY_ID
  revocations : ∀ x ∈ db.rows wrapRevocations, x.recipientId ≠ RECOVERY_ID

lemma Database.RecoveryApart.of_subset (h : s.RecoveryApart)
    (hwraps : after.rows fileKeyWraps ⊆ s.rows fileKeyWraps)
    (hrevocations : after.rows wrapRevocations ⊆ s.rows wrapRevocations) : after.RecoveryApart :=
  ⟨fun w hw => h.wraps w (hwraps hw), fun x hx => h.revocations x (hrevocations hx)⟩

lemma recoveryApart_putVersion (h : s.RecoveryApart) {st : CheckedStage} {now : Timestamptz}
    {rows : Tables} (hrows : after.rows = Tables.putVersion rows st.parsed now)
    (hwraps : rows fileKeyWraps = s.rows fileKeyWraps)
    (hrevocations : rows wrapRevocations = s.rows wrapRevocations) : after.RecoveryApart := by
  constructor
  · rw [hrows]
    intro w hw htype
    obtain hw | hw := List.mem_append.mp hw
    · rw [hwraps] at hw
      exact h.wraps w (List.mem_filter.mp hw).1 htype
    · obtain ⟨input, hinput, rfl⟩ := List.mem_map.mp hw
      have hshape := st.wellParsed.wraps input hinput
      exact (WrapInput.isHalfShape_eq_false.mp hshape).mp htype
  · rw [hrows]
    intro x hx
    have hx' : x ∈ rows wrapRevocations := hx
    rw [hrevocations] at hx'
    exact h.revocations x hx'

lemma Database.RecoveryApart.next {call : PgCall} (h : s.RecoveryApart)
    (hnext : call.Next s after) : after.RecoveryApart := by
  rw [hnext]
  obtain hsame | heffect := call.apply_cases s
  · rwa [hsame]
  generalize call.apply s = after at heffect
  generalize hrows : after.rows = rows at heffect
  cases heffect with
  | create st g now hgenesis hopen => exact recoveryApart_putVersion h hrows rfl rfl
  | rotate st now f hf hid hopen => exact recoveryApart_putVersion h hrows rfl rfl
  | finalize f version callerId now hf hversion hstaged =>
    refine h.of_subset ?_ ?_
    · rw [hrows]
      intro w hw
      simp only [Tables.finalize] at hw
      split_ifs at hw
      · exact (List.mem_filter.mp hw).1
      · exact hw
    · rw [hrows]
      exact List.Subset.refl _
  | addWrap f wrap callerId nowMs now hshape hf =>
    have htype : wrap.recipientType = 1 := by
      have := of_decide_eq_true hshape
      exact this.2.1
    constructor
    · rw [hrows]
      intro w hw hw2
      have hnew : ∀ created, w ≠ WrapRow.ofInput f.fileId f.currentVersion wrap created := by
        intro created heq
        rw [heq] at hw2
        have hw2' : wrap.recipientType = 2 := hw2
        rw [htype] at hw2'
        exact absurd hw2' (by decide)
      simp only [Tables.putWrap] at hw
      split_ifs at hw with hthere
      · obtain ⟨w', hw', rfl⟩ := List.mem_map.mp hw
        split_ifs at hw2 hnew ⊢ with hsame
        · exact absurd rfl (hnew w'.createdAt)
        · exact h.wraps w' hw' hw2
      · obtain hw | hw := List.mem_append.mp hw
        · exact h.wraps w hw hw2
        · exact absurd (List.mem_singleton.mp hw) (hnew now)
    · rw [hrows]
      exact h.revocations
  | deleteWrap f recipientId callerId now hrecovery hf =>
    constructor
    · rw [hrows]
      intro w hw
      exact h.wraps w (List.mem_filter.mp hw).1
    · rw [hrows]
      intro x hx
      obtain hx | ⟨rfl, -⟩ := mem_insertOr hx
      · exact h.revocations x hx
      · exact hrecovery
  | discard f callerId hf hcur =>
    refine h.of_subset ?_ ?_
    · rw [hrows]
      intro w hw
      exact (List.mem_filter.mp hw).1
    · rw [hrows]
      exact List.Subset.refl _
  | delete f ownerId now ids hf hid =>
    refine h.of_subset ?_ ?_
    · rw [hrows]
      intro w hw
      exact (List.mem_filter.mp hw).1
    · rw [hrows]
      exact List.Subset.refl _

lemma Database.RecoveryApart.run {path : List (Database × PgCall)} (h : s.RecoveryApart)
    (hrun : PgRun s path t) : t.RecoveryApart :=
  LabelledRun.invariant h (fun _ _ _ h hnext => h.next hnext) hrun

lemma Database.FileFree.recoveryApart (h : s.FileFree) : s.RecoveryApart where
  wraps w hw := by
    rw [h.wraps] at hw
    exact absurd hw List.not_mem_nil
  revocations x hx := by
    rw [h.revocations] at hx
    exact absurd hx List.not_mem_nil

/-! ## What comes back of the file -/

lemma eq_filter_of_sublist {α : Type} {l₁ l₂ : List α} {p : α → Bool} (h : l₁.Sublist l₂)
    (hnodup : l₂.Nodup) (hmem : ∀ x ∈ l₂, x ∈ l₁ ↔ p x = true) : l₁ = l₂.filter p := by
  induction h with
  | slnil => rfl
  | @cons l₁ l₂ a hsub ih =>
    obtain ⟨ha, hnodup⟩ := List.nodup_cons.mp hnodup
    have hout : ¬ p a = true := by
      rw [← hmem a List.mem_cons_self]
      intro hin
      exact ha (hsub.subset hin)
    rw [List.filter_cons_of_neg hout]
    exact ih hnodup fun x hx => hmem x (List.mem_cons_of_mem a hx)
  | @cons_cons l₁ l₂ a hsub ih =>
    obtain ⟨ha, hnodup⟩ := List.nodup_cons.mp hnodup
    have hin : p a = true := (hmem a List.mem_cons_self).mp List.mem_cons_self
    rw [List.filter_cons_of_pos hin]
    congr 1
    refine ih hnodup ?_
    intro x hx
    rw [← hmem x (List.mem_cons_of_mem a hx), List.mem_cons]
    constructor
    · exact Or.inr
    · rintro (rfl | hx')
      · exact absurd hx ha
      · exact hx'

lemma Merged.filter_eq {m : Merging} (h : Merged l s mergeOrder m) {u : Table} {p q : u.Row → Bool}
    (hlive : ∀ r ∈ l.rows u, p r = false)
    (hfree : ∀ r ∈ s.rows u, p r = true → ∀ x ∈ l.rows u, ¬ u.Conflicts x r)
    (hgate : ∀ r ∈ s.rows u, p r = true → (Admits l s u r ↔ q r = true)) :
    (m.live.rows u).filter p = (s.rows u).filter fun r => p r && q r := by
  have hnone : (l.rows u).filter p = [] := by
    rw [List.filter_eq_nil_iff]
    intro r hr
    simp [hlive r hr]
  rw [h.rows_eq, List.filter_append, hnone, List.nil_append]
  have hsub : (candidates l s u).Sublist (s.rows u) := candidates_sublist
  have hbatch := (s.unique u).sublist hsub
  refine eq_filter_of_sublist ?_ (KeyedRows.nodup_of_not_clash conflicts_refl (s.unique u)) ?_
  · exact List.filter_sublist.trans (KeyedRows.missing_sublist.trans hsub)
  · intro r hr
    rw [List.mem_filter, added, KeyedRows.mem_missing hbatch, mem_candidates, Bool.and_eq_true]
    constructor
    · rintro ⟨⟨⟨-, hadmits⟩, -⟩, hp⟩
      exact ⟨hp, (hgate r hr hp).mp hadmits⟩
    · rintro ⟨hp, hq⟩
      exact ⟨⟨⟨hr, (hgate r hr hp).mpr hq⟩, hfree r hr hp⟩, hp⟩

lemma dropFiles_sublist {rows : Tables} {ids : List Id} (u : Table) :
    (Tables.dropFiles rows ids u).Sublist (rows u) := by
  cases u with
  | files => exact List.filter_sublist
  | fileGenesis => exact List.filter_sublist
  | fileVersions => exact List.filter_sublist
  | fileStreams => exact List.filter_sublist
  | fileKeyWraps => exact List.filter_sublist
  | _ => exact List.Sublist.refl _

lemma dropFiles_refers {ids : List Id} (u : Table) {r : u.Row}
    (hr : r ∈ Tables.dropFiles t.rows ids u) : Refers (Tables.dropFiles t.rows ids) u r := by
  have hrefers := t.referential u r ((dropFiles_sublist u).subset hr)
  cases u with
  | files => exact hrefers
  | fileGenesis =>
    obtain ⟨g, hg, hid⟩ := hrefers
    refine ⟨g, List.mem_filter.mpr ⟨hg, ?_⟩, hid⟩
    rw [hid]
    exact (List.mem_filter.mp hr).2
  | fileVersions =>
    obtain ⟨g, hg, hid⟩ := hrefers
    refine ⟨g, List.mem_filter.mpr ⟨hg, ?_⟩, hid⟩
    rw [hid]
    exact (List.mem_filter.mp hr).2
  | fileStreams =>
    obtain ⟨v, hv, hid, hversion⟩ := hrefers
    refine ⟨v, List.mem_filter.mpr ⟨hv, ?_⟩, hid, hversion⟩
    rw [hid]
    exact (List.mem_filter.mp hr).2
  | fileKeyWraps =>
    obtain ⟨v, hv, hid, hversion⟩ := hrefers
    refine ⟨v, List.mem_filter.mpr ⟨hv, ?_⟩, hid, hversion⟩
    rw [hid]
    exact (List.mem_filter.mp hr).2
  | _ => trivial

/-- The database as it was but for all rows of one file. -/
def Database.lose (db : Database) (fileId : Id) : Database where
  rows := Tables.dropFiles db.rows [fileId]
  checks u r hr := db.checks u r ((dropFiles_sublist u).subset hr)
  unique u := (db.unique u).sublist (dropFiles_sublist u)
  referential u _ hr := dropFiles_refers u hr

def Database.tombstoned (db : Database) (fileId : Id) : Prop :=
  ∃ d ∈ db.rows fileTombstones, d.fileId = fileId

/-- A revocation is on record for a recipient of a version. -/
def Database.revokes (db : Database) (fileId : Id) (version : Int64) (recipientId : Id) : Bool :=
  (db.rows wrapRevocations).any fun x =>
    x.fileId = fileId ∧ x.fileVersion = version ∧ x.recipientId = recipientId

section Restoring

variable {m : Merging} {f : FileRow}

lemma ne_of_mem_drop {R : Type} {rowId : R → Id} {rows : List R} {id : Id} {r : R}
    (h : r ∈ rows.filter fun r => rowId r ∉ [id]) : rowId r ≠ id := by
  have := of_decide_eq_true (List.mem_filter.mp h).2
  simpa using this

lemma restoredAt_iff (hlost : l.rows = Tables.dropFiles t.rows [f.fileId]) (hf : f ∈ s.rows files) {v : Int64} :
    RestoredAt l s f.fileId v ↔ ¬ l.tombstoned f.fileId ∧ v = f.currentVersion := by
  have hno : ∀ g ∈ l.rows files, g.fileId ≠ f.fileId := by
    intro g hg
    rw [hlost] at hg
    exact ne_of_mem_drop hg
  unfold RestoredAt Database.tombstoned
  constructor
  · rintro ⟨f', hf', hid, ⟨g, hg, hgid, -⟩ | ⟨-, htomb, hv⟩⟩
    · exact absurd hgid (hno g hg)
    · refine ⟨?_, ?_⟩
      · rintro ⟨d, hd, hdid⟩
        exact htomb d hd hdid
      · rw [← hv, Database.fileRow_eq hf' hf hid]
  · rintro ⟨htomb, rfl⟩
    exact ⟨f, hf, rfl, Or.inr ⟨hno, fun d hd hid => htomb ⟨d, hd, hid⟩, rfl⟩⟩

lemma Database.findFile_of_mem (hf : f ∈ s.rows files) : s.findFile f.fileId = some f := by
  cases h : s.findFile f.fileId with
  | none =>
    have := List.find?_eq_none.mp h f hf
    simp at this
  | some g =>
    obtain ⟨hg, hid⟩ := Database.findFile_eq_some h
    rw [Database.fileRow_eq hg hf hid]

lemma find?_congr_filter {R : Type} {rows rows' : List R} {p : R → Bool}
    (h : rows.filter p = rows'.filter p) : rows.find? p = rows'.find? p := by
  rw [← List.head?_filter, h, List.head?_filter]

section Lookups

variable (hmerged : Merged l s mergeOrder m) (hlost : l.rows = Tables.dropFiles t.rows [f.fileId]) (hf : f ∈ s.rows files)

include hmerged hlost

lemma filter_restored (u : Table) (rowId : u.Row → Id) {p q : u.Row → Bool}
    (hrows : Tables.dropFiles t.rows [f.fileId] u =
      (t.rows u).filter fun r => rowId r ∉ [f.fileId])
    (hclash : ∀ x r, u.Conflicts x r → rowId x = rowId r)
    (hp : ∀ r, p r = true → rowId r = f.fileId)
    (hgate : ∀ r ∈ s.rows u, p r = true → (Admits l s u r ↔ q r = true)) :
    (m.live.rows u).filter p = (s.rows u).filter fun r => p r && q r := by
  have hgone : ∀ r ∈ l.rows u, rowId r ≠ f.fileId := by
    intro r hr
    rw [hlost, hrows] at hr
    exact ne_of_mem_drop hr
  refine hmerged.filter_eq ?_ ?_ hgate
  · intro r hr
    by_contra hpr
    exact hgone r hr (hp r (by simpa using hpr))
  · intro r _ hpr x hx hxr
    exact hgone x hx ((hclash x r hxr).trans (hp r hpr))

lemma filter_restored_whole (u : Table) (rowId : u.Row → Id) {p : u.Row → Bool}
    (hrows : Tables.dropFiles t.rows [f.fileId] u =
      (t.rows u).filter fun r => rowId r ∉ [f.fileId])
    (hclash : ∀ x r, u.Conflicts x r → rowId x = rowId r)
    (hp : ∀ r, p r = true → rowId r = f.fileId)
    (hgate : ∀ r ∈ s.rows u, p r = true → Admits l s u r) :
    (m.live.rows u).filter p = (s.rows u).filter p := by
  have h : (m.live.rows u).filter p = (s.rows u).filter fun r => p r && true :=
    filter_restored hmerged hlost u rowId hrows hclash hp fun r hr hpr => by simp [hgate r hr hpr]
  simpa using h

include hf

lemma findFile_tombstoned (htomb : l.tombstoned f.fileId) : m.live.findFile f.fileId = none := by
  have h : (m.live.rows files).filter (fun g => decide (g.fileId = f.fileId)) =
      (s.rows files).filter fun g => decide (g.fileId = f.fileId) && false := by
    refine filter_restored hmerged hlost files FileRow.fileId rfl ?_ ?_ ?_
    · exact fun x r h => h
    · exact fun r h => of_decide_eq_true h
    · intro r _ hp
      have hid : r.fileId = f.fileId := of_decide_eq_true hp
      simp [Admits, hid, restoredAt_iff hlost hf, htomb]
  unfold Database.findFile
  rw [← List.head?_filter, h]
  simp

variable (htomb : ¬ l.tombstoned f.fileId)

include htomb

omit hmerged in
lemma restoredAt_current : RestoredAt l s f.fileId f.currentVersion :=
  (restoredAt_iff hlost hf).mpr ⟨htomb, rfl⟩

lemma findFile_restored : m.live.findFile f.fileId = some f := by
  rw [← Database.findFile_of_mem hf]
  refine find?_congr_filter ?_
  refine filter_restored_whole hmerged hlost files FileRow.fileId rfl ?_ ?_ ?_
  · exact fun x r h => h
  · exact fun r h => of_decide_eq_true h
  · intro r _ hp
    have hid : r.fileId = f.fileId := of_decide_eq_true hp
    refine ⟨f.currentVersion, ?_⟩
    rw [hid]
    exact restoredAt_current hlost hf htomb

lemma findGenesis_restored :
    ((m.live.rows fileGenesis).find? fun g => g.fileId = f.fileId) =
      (s.rows fileGenesis).find? fun g => g.fileId = f.fileId := by
  refine find?_congr_filter ?_
  refine filter_restored_whole hmerged hlost fileGenesis GenesisRow.fileId rfl ?_ ?_ ?_
  · exact fun x r h => h
  · exact fun r h => of_decide_eq_true h
  · intro r _ hp
    have hid : r.fileId = f.fileId := of_decide_eq_true hp
    refine ⟨f.currentVersion, ?_⟩
    rw [hid]
    exact restoredAt_current hlost hf htomb

variable (hs : s.Numbered) (hpos : 1 ≤ f.currentVersion)

include hs hpos

omit hmerged hlost htomb in
lemma finalizes_current : s.finalizes f.fileId f.currentVersion = true := by
  obtain ⟨v, hv, hid, hversion, hfinal⟩ := hs.current hf hpos
  exact List.any_eq_true.mpr ⟨v, hv, decide_eq_true ⟨hid, hversion, hfinal⟩⟩

lemma findVersion_restored : m.live.findVersion f.fileId f.currentVersion =
    s.findVersion f.fileId f.currentVersion := by
  refine find?_congr_filter ?_
  refine filter_restored_whole hmerged hlost fileVersions VersionRow.fileId rfl ?_ ?_ ?_
  · exact fun x r h => h.1
  · exact fun r h => (of_decide_eq_true h).1
  · intro r hr hp
    obtain ⟨hid, hversion⟩ := of_decide_eq_true hp
    obtain ⟨v, hv, hvid, hvversion, hfinal⟩ := hs.current hf hpos
    rw [Database.versionRow_eq hr hv (hid.trans hvid.symm) (hversion.trans hvversion.symm)]
    refine ⟨hfinal, f.currentVersion, ?_⟩
    rw [hvid]
    exact restoredAt_current hlost hf htomb

lemma streamsOf_restored : m.live.streamsOf f.fileId f.currentVersion =
    s.streamsOf f.fileId f.currentVersion := by
  refine filter_restored_whole hmerged hlost fileStreams StreamRow.fileId rfl ?_ ?_ ?_
  · exact fun x r h => h.1
  · exact fun r h => (of_decide_eq_true h).1
  · intro r hr hp
    obtain ⟨hid, hversion⟩ := of_decide_eq_true hp
    show _ ∧ _
    rw [hid, hversion]
    exact ⟨finalizes_current hf hs hpos, restoredAt_current hlost hf htomb⟩

lemma wrapsOf_restored : m.live.wrapsOf f.fileId f.currentVersion =
    (s.wrapsOf f.fileId f.currentVersion).filter fun w =>
      ! l.revokes f.fileId f.currentVersion w.recipientId := by
  have h : (m.live.rows fileKeyWraps).filter (fun w => decide (w.fileId = f.fileId ∧
      w.fileVersion = f.currentVersion)) = (s.rows fileKeyWraps).filter fun w =>
        decide (w.fileId = f.fileId ∧ w.fileVersion = f.currentVersion) &&
          ! l.revokes f.fileId f.currentVersion w.recipientId := by
    refine filter_restored hmerged hlost fileKeyWraps WrapRow.fileId rfl ?_ ?_ ?_
    · exact fun x r h => h.1
    · exact fun r h => (of_decide_eq_true h).1
    · intro r hr hp
      obtain ⟨hid, hversion⟩ := of_decide_eq_true hp
      simp only [Admits, hid, hversion, finalizes_current hf hs hpos,
        restoredAt_current hlost hf htomb, true_and, Bool.not_eq_true', Database.revokes,
        List.any_eq_false, decide_eq_true_iff]
  unfold Database.wrapsOf
  rw [h, List.filter_filter]
  congr 1
  funext w
  rw [Bool.and_comm]

end Lookups

end Restoring

/-! ## What a recipient sees -/

lemma find?_filter_keep {wraps : List WrapInput} {keep : Id → Bool} {id : Id} :
    (wraps.filter fun w => keep w.recipientId).find? (fun w => w.recipientId = id) =
      if keep id then wraps.find? (fun w => w.recipientId = id) else none := by
  induction wraps with
  | nil => simp
  | cons w wraps ih =>
    by_cases hid : w.recipientId = id
    · by_cases hkeep : keep id = true
      · simp [hid, hkeep]
      · rw [if_neg hkeep] at ih ⊢
        rw [List.filter_cons, hid, if_neg hkeep, ih]
    · by_cases hkeep : keep w.recipientId = true
      · rw [List.filter_cons, if_pos hkeep, List.find?_cons_of_neg (by simpa using hid),
          List.find?_cons_of_neg (by simpa using hid), ih]
      · rw [List.filter_cons, if_neg hkeep, List.find?_cons_of_neg (by simpa using hid), ih]

lemma walkWraps_filter {wraps : List WrapInput} {keep : Id → Bool} {author grantedBy : Id}
    {rounds : ℕ} {seen : List Id} :
    walkWraps (wraps.filter fun w => keep w.recipientId) author rounds seen grantedBy =
      (walkWraps wraps author rounds seen grantedBy).takeWhile fun w => keep w.recipientId := by
  induction rounds generalizing seen grantedBy with
  | zero => rfl
  | succ rounds ih =>
    unfold walkWraps
    by_cases hstop : grantedBy = author ∨ grantedBy ∈ seen
    · rw [if_pos hstop, if_pos hstop]
      rfl
    · rw [if_neg hstop, if_neg hstop, find?_filter_keep]
      cases hfind : wraps.find? fun w => w.recipientId = grantedBy with
      | none => simp
      | some anc =>
        have hid : anc.recipientId = grantedBy := by simpa using List.find?_some hfind
        by_cases hkeep : keep grantedBy = true
        · rw [if_pos hkeep]
          show anc :: walkWraps _ _ _ _ _ = _
          rw [ih, List.takeWhile_cons, hid, if_pos hkeep]
        · rw [if_neg hkeep, List.takeWhile_cons, hid, if_neg hkeep]

lemma getFile_latest {db : Database} {f : FileRow} {r : Id} (hf : db.findFile f.fileId = some f)
    (hcur : f.currentVersion ≠ 0) : PgStore.getFile db f.fileId .latest r =
      ((db.findVersion f.fileId f.currentVersion).filter VersionRow.finalized).bind fun ver =>
        let wraps := (db.wrapsOf f.fileId f.currentVersion).map WrapRow.toInput
        (wraps.find? fun w => w.recipientId = r).bind fun my =>
          ((db.rows fileGenesis).find? fun g => g.fileId = f.fileId).map fun genesis =>
            { version := f.currentVersion.toUInt64
              manifestBytes := ver.manifestBytes
              manifestSig := ver.manifestSig
              genesisBytes := genesis.genesisBytes
              genesisSig := genesis.genesisSig
              myWrap := ⟨my.wrappedDek, my.grantBytes, my.grantSig,
                ancestorChain wraps my f.ownerId⟩
              recoveryGrant := (wraps.find? fun w => w.recipientType = 2).map fun w =>
                (w.grantBytes, w.grantSig)
              streams := ((db.streamsOf f.fileId f.currentVersion).insertionSort
                  fun a b => a.streamType ≤ b.streamType).map fun s =>
                ⟨s.streamType, s.chunkCount.toUInt64, s.chunkSize.toUInt32, s.blobRef⟩ } := by
  unfold PgStore.getFile
  simp only [hf, Option.map_some, Option.bind_eq_bind, Option.bind_some, if_neg hcur]
  congr 1
  funext ver
  congr 1
  funext my
  cases (db.rows fileGenesis).find? fun g => g.fileId = f.fileId <;> rfl

/-- The users whose grants are served with a recipient's own. -/
def ancestorsOf (db : Database) (f : FileRow) (recipientId : Id) : List Id :=
  let wraps := (db.wrapsOf f.fileId f.currentVersion).map WrapRow.toInput
  match wraps.find? fun w => w.recipientId = recipientId with
  | none => []
  | some my => (walkWraps wraps f.ownerId MAX_ANCESTOR_CHAIN [] my.grantedBy).map
      WrapInput.recipientId

lemma map_takeWhile_eq_iff {α β : Type} {xs : List α} {p : α → Bool} {g : α → β} :
    (xs.takeWhile p).map g = xs.map g ↔ ∀ x ∈ xs, p x = true := by
  rw [← List.takeWhile_eq_self_iff]
  constructor
  · intro h
    have hlength := congrArg List.length h
    rw [List.length_map, List.length_map] at hlength
    exact (List.takeWhile_prefix p).eq_of_length hlength
  · intro h
    rw [h]

lemma getFile_filtered_iff {f : FileRow} {r : Id} (keep : Id → Bool)
    (hf : s.findFile f.fileId = some f) (hf' : after.findFile f.fileId = some f) (hcur : f.currentVersion ≠ 0)
    (hversion : after.findVersion f.fileId f.currentVersion =
      s.findVersion f.fileId f.currentVersion)
    (hgenesis : ((after.rows fileGenesis).find? fun g => g.fileId = f.fileId) =
      (s.rows fileGenesis).find? fun g => g.fileId = f.fileId)
    (hstreams : after.streamsOf f.fileId f.currentVersion =
      s.streamsOf f.fileId f.currentVersion)
    (hwraps : after.wrapsOf f.fileId f.currentVersion =
      (s.wrapsOf f.fileId f.currentVersion).filter fun w => keep w.recipientId)
    (hrecovery : ∀ w ∈ s.wrapsOf f.fileId f.currentVersion, w.recipientType = 2 →
      keep w.recipientId = true)
    (hsome : (PgStore.getFile s f.fileId .latest r).isSome) :
    PgStore.getFile after f.fileId .latest r = PgStore.getFile s f.fileId .latest r ↔
      ∀ id ∈ r :: ancestorsOf s f r, keep id = true := by
  have hmap : ((s.wrapsOf f.fileId f.currentVersion).filter fun w => keep w.recipientId).map
      WrapRow.toInput = ((s.wrapsOf f.fileId f.currentVersion).map WrapRow.toInput).filter
        fun w => keep w.recipientId := by
    rw [List.filter_map]
    rfl
  have hrecovery' : ∀ w ∈ (s.wrapsOf f.fileId f.currentVersion).map WrapRow.toInput,
      w.recipientType = 2 → keep w.recipientId = true := by
    intro w hw htype
    obtain ⟨row, hrow, rfl⟩ := List.mem_map.mp hw
    exact hrecovery row hrow htype
  rw [getFile_latest hf hcur] at hsome ⊢
  rw [getFile_latest hf' hcur, hversion, hgenesis, hstreams, hwraps, hmap]
  unfold ancestorsOf
  generalize (s.wrapsOf f.fileId f.currentVersion).map WrapRow.toInput = wraps at hsome hrecovery' ⊢
  dsimp only at hsome ⊢
  rw [find?_filter_keep]
  cases hver : (s.findVersion f.fileId f.currentVersion).filter VersionRow.finalized with
  | none =>
    rw [hver] at hsome
    simp at hsome
  | some ver =>
    cases hmy : wraps.find? fun w => w.recipientId = r with
    | none =>
      rw [hver, hmy] at hsome
      simp at hsome
    | some my =>
      cases hgen : (s.rows fileGenesis).find? fun g => g.fileId = f.fileId with
      | none =>
        rw [hver, hmy, hgen] at hsome
        simp at hsome
      | some genesis =>
        by_cases hkeep : keep r = true
        · have hrec : (wraps.filter fun w => keep w.recipientId).find?
              (fun w => w.recipientType = 2) = wraps.find? fun w => w.recipientType = 2 := by
            rw [List.find?_filter]
            refine List.find?_congr ?_
            intro w hw
            by_cases htype : w.recipientType = 2
            · simp [htype, hrecovery' w hw htype]
            · simp [htype]
          rw [if_pos hkeep, hrec, List.forall_mem_cons]
          simp only [Option.bind_some, Option.map_some, Option.some_inj, FileView.mk.injEq,
            WrapView.mk.injEq, true_and, and_true, hkeep, List.forall_mem_map]
          unfold ancestorChain
          rw [ancestorWalk_eq, ancestorWalk_eq, walkWraps_filter]
          exact map_takeWhile_eq_iff
        · simp [hkeep]

lemma accounts_of_run {path : List (Database × PgCall)} (hrun : PgRun s path t) :
    t.rows users = s.rows users := by
  have hstep : ∀ db (call : PgCall) after, db.rows users = s.rows users → call.Next db after →
      after.rows users = s.rows users := by
    intro db call after h hnext
    rw [hnext]
    obtain hsame | heffect := call.apply_cases db
    · rwa [hsame]
    · rw [heffect.accounts users (by simp), h]
  exact @LabelledRun.invariant _ _ _ _ _ _ (fun db => db.rows users = s.rows users) rfl hstep hrun

/-- A file that was finalized in the snapshot and is lost later comes back, and a recipient sees
what the snapshot showed them, exactly if the file has no tombstone and no revocation is on record
for them or for a user whose grant theirs descends from. -/
theorem getFile_afterLoss_iff {start : Database} {before later : List (Database × PgCall)}
    {f : FileRow} (hstart : start.FileFree) (hbefore : PgRun start before s)
    (hlater : PgRun s later t) (hf : f ∈ s.rows files) (hpos : 1 ≤ f.currentVersion) :
    ∃ preview after, runMerge (t.lose f.fileId) s 0 true = (.ok preview, after) ∧
      ∀ r, (PgStore.getFile s f.fileId .latest r).isSome →
        (PgStore.getFile after f.fileId .latest r = PgStore.getFile s f.fileId .latest r ↔
          ¬ t.tombstoned f.fileId ∧
          ∀ id ∈ r :: ancestorsOf s f r, t.revokes f.fileId f.currentVersion id = false) := by
  have hs := numbered_of_run hstart hbefore
  have hapart := hstart.recoveryApart.run hbefore
  have horphan : ¬ Orphaned (t.lose f.fileId) s := by
    rintro ⟨g, -, -, u, hu, hid, -, hfree⟩
    rw [← accounts_of_run hlater] at hu
    exact hfree u hu hid
  obtain ⟨m, hmerged, hrun⟩ := runMerge_of_not_orphaned horphan true
  refine ⟨m.preview, m.live, hrun, ?_⟩
  intro r hsome
  by_cases htomb : t.tombstoned f.fileId
  · have hnone : PgStore.getFile m.live f.fileId .latest r = none := by
      unfold PgStore.getFile
      rw [findFile_tombstoned hmerged rfl hf htomb]
      rfl
    rw [hnone]
    constructor
    · intro h
      rw [← h] at hsome
      exact absurd hsome (by simp)
    · intro h
      exact absurd htomb h.1
  · have hcur : f.currentVersion ≠ 0 := by
      intro hzero
      rw [hzero] at hpos
      exact absurd hpos (by decide)
    have hrecovery : ∀ w ∈ s.wrapsOf f.fileId f.currentVersion, w.recipientType = 2 →
        (! t.revokes f.fileId f.currentVersion w.recipientId) = true := by
      intro w hw htype
      rw [hapart.wraps w (List.mem_filter.mp hw).1 htype, Bool.not_eq_true', Database.revokes,
        List.any_eq_false]
      intro x hx hsame
      exact (hapart.run hlater).revocations x hx (of_decide_eq_true hsame).2.2
    rw [getFile_filtered_iff (fun id => ! t.revokes f.fileId f.currentVersion id)
      (Database.findFile_of_mem hf) (findFile_restored hmerged rfl hf htomb) hcur
      (findVersion_restored hmerged rfl hf htomb hs hpos)
      (findGenesis_restored hmerged rfl hf htomb) (streamsOf_restored hmerged rfl hf htomb hs hpos)
      (wrapsOf_restored (l := t.lose f.fileId) hmerged rfl hf htomb hs hpos) hrecovery hsome]
    simp only [Bool.not_eq_true', htomb, not_false_eq_true, true_and]

/-- So for a file of alice, lost right after the snapshot. -/
theorem getFile_afterLoss_aliceUpload : ∃ f ∈ (runCalls aliceDb aliceUpload).rows files,
    ∃ preview after, runMerge ((runCalls aliceDb aliceUpload).lose f.fileId)
        (runCalls aliceDb aliceUpload) 0 true = (.ok preview, after) ∧
      ∀ r, (PgStore.getFile (runCalls aliceDb aliceUpload) f.fileId .latest r).isSome →
        (PgStore.getFile after f.fileId .latest r =
            PgStore.getFile (runCalls aliceDb aliceUpload) f.fileId .latest r ↔
          ¬ (runCalls aliceDb aliceUpload).tombstoned f.fileId ∧
          ∀ id ∈ r :: ancestorsOf (runCalls aliceDb aliceUpload) f r,
            (runCalls aliceDb aliceUpload).revokes f.fileId f.currentVersion id = false) := by
  obtain ⟨before, hbefore⟩ := exists_pgRun aliceDb aliceUpload
  obtain ⟨f, hf, hpos⟩ : ∃ f ∈ (runCalls aliceDb aliceUpload).rows files,
      1 ≤ f.currentVersion := by
    decide +kernel
  exact ⟨f, hf, getFile_afterLoss_iff aliceDb_fileFree hbefore .start hf hpos⟩

/-- She shares the file, takes it back, and shares it again. -/
def aliceSharesAgain : List PgCall :=
  let share : PgCall := .addWrap ⟨.replicate 16 2⟩
    ⟨⟨.replicate 16 3⟩, 1, [], 1, ⟨.replicate 16 1⟩, [], .replicate 64 0⟩ ⟨.replicate 16 1⟩ 0 0
  [share, .deleteWrap ⟨.replicate 16 2⟩ ⟨.replicate 16 3⟩ ⟨.replicate 16 1⟩ 0, share]

/-- A recipient who was revoked and shared to again, all before the snapshot, gets nothing back. -/
theorem exists_run_recipient_not_restored : ∃ (start s : Database) (before : _) (f : FileRow)
    (r : Id), start.FileFree ∧ PgRun start before s ∧ f ∈ s.rows files ∧ 1 ≤ f.currentVersion ∧
      (∃ w ∈ s.wrapsOf f.fileId f.currentVersion, w.recipientId = r) ∧
      PgStore.getFile (runMerge (s.lose f.fileId) s 0 true).2 f.fileId .latest r ≠
        PgStore.getFile s f.fileId .latest r := by
  obtain ⟨before, hbefore⟩ := exists_pgRun aliceDb (aliceUpload ++ aliceSharesAgain)
  obtain ⟨f, hf, hpos, hwrap, hlost⟩ :
      ∃ f ∈ (runCalls aliceDb (aliceUpload ++ aliceSharesAgain)).rows files,
        1 ≤ f.currentVersion ∧
        (∃ w ∈ (runCalls aliceDb (aliceUpload ++ aliceSharesAgain)).wrapsOf f.fileId
          f.currentVersion, w.recipientId = ⟨.replicate 16 3⟩) ∧
        PgStore.getFile (runMerge
            ((runCalls aliceDb (aliceUpload ++ aliceSharesAgain)).lose f.fileId)
            (runCalls aliceDb (aliceUpload ++ aliceSharesAgain)) 0 true).2 f.fileId .latest
            ⟨.replicate 16 3⟩ ≠
          PgStore.getFile (runCalls aliceDb (aliceUpload ++ aliceSharesAgain)) f.fileId .latest
            ⟨.replicate 16 3⟩ := by
    decide +kernel
  exact ⟨_, _, before, f, _, aliceDb_fileFree, hbefore, hf, hpos, hwrap, hlost⟩

end MaxSecu.Backup
