import MaxSecu.Server.Completeness
import MaxSecu.Server.FileLifecycle

/-!
# What a deletion leaves behind

A deletion removes the chunks of the streams that the rows of its files name.  So it removes all
chunks of these files exactly if each of them is still named by a row (`delete_purges_iff`).  A
chunk loses its name when a version is staged again without its stream: the rows are replaced, and
the chunk stays.
-/

namespace MaxSecu

open AssociationList

namespace ServerState

/-- Every chunk of the file is in a stream that a row of the file names. -/
def Named (s : ServerState) (fileId : Id) : Prop :=
  ∀ (v : UInt64) (st : StreamType) (index : UInt64),
    ⟨Files.blobRef fileId v st.codepoint, index⟩ ∈ s.blobs →
      ∃ v' row, s.files.HasRow fileId v' row ∧ row.blobRef = Files.blobRef fileId v st.codepoint

/-- The owner's deletion of a file deletes this one: the file itself or, once it is finalized, a
member of it that has the same owner. -/
def DeletesWith (s : ServerState) (fileId : Id) (entry : FileEntry) (g : Id) : Prop :=
  g = fileId ∨ (entry.currentVersion ≠ 0 ∧ entry.fileType = BUNDLE_FILE_TYPE ∧
    ∃ member, s.files.lookup g = some member ∧ member.bundleId = some fileId ∧
      member.ownerId = entry.ownerId)

/-- A deletion leaves no chunk of what it deletes, and changes nothing of other owners. -/
structure Purges (s : ServerState) (fileId : Id) (entry : FileEntry) (t : ServerState) : Prop where
  gone : ∀ g, s.DeletesWith fileId entry g → ∀ (v : UInt64) (st : StreamType) (index : UInt64),
    ⟨Files.blobRef g v st.codepoint, index⟩ ∉ t.blobs
  rows : ∀ g other, s.files.lookup g = some other → other.ownerId ≠ entry.ownerId →
    t.files.lookup g = some other
  chunks : ∀ g other, s.files.lookup g = some other → other.ownerId ≠ entry.ownerId →
    ∀ (v : UInt64) (st : StreamType) (index : UInt64),
      t.blobs.lookup ⟨Files.blobRef g v st.codepoint, index⟩ =
        s.blobs.lookup ⟨Files.blobRef g v st.codepoint, index⟩

end ServerState

/-- The request stages a version again without a stream that has chunks. -/
def FileRequest.Drops (maxFileBytes : Option UInt64) (s : ServerState) : FileRequest → Prop
  | stage input nowMs =>
    ∃ p entry, Files.parseStage input = .ok p ∧ Requests.overQuota maxFileBytes p = false ∧
      FileStore.StageRow s.files p nowMs entry ∧ entry.isFinalized p.version = false ∧
      ∃ row, s.files.HasRow p.fileId p.version row ∧ (∃ key ∈ s.blobs, key.blobRef = row.blobRef) ∧
        ∀ row' ∈ p.streams, row'.blobRef ≠ row.blobRef
  | _ => False

/-! ## The streams that are deleted -/

section Refs

variable {files : FileStore} {entry : FileEntry} {fileId : Id} {ref : String}

lemma FileEntry.mem_stagedBlobRefs : ref ∈ entry.stagedBlobRefs ↔
    ∃ v ver, entry.versions.lookup v = some ver ∧ ver.finalized = false ∧
      ∃ row ∈ ver.streams, row.blobRef = ref := by
  unfold stagedBlobRefs VersionEntry.blobRefs
  simp only [List.mem_flatMap, List.mem_filter, Bool.not_eq_true, decide_eq_true_eq, List.mem_map]
  constructor
  · intro hfound
    obtain ⟨x, ⟨hx, hopen⟩, hrow⟩ := hfound
    exact ⟨x.1, x.2, AList.mem_lookup_iff.mpr hx, hopen, hrow⟩
  · intro hfound
    obtain ⟨v, ver, hver, hopen, hrow⟩ := hfound
    exact ⟨⟨v, ver⟩, ⟨AList.mem_lookup_iff.mp hver, hopen⟩, hrow⟩

lemma FileEntry.mem_blobRefs : ref ∈ entry.blobRefs ↔
    ∃ v ver, entry.versions.lookup v = some ver ∧ ∃ row ∈ ver.streams, row.blobRef = ref := by
  unfold blobRefs VersionEntry.blobRefs
  simp only [List.mem_flatMap, List.mem_map]
  constructor
  · intro hfound
    obtain ⟨x, hx, hrow⟩ := hfound
    exact ⟨x.1, x.2, AList.mem_lookup_iff.mpr hx, hrow⟩
  · intro hfound
    obtain ⟨v, ver, hver, hrow⟩ := hfound
    exact ⟨⟨v, ver⟩, AList.mem_lookup_iff.mp hver, hrow⟩

lemma FileStore.mem_removeAll {ids : List Id} : ref ∈ (removeAll ids files).1 ↔
    ∃ f ∈ ids, ∃ v row, files.HasRow f v row ∧ row.blobRef = ref := by
  induction ids generalizing files with
  | nil => simp [removeAll]
  | cons id ids ih =>
    have herase : ∀ f v row, HasRow (files.erase id) f v row ↔ f ≠ id ∧ files.HasRow f v row := by
      intro f v row
      have hone := @hasRow_eraseAll files f v row [id]
      rw [eraseAll_cons, eraseAll_nil, List.mem_singleton] at hone
      exact hone
    have hhead : ref ∈ ((files.lookup id).map FileEntry.blobRefs).getD [] ↔
        ∃ v row, files.HasRow id v row ∧ row.blobRef = ref := by
      cases hentry : files.lookup id with
      | none => simp [HasRow, hentry]
      | some entry =>
        rw [Option.map_some, Option.getD_some, FileEntry.mem_blobRefs]
        constructor
        · intro hfound
          obtain ⟨v, ver, hver, row, hrow, href⟩ := hfound
          exact ⟨v, row, ⟨entry, ver, hentry, hver, hrow⟩, href⟩
        · intro hfound
          obtain ⟨v, row, hrow, href⟩ := hfound
          obtain ⟨ver, hver, hrow⟩ := hrow.streams hentry
          exact ⟨v, ver, hver, row, hrow, href⟩
    show ref ∈ _ ++ (removeAll ids (files.erase id)).1 ↔ _
    rw [List.mem_append, hhead, ih]
    constructor
    · intro h
      obtain ⟨v, row, hrow, href⟩ | ⟨f, hf, v, row, hrow, href⟩ := h
      · exact ⟨id, List.mem_cons_self, v, row, hrow, href⟩
      · exact ⟨f, List.mem_cons_of_mem id hf, v, row, ((herase f v row).mp hrow).2, href⟩
    · intro hfound
      obtain ⟨f, hf, v, row, hrow, href⟩ := hfound
      by_cases hid : f = id
      · subst hid
        exact .inl ⟨v, row, hrow, href⟩
      · exact .inr ⟨f, (List.mem_cons.mp hf).resolve_left hid, v, row,
          (herase f v row).mpr ⟨hid, hrow⟩, href⟩

lemma FileEntry.mem_priorRefs {version : UInt64}
    (hnext : version.toNat = entry.currentVersion.toNat + 1) :
    ref ∈ entry.priorRefs version ↔ 1 ≤ entry.currentVersion.toNat ∧
      ∃ ver, entry.versions.lookup entry.currentVersion = some ver ∧
        ∃ row ∈ ver.streams, row.blobRef = ref := by
  have htwo : 2 ≤ version ↔ 1 ≤ entry.currentVersion.toNat := by
    rw [UInt64.le_iff_toNat_le, hnext]
    show 2 ≤ _ ↔ _
    omega
  unfold priorRefs
  by_cases hversion : 2 ≤ version
  · have hpos := htwo.mp hversion
    have hprior : version - 1 = entry.currentVersion := by
      rw [← UInt64.toNat_inj, UInt64.toNat_sub_of_le _ _
        (UInt64.le_iff_toNat_le.mpr (by rw [hnext, UInt64.toNat_one]; omega)), hnext,
        UInt64.toNat_one]
      omega
    rw [if_pos hversion, hprior]
    cases hver : entry.versions.lookup entry.currentVersion with
    | none => simp
    | some ver => simp [VersionEntry.blobRefs, hpos]
  · rw [if_neg hversion]
    simp [htwo.not.mp hversion]

end Refs

namespace Deletion

variable {maxFileBytes : Option UInt64} {s t : ServerState} {request : FileRequest × Status}
  {fileId g : Id} {entry : FileEntry} {store store' : ChunkStore} {refs : List String}
  {key : ChunkKey}

lemma lookup_purged (h : store.Purged false refs store') :
    store'.lookup key = if key.blobRef ∈ refs then none else store.lookup key := by
  obtain ⟨hsame, hfaults⟩ | ⟨hmem, hnone⟩ := h key
  · rw [if_neg fun hmem => absurd (hfaults hmem) (by simp)]
    exact hsame
  · rw [if_pos hmem]
    exact hnone

lemma mem_purged (h : store.Purged false refs store') :
    key ∈ store' ↔ key.blobRef ∉ refs ∧ key ∈ store := by
  rw [← AList.lookup_isSome, ← AList.lookup_isSome, lookup_purged h]
  by_cases hmem : key.blobRef ∈ refs
  · simp [hmem]
  · simp [hmem]

lemma file_of_hasRow (h : s.Reached) {f : Id} {v w : UInt64} {row : StreamRow} {code : UInt8}
    (hrow : s.files.HasRow f v row) (href : row.blobRef = Files.blobRef g w code) : f = g := by
  obtain ⟨entry, ver, hentry, hver, hrow⟩ := hrow
  obtain ⟨st, _, hslot⟩ := (h.slotted hentry hver).slot row hrow
  rw [hslot] at href
  exact (Files.blobRef_inj.mp href).1

/-! ## One deletion -/

/-- The chunks that a deletion removes are those of the streams that rows of its files name. -/
lemma lookup_deleted (h : s.Reached) (hentry : s.files.lookup fileId = some entry)
    (houtcome : FileRequest.Outcome false maxFileBytes s
      (.discard fileId entry.ownerId, .noContent) t) (key : ChunkKey) :
    ∃ deleted : Prop, (deleted ↔ ∃ g v row, s.DeletesWith fileId entry g ∧
        s.files.HasRow g v row ∧ row.blobRef = key.blobRef) ∧
      (deleted → t.blobs.lookup key = none) ∧
      (¬ deleted → t.blobs.lookup key = s.blobs.lookup key) := by
  cases houtcome with
  | refused hstatus => exact absurd hstatus (by simp [Status.isSuccess])
  | absent habsent =>
    rw [habsent] at hentry
    exact absurd hentry (by simp)
  | @discarded _ _ entry' blobs hentry' _ hcurrent hpurged =>
    obtain rfl : entry = entry' := Option.some.inj (hentry.symm.trans hentry')
    refine ⟨key.blobRef ∈ entry.stagedBlobRefs, ?_, ?_, ?_⟩
    · rw [FileEntry.mem_stagedBlobRefs]
      constructor
      · intro hfound
        obtain ⟨v, ver, hver, _, row, hrow, href⟩ := hfound
        exact ⟨fileId, v, row, .inl rfl, ⟨entry, ver, hentry, hver, hrow⟩, href⟩
      · intro hfound
        obtain ⟨g, v, row, hdeletes, hrow, href⟩ := hfound
        obtain rfl | ⟨hfinal, _⟩ := hdeletes
        · obtain ⟨ver, hver, hrow⟩ := hrow.streams hentry
          refine ⟨v, ver, hver, ?_, row, hrow, href⟩
          obtain ⟨ops, hops⟩ := h
          rw [← hops] at hentry
          have hopen := ((recorded_run ops g entry hentry).isFinalized_iff v).not.mpr (by
            rw [hcurrent, UInt64.toNat_zero]
            omega)
          rw [FileEntry.isFinalized, hver, Option.any_some] at hopen
          simpa using hopen
        · exact absurd hcurrent hfinal
    · intro hmem
      rw [lookup_purged hpurged, if_pos hmem]
    · intro hmem
      rw [lookup_purged hpurged, if_neg hmem]
  | @deleted _ _ target blobs htarget _ hcurrent hpurged =>
    obtain rfl : entry = target := Option.some.inj (hentry.symm.trans htarget)
    refine ⟨key.blobRef ∈ (FileStore.removeAll
      (s.files.deleteTargets fileId entry.ownerId entry) s.files).1, ?_, ?_, ?_⟩
    · rw [FileStore.mem_removeAll]
      constructor
      · intro hfound
        obtain ⟨g, hg, v, row, hrow, href⟩ := hfound
        have hrow' := hrow
        obtain ⟨member, _, hmember, _, _⟩ := hrow'
        refine ⟨g, v, row, ?_, hrow, href⟩
        obtain hself | ⟨htype, hbundle, howner⟩ :=
          (FileLifecycle.mem_deleteTargets hmember).mp hg
        · exact .inl hself
        · exact .inr ⟨hcurrent, htype, member, hmember, hbundle, howner⟩
      · intro hfound
        obtain ⟨g, v, row, hdeletes, hrow, href⟩ := hfound
        refine ⟨g, ?_, v, row, hrow, href⟩
        obtain rfl | ⟨_, htype, member, hmember, hbundle, howner⟩ := hdeletes
        · exact (FileLifecycle.mem_deleteTargets hentry).mpr (.inl rfl)
        · exact (FileLifecycle.mem_deleteTargets hmember).mpr (.inr ⟨htype, hbundle, howner⟩)
    · intro hmem
      rw [lookup_purged hpurged, if_pos hmem]
    · intro hmem
      rw [lookup_purged hpurged, if_neg hmem]

lemma rows_deleted {other : FileEntry} (hentry : s.files.lookup fileId = some entry)
    (houtcome : FileRequest.Outcome false maxFileBytes s
      (.discard fileId entry.ownerId, .noContent) t)
    (hother : s.files.lookup g = some other) (howner : other.ownerId ≠ entry.ownerId) :
    t.files.lookup g = some other := by
  have hne : g ≠ fileId := by
    rintro rfl
    obtain rfl : entry = other := Option.some.inj (hentry.symm.trans hother)
    exact howner rfl
  cases houtcome with
  | refused hstatus => exact absurd hstatus (by simp [Status.isSuccess])
  | absent _ => exact hother
  | discarded _ _ _ _ =>
    rw [lookup_insert_eq, if_neg hne]
    exact hother
  | @deleted _ _ target _ _ _ _ _ =>
    rw [lookup_eraseAll, if_neg]
    · exact hother
    · intro hmem
      obtain rfl | ⟨_, _, hsame⟩ := (FileLifecycle.mem_deleteTargets hother).mp hmem
      · exact hne rfl
      · exact howner hsame

lemma purges_iff (h : s.Reached) (hentry : s.files.lookup fileId = some entry)
    (houtcome : FileRequest.Outcome false maxFileBytes s
      (.discard fileId entry.ownerId, .noContent) t) :
    s.Purges fileId entry t ↔ ∀ g, s.DeletesWith fileId entry g → s.Named g := by
  constructor
  · intro hpurges g hg v st index hkey
    by_contra hnone
    obtain ⟨deleted, hiff, _, hkept⟩ := lookup_deleted h hentry houtcome
      ⟨Files.blobRef g v st.codepoint, index⟩
    have hlookup := hkept (by
      rw [hiff]
      intro hfound
      obtain ⟨f, w, row, _, hrow, href⟩ := hfound
      obtain rfl := file_of_hasRow h hrow href
      exact hnone ⟨w, row, hrow, href⟩)
    refine hpurges.gone g hg v st index ?_
    rw [← AList.lookup_isSome, hlookup, AList.lookup_isSome]
    exact hkey
  · intro hnamed
    refine ⟨?_, fun g other => rows_deleted hentry houtcome, ?_⟩
    · intro g hg v st index hkey
      obtain ⟨deleted, hiff, hgone, hkept⟩ := lookup_deleted h hentry houtcome
        ⟨Files.blobRef g v st.codepoint, index⟩
      by_cases hdeleted : deleted
      · exact AList.lookup_eq_none.mp (hgone hdeleted) hkey
      · rw [← AList.lookup_isSome, hkept hdeleted, AList.lookup_isSome] at hkey
        obtain ⟨w, row, hrow, href⟩ := hnamed g hg v st index hkey
        exact hdeleted (hiff.mpr ⟨g, w, row, hg, hrow, href⟩)
    · intro g other hother howner v st index
      obtain ⟨deleted, hiff, _, hkept⟩ := lookup_deleted h hentry houtcome
        ⟨Files.blobRef g v st.codepoint, index⟩
      refine hkept ?_
      rw [hiff]
      intro hfound
      obtain ⟨f, w, row, hdeletes, hrow, href⟩ := hfound
      obtain rfl := file_of_hasRow h hrow href
      obtain rfl | ⟨_, _, member, hmember, _, hsame⟩ := hdeletes
      · obtain rfl : entry = other := Option.some.inj (hentry.symm.trans hother)
        exact howner rfl
      · obtain rfl : member = other := Option.some.inj (hmember.symm.trans hother)
        exact howner hsame

/-! ## Runs -/

lemma named_step (h : s.Reached) (hnamed : ∀ g, s.Named g)
    (hdrops : ¬ request.1.Drops maxFileBytes s)
    (houtcome : FileRequest.Outcome false maxFileBytes s request t) (g : Id) : t.Named g := by
  intro v st index hkey
  cases houtcome with
  | refused _ => exact hnamed g v st index hkey
  | absent _ => exact hnamed g v st index hkey
  | @staged input p entry nowMs hparse hquota hstage hopen =>
    obtain ⟨w, row, hrow, href⟩ := hnamed g v st index hkey
    by_cases hreplaced : g = p.fileId ∧ w = p.version
    · obtain ⟨rfl, rfl⟩ := hreplaced
      have hkept : ∃ row' ∈ p.streams, row'.blobRef = row.blobRef := by
        by_contra hnone
        refine hdrops ⟨p, entry, hparse, hquota, hstage, hopen, row, hrow,
          ⟨_, hkey, href.symm⟩, ?_⟩
        intro row' hrow' heq
        exact hnone ⟨row', hrow', heq⟩
      obtain ⟨row', hrow', heq⟩ := hkept
      refine ⟨p.version, row', ?_, heq.trans href⟩
      rw [FileStore.hasRow_stage hstage, if_pos ⟨rfl, rfl⟩]
      exact hrow'
    · refine ⟨w, row, ?_, href⟩
      rw [FileStore.hasRow_stage hstage, if_neg hreplaced]
      exact hrow
  | @put fileId _ version index' _ body entry ver row hentry hver _ _ hrow _ _ _ =>
    obtain hnew | hold := (AList.mem_insert _).mp hkey
    · have href : row.blobRef = Files.blobRef g v st.codepoint :=
        (congrArg ChunkKey.blobRef hnew).symm
      have hhas : s.files.HasRow fileId version row := ⟨entry, ver, hentry, hver, hrow⟩
      obtain rfl := file_of_hasRow h hhas href
      exact ⟨version, row, hhas, href⟩
    · exact hnamed g v st index hold
  | @committed fileId _ version nowMs entry ver blobs hentry _ _ _ hnext _ hpurged =>
    obtain ⟨hkept, hold⟩ := (mem_purged hpurged).mp hkey
    obtain ⟨w, row, hrow, href⟩ := hnamed g v st index hold
    refine ⟨w, row, ?_, href⟩
    rw [FileStore.hasRow_finalize hentry hnext]
    refine ⟨hrow, ?_⟩
    intro hprior
    obtain ⟨hfile, hpos, hcurrent⟩ := hprior
    subst hfile hcurrent
    obtain ⟨prior, hprior, hrow⟩ := hrow.streams hentry
    exact hkept ((FileEntry.mem_priorRefs hnext).mpr ⟨hpos, prior, hprior, row, hrow, href⟩)
  | @discarded fileId _ entry blobs hentry _ _ hpurged =>
    obtain ⟨hkept, hold⟩ := (mem_purged hpurged).mp hkey
    obtain ⟨w, row, hrow, href⟩ := hnamed g v st index hold
    refine ⟨w, row, ?_, href⟩
    rw [FileStore.hasRow_discardStaged hentry]
    refine ⟨hrow, ?_⟩
    intro hfile
    subst hfile
    obtain ⟨ver, hver, hrow⟩ := hrow.streams hentry
    by_contra hopen
    rw [FileEntry.isFinalized, hver, Option.any_some, Bool.not_eq_true] at hopen
    exact hkept (FileEntry.mem_stagedBlobRefs.mpr ⟨w, ver, hver, hopen, row, hrow, href⟩)
  | deleted _ _ _ hpurged =>
    obtain ⟨hkept, hold⟩ := (mem_purged hpurged).mp hkey
    obtain ⟨w, row, hrow, href⟩ := hnamed g v st index hold
    refine ⟨w, row, ?_, href⟩
    rw [FileStore.hasRow_eraseAll]
    refine ⟨fun hmem => hkept ?_, hrow⟩
    exact FileStore.mem_removeAll.mpr ⟨g, hmem, w, row, hrow, href⟩

end Deletion

/-- In every run of requests, one at a time and without faults, a deletion by the owner that
succeeds leaves no chunk of what it deletes and changes nothing of other owners if and only if rows
name every chunk of what it deletes.  They do in a run in which no version is staged again without a
stream that has chunks. -/
theorem delete_purges_iff {maxFileBytes : Option UInt64}
    {path : List (ServerState × FileRequest × Status)} {s t : ServerState} {fileId : Id}
    {entry : FileEntry}
    (hrun : LabelledRun (FileRequest.Runs false maxFileBytes) ⟨∅, ∅⟩ path s)
    (hentry : s.files.lookup fileId = some entry)
    (hdelete : FileRequest.Runs false maxFileBytes s (.discard fileId entry.ownerId, .noContent)
      t) :
    (s.Purges fileId entry t ↔ ∀ g, s.DeletesWith fileId entry g → s.Named g) ∧
      ((∀ x ∈ path, ¬ x.2.1.Drops maxFileBytes x.1) → ∀ g, s.Named g) := by
  have hreached : s.Reached := ServerState.reached_empty.run hrun
  refine ⟨Deletion.purges_iff hreached hentry (FileRequest.outcome hdelete), fun hdrops => ?_⟩
  have hinv : s.Reached ∧ ∀ g, s.Named g := by
    refine @LabelledRun.invariant_of_steps _ _ _ _ _ _
      (fun s => s.Reached ∧ ∀ g, s.Named g) (fun s request => ¬ request.1.Drops maxFileBytes s)
      ⟨ServerState.reached_empty, ?_⟩ ?_ hrun hdrops
    · intro g v st index hkey
      exact absurd hkey (by simp)
    · intro s request t hinv hok hnext
      have houtcome := FileRequest.outcome hnext
      exact ⟨hinv.1.outcome houtcome, Deletion.named_step hinv.1 hinv.2 hok houtcome⟩
  exact hinv.2

/-- A file of one chunk is discarded. -/
theorem delete_purges_uploadsAll : ∃ entry,
    (ServerState.serveAll none ⟨∅, ∅⟩ uploadsAll).files.lookup ⟨.replicate 16 2⟩ = some entry ∧
      (ServerState.serveAll none ⟨∅, ∅⟩ uploadsAll).Purges ⟨.replicate 16 2⟩ entry
        ((FileRequest.discard ⟨.replicate 16 2⟩ entry.ownerId).serve none
          (ServerState.serveAll none ⟨∅, ∅⟩ uploadsAll)).2 := by
  have howned : ((ServerState.serveAll none ⟨∅, ∅⟩ uploadsAll).files.lookup
      ⟨.replicate 16 2⟩).map FileEntry.ownerId = some ⟨.replicate 16 1⟩ := by
    decide +kernel
  obtain ⟨entry, hentry, howner⟩ := Option.map_eq_some_iff.mp howned
  refine ⟨entry, hentry, ?_⟩
  have hdelete := @FileRequest.runs_serve false none
    (ServerState.serveAll none ⟨∅, ∅⟩ uploadsAll) (.discard ⟨.replicate 16 2⟩ entry.ownerId)
  have hstatus : ((FileRequest.discard ⟨.replicate 16 2⟩ entry.ownerId).serve none
      (ServerState.serveAll none ⟨∅, ∅⟩ uploadsAll)).1 = .noContent := by
    rw [howner]
    decide +kernel
  rw [hstatus] at hdelete
  have hpurges := delete_purges_iff (ServerState.run_serveAll uploadsAll) hentry hdelete
  refine hpurges.1.mpr fun g _ => hpurges.2 ?_ g
  intro x hx
  obtain rfl | hx := List.mem_cons.mp hx
  · intro hstays
    obtain ⟨_, _, _, _, _, _, _, _, ⟨key, hkey, _⟩, _⟩ := hstays
    exact absurd hkey (by simp)
  · obtain rfl := List.mem_singleton.mp hx
    exact fun hdrops => hdrops

/-- A file is staged with a thumbnail, of which a chunk is uploaded, and then without it. -/
def dropsThumbnail : List FileRequest :=
  [.stage (CheckedStage.authoredInput
      { CheckedStage.plainManifest ⟨.replicate 16 2⟩ ⟨.replicate 16 1⟩ 1 with
        streams := [⟨.thumbnail, .none, 1, ⟨.replicate 32 0⟩⟩] }
      [⟨RECOVERY_ID, 2, [], 1, ⟨.replicate 16 1⟩, [], .replicate 64 0⟩] true none) 0,
    .putChunk ⟨.replicate 16 2⟩ 1 .thumbnail 0 [] ⟨.replicate 16 1⟩,
    .stageChunks ⟨.replicate 16 2⟩ ⟨.replicate 16 1⟩ 1]

/-- The owner's deletion succeeds, and the chunk of the thumbnail is still there. -/
theorem delete_purges_dropsThumbnail :
    ¬ ∀ path s t entry, LabelledRun (FileRequest.Runs false none) ⟨∅, ∅⟩ path s →
      s.files.lookup ⟨.replicate 16 2⟩ = some entry →
      FileRequest.Runs false none s (.discard ⟨.replicate 16 2⟩ entry.ownerId, .noContent) t →
      s.Purges ⟨.replicate 16 2⟩ entry t := by
  intro h
  have howned : ((ServerState.serveAll none ⟨∅, ∅⟩ dropsThumbnail).files.lookup
      ⟨.replicate 16 2⟩).map FileEntry.ownerId = some ⟨.replicate 16 1⟩ := by
    decide +kernel
  obtain ⟨entry, hentry, howner⟩ := Option.map_eq_some_iff.mp howned
  have hdelete := @FileRequest.runs_serve false none
    (ServerState.serveAll none ⟨∅, ∅⟩ dropsThumbnail) (.discard ⟨.replicate 16 2⟩ entry.ownerId)
  have hstatus : ((FileRequest.discard ⟨.replicate 16 2⟩ entry.ownerId).serve none
      (ServerState.serveAll none ⟨∅, ∅⟩ dropsThumbnail)).1 = .noContent := by
    rw [howner]
    decide +kernel
  rw [hstatus] at hdelete
  have hpurges := h _ _ _ entry (ServerState.run_serveAll dropsThumbnail) hentry hdelete
  refine hpurges.gone ⟨.replicate 16 2⟩ (.inl rfl) 1 .thumbnail 0 ?_
  rw [howner, ← AList.lookup_isSome]
  decide +kernel

end MaxSecu
