import MaxSecu.Server.VersionPhases

/-!
# Streams and their slots

Each stream of a staged version has its own slot in the blob tier: the reference tells the file, the
version and the stream type (`blobRef_inj`).  After every run the stream rows of a version are those
of a manifest, with the slots that belong to the version (`slotted_run`).
-/

namespace MaxSecu

open ExceptRules AssociationList

namespace Files

/-! ## References -/

lemma hexByte_inj {a b : UInt8} (h : hexByte a = hexByte b) : a = b := by
  have hdigit : ∀ m < 16, ∀ n < 16, hexDigit m = hexDigit n → m = n := by decide
  obtain ⟨hhigh, hlow⟩ := List.cons.inj h
  have hlt := a.toNat_lt
  have hlt' := b.toNat_lt
  have hhigh' := hdigit _ (by omega) _ (by omega) hhigh
  have hlow' := hdigit _ (by omega) _ (by omega) (List.cons.inj hlow).1
  exact UInt8.toNat_inj.mp (by omega)

lemma length_flatMap_hexByte (bs : List UInt8) : (bs.flatMap hexByte).length = 2 * bs.length := by
  induction bs with
  | nil => rfl
  | cons b bs ih =>
    rw [List.flatMap_cons, List.length_append, ih, List.length_cons]
    show 2 + 2 * bs.length = 2 * (bs.length + 1)
    omega

lemma flatMap_hexByte_inj {as bs : List UInt8} (h : as.flatMap hexByte = bs.flatMap hexByte) :
    as = bs := by
  induction as generalizing bs with
  | nil =>
    have hlength := congrArg List.length h
    rw [length_flatMap_hexByte, length_flatMap_hexByte, List.length_nil] at hlength
    exact (List.length_eq_zero_iff.mp (by omega)).symm
  | cons a as ih =>
    cases bs with
    | nil =>
      have hlength := congrArg List.length h
      rw [length_flatMap_hexByte, length_flatMap_hexByte, List.length_nil, List.length_cons]
        at hlength
      omega
    | cons b bs =>
      rw [List.flatMap_cons, List.flatMap_cons] at h
      obtain ⟨hhead, htail⟩ := List.append_inj h rfl
      rw [hexByte_inj hhead, ih htail]

lemma slash_not_mem_toDigits (n : ℕ) : '/' ∉ Nat.toDigits 10 n := by
  intro hmem
  have hdigit := Nat.isDigit_of_mem_toDigits (by decide) (by decide) hmem
  exact absurd hdigit (by decide)

lemma toDigits_inj {m n : ℕ} (h : Nat.toDigits 10 m = Nat.toDigits 10 n) : m = n := by
  rw [← @Nat.ofDigitChars_ten_toDigits m, h, Nat.ofDigitChars_ten_toDigits]

lemma toList_blobRef (fileId : Id) (version : UInt64) (streamType : UInt8) :
    (blobRef fileId version streamType).toList =
      fileId.bytes.toList.flatMap hexByte ++ '/' :: (Nat.toDigits 10 version.toNat ++
        '/' :: Nat.toDigits 10 streamType.toNat) := by
  have hversion : (toString version).toList = Nat.toDigits 10 version.toNat := by
    show (toString version.toNat).toList = _
    simp
  have htype : (toString streamType).toList = Nat.toDigits 10 streamType.toNat := by
    show (toString streamType.toNat).toList = _
    simp
  unfold blobRef
  simp only [String.toList_append, String.toList_ofList, hversion, htype]
  simp

lemma blobRef_inj {f f' : Id} {v v' : UInt64} {s s' : UInt8} :
    blobRef f v s = blobRef f' v' s' ↔ f = f' ∧ v = v' ∧ s = s' := by
  constructor
  · intro h
    have hchars := congrArg String.toList h
    rw [toList_blobRef, toList_blobRef] at hchars
    have hlength : (f.bytes.toList.flatMap hexByte).length =
        (f'.bytes.toList.flatMap hexByte).length := by
      rw [length_flatMap_hexByte, length_flatMap_hexByte, List.Vector.toList_length,
        List.Vector.toList_length]
    obtain ⟨hid, hrest⟩ := List.append_inj hchars hlength
    obtain ⟨hversion, _, htype⟩ := (List.append_cons_inj_of_notMem (slash_not_mem_toDigits _)
      (slash_not_mem_toDigits _)).mp (List.cons.inj hrest).2
    have hbytes : f.bytes = f'.bytes := List.Vector.toList_injective (flatMap_hexByte_inj hid)
    refine ⟨?_, UInt64.toNat_inj.mp (toDigits_inj hversion),
      UInt8.toNat_inj.mp (toDigits_inj htype)⟩
    cases f
    cases f'
    exact congrArg Id.mk hbytes
  · intro hsame
    obtain ⟨hfile, hversion, htype⟩ := hsame
    rw [hfile, hversion, htype]

end Files

/-! ## Slots -/

def StreamRow.InSlot (row : StreamRow) (fileId : Id) (v : UInt64) (st : StreamType) : Prop :=
  row.streamType = Files.column st.codepoint ∧ row.blobRef = Files.blobRef fileId v st.codepoint

/-- Stream rows as a manifest of the version has them. -/
structure Slotted (fileId : Id) (v : UInt64) (rows : List StreamRow) : Prop where
  slot : ∀ row ∈ rows, ∃ st, row.InSlot fileId v st
  distinct : (rows.map StreamRow.blobRef).Nodup

namespace Slotted

variable {fileId fileId' : Id} {v v' : UInt64} {rows rows' : List StreamRow} {row row' : StreamRow}

lemma nil : Slotted fileId v [] where
  slot := fun row hrow => absurd hrow (by simp)
  distinct := List.nodup_nil

lemma eq_of_blobRef (h : Slotted fileId v rows) (hrow : row ∈ rows) (hrow' : row' ∈ rows)
    (href : row.blobRef = row'.blobRef) : row = row' :=
  List.inj_on_of_nodup_map h.distinct hrow hrow' href

lemma version_of_blobRef (h : Slotted fileId v rows) (h' : Slotted fileId' v' rows')
    (hrow : row ∈ rows) (hrow' : row' ∈ rows') (href : row.blobRef = row'.blobRef) :
    fileId = fileId' ∧ v = v' := by
  obtain ⟨st, _, hslot⟩ := h.slot row hrow
  obtain ⟨st', _, hslot'⟩ := h'.slot row' hrow'
  rw [hslot, hslot', Files.blobRef_inj] at href
  exact ⟨href.1, href.2.1⟩

end Slotted

lemma Files.slotted_of_parseStage {input : StageInput} {p : ParsedStage}
    (h : parseStage input = .ok p) : Slotted p.fileId p.version p.streams := by
  unfold parseStage at h
  simp only [bind_eq_ok, guard_eq_ok, pure_eq_ok, mapError_eq_ok, not_not] at h
  obtain ⟨manifest, hmanifest, -, -, -, -, -, -, -, genesis, -, rfl⟩ := h
  have hascending : manifest.WellFormed := (decode_eq_ok_iff.mp hmanifest).1
  constructor
  · intro row hrow
    obtain ⟨s, _, rfl⟩ := List.mem_map.mp hrow
    exact ⟨s.streamType, rfl, rfl⟩
  · show ((manifest.streams.map (streamRow input manifest)).map StreamRow.blobRef).Nodup
    rw [List.map_map, List.Nodup, List.pairwise_map]
    refine hascending.imp ?_
    intro s s' hlt heq
    have hcode : s.streamType.codepoint = s'.streamType.codepoint := (blobRef_inj.mp heq).2.2
    exact absurd (congrArg UInt8.toNat hcode) hlt.ne

/-- The stream rows are in the slots of the streams that the manifest declares. -/
def VersionEntry.Declares (fileId : Id) (v : UInt64) (ver : VersionEntry) (m : Manifest) : Prop :=
  decode Manifest ver.manifestBytes = .ok m ∧
    ver.streams.map (fun row => (row.blobRef, row.chunkCount)) =
      m.streams.map fun st => (Files.blobRef fileId v st.streamType.codepoint, st.chunkCount)

lemma Files.declares_of_parseStage {input : StageInput} {p : ParsedStage} {ver : VersionEntry}
    (h : parseStage input = .ok p) (hmanifest : ver.manifestBytes = p.manifestBytes)
    (hstreams : ver.streams = p.streams) : ∃ m, ver.Declares p.fileId p.version m := by
  unfold parseStage at h
  simp only [bind_eq_ok, guard_eq_ok, pure_eq_ok, mapError_eq_ok, not_not] at h
  obtain ⟨m, hdecode, -, -, -, -, -, -, -, genesis, -, rfl⟩ := h
  refine ⟨m, by rw [hmanifest]; exact hdecode, ?_⟩
  rw [hstreams, List.map_map]
  rfl

/-- A version has the streams of the stage it was put there by, or none once it is superseded. -/
lemma Phase.streams {reshared : WrapInput → Prop} {p : ParsedStage} {current : UInt64}
    {ver : VersionEntry} (h : Phase reshared p current ver) :
    ver.streams = p.streams ∨ ver.streams = [] := by
  cases h with
  | staged _ => exact .inl rfl
  | current _ _ _ _ => exact .inl rfl
  | superseded _ _ => exact .inr rfl

/-- After every run, the stream rows of every version are in its slots. -/
theorem slotted_run (ops : List FileOp) {fileId : Id} {entry : FileEntry} {v : UInt64}
    {ver : VersionEntry} (hentry : (fileMachine.run ops).1.files.lookup fileId = some entry)
    (hver : entry.versions.lookup v = some ver) : Slotted fileId v ver.streams := by
  obtain ⟨st, hrecord⟩ := (recorded_run ops fileId entry hentry).version v ver hver
  have hparsed := Files.slotted_of_parseStage st.checked
  rw [hrecord.sameFile, hrecord.sameVersion] at hparsed
  obtain hstreams | hnone := hrecord.phase.streams
  · rw [hstreams]
    exact hparsed
  · rw [hnone]
    exact .nil

/-- After every run, the stream rows of a version that is not superseded are those that its manifest
declares. -/
theorem declares_run (ops : List FileOp) {fileId : Id} {entry : FileEntry} {v : UInt64}
    {ver : VersionEntry} (hentry : (fileMachine.run ops).1.files.lookup fileId = some entry)
    (hver : entry.versions.lookup v = some ver)
    (hlive : ver.finalized = false ∨ v = entry.currentVersion) :
    ∃ m, ver.Declares fileId v m := by
  obtain ⟨st, hrecord⟩ := (recorded_run ops fileId entry hentry).version v ver hver
  have hfile := hrecord.sameFile
  have hversion := hrecord.sameVersion
  rw [← hfile, ← hversion]
  cases hrecord.phase with
  | staged _ => exact Files.declares_of_parseStage st.checked rfl rfl
  | current _ _ _ _ => exact Files.declares_of_parseStage st.checked rfl rfl
  | superseded _ hlt =>
    exfalso
    obtain hopen | hcurrent := hlive
    · exact absurd hopen (by simp [VersionEntry.finalize, VersionEntry.supersede])
    · rw [hversion, hcurrent] at hlt
      exact lt_irrefl _ hlt

/-! ## Rows of the store -/

/-- The row is one of the version's stream rows. -/
def FileStore.HasRow (files : FileStore) (fileId : Id) (v : UInt64) (row : StreamRow) : Prop :=
  ∃ entry ver, files.lookup fileId = some entry ∧ entry.versions.lookup v = some ver ∧
    row ∈ ver.streams

namespace FileStore

variable {files : FileStore} {fileId f : Id} {v version nowMs : UInt64} {row : StreamRow}
  {entry entry' : FileEntry} {p : ParsedStage}

lemma HasRow.streams (h : files.HasRow fileId v row) (hentry : files.lookup fileId = some entry) :
    ∃ ver, entry.versions.lookup v = some ver ∧ row ∈ ver.streams := by
  obtain ⟨entry', ver, hentry', hver, hrow⟩ := h
  obtain rfl : entry = entry' := Option.some.inj (hentry.symm.trans hentry')
  exact ⟨ver, hver, hrow⟩

lemma hasRow_insert : HasRow (files.insert fileId entry') f v row ↔
    if f = fileId then ∃ ver, entry'.versions.lookup v = some ver ∧ row ∈ ver.streams
    else files.HasRow f v row := by
  unfold HasRow
  simp only [lookup_insert_eq]
  by_cases hf : f = fileId
  · simp [hf]
  · simp [hf]

lemma hasRow_stage (hstage : StageRow files p nowMs entry) :
    HasRow (files.insert p.fileId (entry.stage p)) f v row ↔
      if f = p.fileId ∧ v = p.version then row ∈ p.streams else files.HasRow f v row := by
  rw [hasRow_insert]
  by_cases hf : f = p.fileId
  · rw [if_pos hf]
    by_cases hv : v = p.version
    · rw [if_pos ⟨hf, hv⟩]
      simp only [FileEntry.lookup_stage, if_pos hv, Option.some.injEq]
      constructor
      · intro hstored
        obtain ⟨ver, hver, hrow⟩ := hstored
        rw [← hver] at hrow
        exact hrow
      · intro hrow
        exact ⟨_, rfl, hrow⟩
    · rw [if_neg fun h => hv h.2]
      simp only [FileEntry.lookup_stage, if_neg hv]
      -- the file has the versions of the row staged to, which is new or its own
      have hversions : files.lookup p.fileId = some entry ∨
          (files.lookup p.fileId = none ∧ entry.versions = ∅) := by
        cases hstage with
        | create _ hnew => exact .inr ⟨hnew, rfl⟩
        | restage _ hentry => exact .inl hentry
        | rotate _ hentry _ => exact .inl hentry
      obtain hentry | ⟨hnew, hempty⟩ := hversions
      · constructor
        · intro hstored
          obtain ⟨ver, hver, hrow⟩ := hstored
          exact ⟨entry, ver, by rw [hf]; exact hentry, hver, hrow⟩
        · intro hrow
          rw [hf] at hrow
          exact hrow.streams hentry
      · constructor
        · intro hstored
          obtain ⟨ver, hver, _⟩ := hstored
          rw [hempty] at hver
          exact absurd hver (by simp)
        · intro hstored
          obtain ⟨entry', _, hentry', _, _⟩ := hstored
          rw [hf, hnew] at hentry'
          exact absurd hentry' (by simp)
  · rw [if_neg hf, if_neg fun h => hf h.1]

lemma hasRow_finalize (hentry : files.lookup fileId = some entry)
    (hnext : version.toNat = entry.currentVersion.toNat + 1) :
    HasRow (files.insert fileId (entry.finalize version nowMs)) f v row ↔
      files.HasRow f v row ∧ ¬ (f = fileId ∧ 1 ≤ v.toNat ∧ v = entry.currentVersion) := by
  rw [hasRow_insert]
  by_cases hf : f = fileId
  · rw [if_pos hf]
    simp only [FileEntry.lookup_finalize hnext]
    have hself : ∀ w : UInt64, files.HasRow f w row ↔
        ∃ ver, entry.versions.lookup w = some ver ∧ row ∈ ver.streams := by
      intro w
      constructor
      · intro hrow
        rw [hf] at hrow
        exact hrow.streams hentry
      · intro hstored
        obtain ⟨ver, hver, hrow⟩ := hstored
        exact ⟨entry, ver, by rw [hf]; exact hentry, hver, hrow⟩
    rw [hself]
    by_cases hversion : v = version
    · have hother : ¬ (1 ≤ v.toNat ∧ v = entry.currentVersion) := by
        rintro ⟨_, hcurrent⟩
        rw [← hversion, hcurrent] at hnext
        omega
      rw [if_pos hversion, ← hversion]
      simp [hf, hother, VersionEntry.finalize]
    · rw [if_neg hversion]
      by_cases hprior : 1 ≤ v.toNat ∧ v = entry.currentVersion
      · rw [if_pos hprior]
        constructor
        · intro hstored
          obtain ⟨ver, hver, hrow⟩ := hstored
          obtain ⟨old, _, rfl⟩ := Option.map_eq_some_iff.mp hver
          exact absurd hrow (by simp [VersionEntry.supersede])
        · intro hstored
          obtain ⟨_, hother⟩ := hstored
          exact absurd ⟨hf, hprior⟩ hother
      · rw [if_neg hprior]
        simp [hf, hprior]
  · rw [if_neg hf]
    simp [hf]

lemma hasRow_discardStaged (hentry : files.lookup fileId = some entry) :
    HasRow (files.insert fileId entry.discardStaged) f v row ↔
      files.HasRow f v row ∧ (f = fileId → entry.isFinalized v = true) := by
  rw [hasRow_insert]
  by_cases hf : f = fileId
  · rw [if_pos hf]
    simp only [FileEntry.lookup_discardStaged, Option.filter_eq_some_iff]
    constructor
    · intro hstored
      obtain ⟨ver, ⟨hver, hfinal⟩, hrow⟩ := hstored
      refine ⟨⟨entry, ver, by rw [hf]; exact hentry, hver, hrow⟩, fun _ => ?_⟩
      rw [FileEntry.isFinalized, hver, Option.any_some]
      exact hfinal
    · intro hstored
      obtain ⟨hrow, hfinal⟩ := hstored
      rw [hf] at hrow
      obtain ⟨ver, hver, hrow⟩ := hrow.streams hentry
      have hfinal := hfinal hf
      rw [FileEntry.isFinalized, hver, Option.any_some] at hfinal
      exact ⟨ver, ⟨hver, hfinal⟩, hrow⟩
  · rw [if_neg hf]
    simp [hf]

lemma hasRow_eraseAll {ids : List Id} :
    HasRow (eraseAll ids files) f v row ↔ f ∉ ids ∧ files.HasRow f v row := by
  unfold HasRow
  simp only [lookup_eraseAll]
  by_cases hf : f ∈ ids
  · simp [hf]
  · simp [hf]

end FileStore

end MaxSecu
