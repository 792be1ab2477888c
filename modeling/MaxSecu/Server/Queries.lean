import Mathlib.Data.Prod.Lex
import Mathlib.Data.List.Lex
import MaxSecu.Server.MemoryStore

/-!
# What the file store lists

The queries of the file store besides reading one file: a file's attributes, the page of a listing,
and the recipients of a file, for its owner.

A listing shows the files that the caller holds a wrap of, sorted, with the file id as the tiebreak.
So it depends on what is stored and not on the order in which the store keeps it
(`listing_congr`).
-/

namespace MaxSecu

open AssociationList AscendingList

structure FileMeta where
  ownerId : Id
  fileType : Int16
  listed : Bool
  bundleId : Option Id
  deriving DecidableEq

inductive ListSort
  | newest
  | oldest
  deriving DecidableEq

structure ListFilter where
  fileType : Option Int16
  limit : ℕ
  offset : UInt64
  sort : ListSort
  ownerOnly : Bool
  callerId : Id

structure FileListEntry where
  fileId : Id
  fileType : Int16
  version : UInt64
  updatedAtMs : UInt64
  smallStreams : List (Int16 × UInt64)
  deriving DecidableEq

structure FileListPage where
  entries : List FileListEntry
  /-- How many files match, on this page or not. -/
  total : ℕ
  deriving DecidableEq

/-- A recipient of the current version, with the grants its grant descends from. -/
structure RecipientView where
  recipientId : Id
  grantedBy : Id
  grantBytes : List UInt8
  grantSig : Bytes 64
  ancestorGrants : List (List UInt8 × Bytes 64)
  deriving DecidableEq

/-- Ids are ordered byte by byte. -/
def Id.sortKey (id : Id) : List ℕ := id.bytes.toList.map UInt8.toNat

lemma Id.sortKey_inj {a b : Id} (h : a.sortKey = b.sortKey) : a = b := by
  have hbytes : a.bytes = b.bytes := List.Vector.toList_injective
    (List.map_injective_iff.mpr (fun _ _ hnat => UInt8.toNat_inj.mp hnat) h)
  cases a
  cases b
  exact congrArg Id.mk hbytes

def ListSort.order : ListSort → List FileListEntry → List FileListEntry
  | newest => sortBy fun e => toLex (OrderDual.toDual e.updatedAtMs.toNat, e.fileId.sortKey)
  | oldest => sortBy fun e => toLex (e.updatedAtMs.toNat, e.fileId.sortKey)

/-- What a listing shows of a file, if it shows it to the caller: a finalized and listed file with a
wrap for them.  The content stream is left out. -/
def FileEntry.listing (filter : ListFilter) (fileId : Id) (entry : FileEntry) :
    Option FileListEntry :=
  (entry.versions.lookup entry.currentVersion).bind fun ver =>
    if 1 ≤ entry.currentVersion ∧ entry.listed = true ∧
        (ver.wraps.any fun w => w.recipientId = filter.callerId) ∧
        (filter.fileType.all fun t => t = entry.fileType) ∧
        (filter.ownerOnly = true → entry.ownerId = filter.callerId) then
      some
        { fileId := fileId
          fileType := entry.fileType
          version := entry.currentVersion
          updatedAtMs := entry.updatedAtMs
          smallStreams := (ver.streams.filter fun s => s.streamType ≠ 1).map fun s =>
            (s.streamType, s.totalBytes) }
    else
      none

namespace FileStore

def getFileMeta (files : FileStore) (fileId : Id) : Option FileMeta :=
  (files.lookup fileId).map fun entry =>
    ⟨entry.ownerId, entry.fileType, entry.listed, entry.bundleId⟩

def listing (files : FileStore) (filter : ListFilter) : List FileListEntry :=
  filter.sort.order (collect (FileEntry.listing filter) files)

def listFiles (files : FileStore) (filter : ListFilter) : FileListPage :=
  ⟨((files.listing filter).drop filter.offset.toNat).take filter.limit,
    (files.listing filter).length⟩

/-- The users that hold a wrap of the current version, for the owner. -/
def listRecipients (files : FileStore) (fileId callerId : Id) : Option (List RecipientView) := do
  let entry ← files.lookup fileId
  if entry.ownerId ≠ callerId then
    none
  else if entry.currentVersion = 0 then
    none
  else
    let ver ← entry.versions.lookup entry.currentVersion
    some ((ver.wraps.filter fun w => w.recipientType = 1).map fun w =>
      ⟨w.recipientId, w.grantedBy, w.grantBytes, w.grantSig,
        ancestorChain ver.wraps w entry.ownerId⟩)

end FileStore

/-! ## Listings -/

section

variable {filter : ListFilter} {fileId : Id} {entry : FileEntry} {e : FileListEntry}
  {files files' : FileStore} {ver : VersionEntry}

lemma FileEntry.listing_fileId (h : entry.listing filter fileId = some e) : e.fileId = fileId := by
  obtain ⟨ver, _, h⟩ := Option.bind_eq_some_iff.mp h
  split at h
  · rw [← Option.some.inj h]
  · exact absurd h (by simp)

@[simp] lemma ListSort.mem_order {sort : ListSort} {l : List FileListEntry} :
    e ∈ sort.order l ↔ e ∈ l := by
  cases sort with
  | newest => exact mem_sortBy
  | oldest => exact mem_sortBy

lemma ListSort.order_eq_of_perm {sort : ListSort} {l l' : List FileListEntry} (h : l.Perm l')
    (hnodup : (l.map FileListEntry.fileId).Nodup) : sort.order l = sort.order l' := by
  have hid : ∀ a ∈ l, ∀ b ∈ l, a.fileId.sortKey = b.fileId.sortKey → a = b := by
    intro a ha b hb hkey
    exact List.inj_on_of_nodup_map hnodup ha hb (Id.sortKey_inj hkey)
  cases sort with
  | newest =>
    refine sortBy_eq_of_perm h fun a ha b hb hkey => hid a ha b hb ?_
    exact (Prod.mk.inj (toLex.injective hkey)).2
  | oldest =>
    refine sortBy_eq_of_perm h fun a ha b hb hkey => hid a ha b hb ?_
    exact (Prod.mk.inj (toLex.injective hkey)).2

namespace FileStore

lemma mem_listing : e ∈ files.listing filter ↔
    (files.lookup e.fileId).bind (FileEntry.listing filter e.fileId) = some e := by
  unfold listing
  rw [ListSort.mem_order, mem_collect]
  constructor
  · intro ⟨f, hf⟩
    obtain ⟨entry, _, hlisting⟩ := Option.bind_eq_some_iff.mp hf
    rw [FileEntry.listing_fileId hlisting]
    exact hf
  · intro h
    exact ⟨e.fileId, h⟩

lemma listing_congr {filter filter' : ListFilter} (hsort : filter.sort = filter'.sort)
    (h : ∀ f, (files.lookup f).bind (FileEntry.listing filter f) =
      (files'.lookup f).bind (FileEntry.listing filter' f)) :
    files.listing filter = files'.listing filter' := by
  unfold listing
  rw [hsort]
  have hkey : ∀ filter : ListFilter, ∀ f entry e,
      FileEntry.listing filter f entry = some e → e.fileId = f :=
    fun _ _ _ _ => FileEntry.listing_fileId
  exact ListSort.order_eq_of_perm (collect_perm (hkey filter) (hkey filter') h)
    (nodup_map_collect (hkey filter))

end FileStore

end

end MaxSecu
