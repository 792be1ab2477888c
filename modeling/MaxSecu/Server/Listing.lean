import MaxSecu.Crypto.Primitives
import MaxSecu.Framework.Base64
import MaxSecu.Framework.Fips180
import MaxSecu.Server.BlobRefs
import MaxSecu.Server.Queries

/-!
# Walking through a listing

A listing is answered page by page.  Each page but the last comes with a cursor, which holds the next
offset and a fingerprint of what was asked for, so that it is refused under another filter.

Who follows the cursors sees every file that matches once, in order, and the same pages as who counts
the offsets himself (`walk_complete`).
-/

namespace MaxSecu

open AssociationList AscendingList ExceptRules Files

/-- Base64 with the URL alphabet and no padding. -/
class Base64Url where
  encode : List UInt8 → String
  decode : String → Option (List UInt8)

def Base64RoundTrips [Base64Url] : Prop :=
  ∀ bytes, Base64Url.decode (Base64Url.encode bytes) = some bytes

/-! ## Names -/

def fileTypeCode (s : String) : Option Int16 :=
  if s = "video" then some 1
  else if s = "image" then some 2
  else if s = "blog" then some 3
  else if s = "generic" then some 4
  else if s = "bundle" then some 5
  else none

def fileTypeName (c : Int16) : String :=
  if c = 1 then "video"
  else if c = 2 then "image"
  else if c = 3 then "blog"
  else if c = 4 then "generic"
  else if c = 5 then "bundle"
  else "unknown"

def streamTypeName (c : Int16) : String :=
  if c = 1 then "content"
  else if c = 2 then "metadata"
  else if c = 3 then "thumbnail"
  else if c = 4 then "preview"
  else "unknown"

def ListSort.name : ListSort → String
  | newest => "newest"
  | oldest => "oldest"

/-! ## The cursor -/

def CURSOR_V : String := "1"

/-- What a cursor is bound to, in the server's own spelling. -/
def queryText (fileType : Option Int16) (sort : ListSort) (ownerOnly : Bool) : String :=
  "type=" ++ (fileType.map fileTypeName).getD "" ++ ";sort=" ++ sort.name ++ ";owner=" ++
    if ownerOnly then "me" else ""

/-- The first hexadecimal digits of the hash of what was asked for. -/
def cursorFp [Sha256] (fileType : Option Int16) (sort : ListSort) (ownerOnly : Bool) : String :=
  let digest := sha256 (queryText fileType sort ownerOnly).toByteArray.data.toList
  String.ofList ((digest.toList.flatMap Files.hexByte).take 16)

def encodeCursor [Base64Url] (nextOffset : UInt64) (fp : String) : String :=
  Base64Url.encode (CURSOR_V ++ "|" ++ toString nextOffset ++ "|" ++ fp).toByteArray.data.toList

inductive CursorError
  | malformed
  | queryMismatch
  deriving DecidableEq

/-- Read a `u32` in decimal.  A plus sign may come first. -/
def parseU32 (s : List Char) : Option UInt32 :=
  let digits := if s.head? = some '+' then s.tail else s
  if digits ≠ [] ∧ digits.all Char.isDigit ∧ Nat.ofDigitChars 10 digits 0 < 2 ^ 32 then
    some (UInt32.ofNat (Nat.ofDigitChars 10 digits 0))
  else
    none

/-- Read the text of a cursor: a version, an offset and a fingerprint. -/
def readCursor (s : String) (wantFp : String) : Except CursorError UInt64 :=
  match s.toList.splitOn '|' with
  | [v, off, fp] =>
    if String.ofList v ≠ CURSOR_V then
      throw .malformed
    else do
      let offset ← (parseU32 off).elim (throw .malformed) pure
      if String.ofList fp ≠ wantFp then
        throw .queryMismatch
      else
        pure offset.toUInt64
  | _ => throw .malformed

/-- Decode a cursor, which must have been made for what is asked now. -/
def decodeCursor [Base64Url] (cursor : String) (wantFp : String) : Except CursorError UInt64 := do
  let raw ← (Base64Url.decode cursor).elim (throw .malformed) pure
  let s ← (String.fromUTF8? ⟨raw.toArray⟩).elim (throw .malformed) pure
  readCursor s wantFp

/-! ## The handler -/

structure ListQuery where
  fileType : Option String
  limit : Option ℕ
  offset : Option UInt32
  cursor : Option String
  sort : Option String
  owner : Option String

structure ListEntryRes where
  fileId : String
  fileType : String
  version : UInt64
  updatedAt : UInt64
  /-- The sizes of the small streams by name. -/
  streams : AList fun _ : String => UInt64

structure ListRes where
  files : List ListEntryRes
  nextCursor : Option String
  total : ℕ

def FileListEntry.res (e : FileListEntry) : ListEntryRes where
  fileId := String.ofList (e.fileId.bytes.toList.flatMap Files.hexByte)
  fileType := fileTypeName e.fileType
  version := e.version
  updatedAt := e.updatedAtMs
  streams := e.smallStreams.foldl (fun m s => m.insert (streamTypeName s.1) s.2) ∅

def CursorError.code : CursorError → String
  | malformed => "bad_cursor"
  | queryMismatch => "cursor_query_mismatch"

namespace ListQuery

variable (q : ListQuery)

def parseSort : Except String ListSort :=
  match q.sort with
  | none => pure .newest
  | some s =>
    if s = "newest" then pure .newest
    else if s = "oldest" then pure .oldest
    else throw "bad_sort"

def parseOwner : Except String Bool :=
  match q.owner with
  | none => pure false
  | some s => if s = "me" then pure true else throw "bad_owner"

/-- The type asked for, if it is one.  No file has an unknown type. -/
def typeFilter : Option (Option Int16) :=
  match q.fileType with
  | none => some none
  | some s => (fileTypeCode s).map some

/-- Where the page starts.  A cursor is preferred to an offset. -/
def start [Base64Url] (fp : String) : Except String UInt64 :=
  match q.cursor with
  | some c => (decodeCursor c fp).mapError CursorError.code
  | none => pure (q.offset.getD 0).toUInt64

end ListQuery

/-- The page that a caller gets, or the code of the refusal. -/
def Http.listFiles [Sha256] [Base64Url] (files : FileStore) (userId : Id) (q : ListQuery) :
    Except String ListRes := do
  let sort ← q.parseSort
  let ownerOnly ← q.parseOwner
  match q.typeFilter with
  | none => pure ⟨[], none, 0⟩
  | some fileType => do
    let limit := min (q.limit.getD 50) 200
    let fp := cursorFp fileType sort ownerOnly
    let offset ← q.start fp
    let page := files.listFiles ⟨fileType, limit, offset, sort, ownerOnly, userId⟩
    let entries := page.entries.map FileListEntry.res
    let nextOffset := UInt64.ofNat (min (offset.toNat + entries.length) (2 ^ 64 - 1))
    -- An empty page carries no cursor, for a cursor that does not advance never ends.
    let nextCursor :=
      if entries ≠ [] ∧ nextOffset.toNat < page.total then some (encodeCursor nextOffset fp)
      else none
    pure ⟨entries, nextCursor, page.total⟩

/-! ## What a cursor is read as -/

section Cursors

variable [Sha256] [Base64Url]

omit [Sha256] [Base64Url] in
lemma bar_not_mem_hexByte (b : UInt8) : '|' ∉ Files.hexByte b := by
  have hdigit : ∀ n < 16, Files.hexDigit n ≠ '|' := by decide
  have hlt := b.toNat_lt
  intro hmem
  obtain hmem | hmem := List.mem_cons.mp hmem
  · exact hdigit _ (by omega) hmem.symm
  · exact hdigit _ (by omega) (List.mem_singleton.mp hmem).symm

omit [Base64Url] in
lemma bar_not_mem_cursorFp {fileType : Option Int16} {sort : ListSort} {ownerOnly : Bool} :
    '|' ∉ (cursorFp fileType sort ownerOnly).toList := by
  unfold cursorFp
  intro hmem
  rw [String.toList_ofList] at hmem
  obtain ⟨b, -, hb⟩ := List.mem_flatMap.mp (List.mem_of_mem_take hmem)
  exact bar_not_mem_hexByte b hb

omit [Sha256] [Base64Url] in
lemma bar_not_mem_toDigits (n : ℕ) : '|' ∉ Nat.toDigits 10 n := by
  intro hmem
  have hdigit := Nat.isDigit_of_mem_toDigits (by decide) (by decide) hmem
  exact absurd hdigit (by decide)

omit [Sha256] [Base64Url] in
lemma parseU32_toDigits {n : ℕ} (hn : n < 2 ^ 32) :
    parseU32 (Nat.toDigits 10 n) = some (UInt32.ofNat n) := by
  have hdigits : ∀ c ∈ Nat.toDigits 10 n, c.isDigit = true := fun c hc =>
    Nat.isDigit_of_mem_toDigits (by decide) (by decide) hc
  have hne : Nat.toDigits 10 n ≠ [] := Nat.toDigits_ne_nil
  have hplus : (Nat.toDigits 10 n).head? ≠ some '+' := by
    intro hhead
    exact absurd (hdigits _ (List.mem_of_mem_head? hhead)) (by decide)
  unfold parseU32
  simp only [if_neg hplus, Nat.ofDigitChars_ten_toDigits]
  rw [if_pos ⟨hne, List.all_eq_true.mpr hdigits, hn⟩]

omit [Sha256] in
lemma decodeCursor_encodeCursor (hbase64 : Base64RoundTrips) {offset : ℕ} (hoffset : offset < 2 ^ 32)
    {fp wantFp : String} (hfp : '|' ∉ fp.toList) :
    decodeCursor (encodeCursor (UInt64.ofNat offset) fp) wantFp =
      if fp = wantFp then .ok (UInt64.ofNat offset) else .error .queryMismatch := by
  have hlt : offset % 2 ^ 64 = offset := Nat.mod_eq_of_lt (by omega)
  have hdigits : (toString (UInt64.ofNat offset)).toList = Nat.toDigits 10 offset := by
    show (toString (UInt64.ofNat offset).toNat).toList = _
    rw [UInt64.toNat_ofNat', hlt]
    simp
  have hbar : ∀ l ∈ [['1'], Nat.toDigits 10 offset, fp.toList], '|' ∉ l := by
    intro l hl
    simp only [List.mem_cons, List.not_mem_nil, or_false] at hl
    obtain rfl | rfl | rfl := hl
    · decide
    · exact bar_not_mem_toDigits offset
    · exact hfp
  have hsplit : (CURSOR_V ++ "|" ++ toString (UInt64.ofNat offset) ++ "|" ++ fp).toList.splitOn '|' =
      [['1'], Nat.toDigits 10 offset, fp.toList] := by
    have hparts := List.splitOn_intercalate '|' hbar (List.cons_ne_nil _ _)
    rw [← hparts]
    congr 1
    simp [String.toList_append, hdigits, CURSOR_V, List.intercalate]
  have hoffset' : (UInt32.ofNat offset).toUInt64 = UInt64.ofNat offset := by
    apply UInt64.toNat_inj.mp
    rw [UInt32.toNat_toUInt64, UInt32.toNat_ofNat', UInt64.toNat_ofNat', hlt,
      Nat.mod_eq_of_lt hoffset]
  unfold decodeCursor encodeCursor
  rw [hbase64, Option.elim_some, pure_bind, Reader.fromUTF8?_toByteArray,
    Option.elim_some, pure_bind]
  unfold readCursor
  simp only [hsplit, String.ofList_toList]
  rw [if_neg (by decide), parseU32_toDigits hoffset, Option.elim_some, pure_bind]
  by_cases hsame : fp = wantFp
  · rw [if_neg (not_not.mpr hsame), if_pos hsame, hoffset']
    rfl
  · rw [if_pos hsame, if_neg hsame]
    rfl

/-- The types that a query can ask for. -/
def QueriedType (fileType : Option Int16) : Prop :=
  fileType = none ∨ ∃ name c, fileTypeCode name = some c ∧ fileType = some c

omit [Sha256] [Base64Url] in
lemma QueriedType.code {fileType : Option Int16} (h : QueriedType fileType) :
    fileType ∈ [none, some 1, some 2, some 3, some 4, some 5] := by
  obtain rfl | ⟨name, c, hcode, rfl⟩ := h
  · simp
  · unfold fileTypeCode at hcode
    split_ifs at hcode <;> cases hcode <;> simp

omit [Sha256] [Base64Url] in
lemma queryText_inj {fileType fileType' : Option Int16} {sort sort' : ListSort}
    {ownerOnly ownerOnly' : Bool} (htype : QueriedType fileType) (htype' : QueriedType fileType')
    (h : queryText fileType sort ownerOnly = queryText fileType' sort' ownerOnly') :
    (fileType, sort, ownerOnly) = (fileType', sort', ownerOnly') := by
  let parts : Option Int16 → ListSort → Bool → List (List Char) := fun t s o =>
    ["type=".toList ++ ((t.map fileTypeName).getD "").toList, "sort=".toList ++ s.name.toList,
      "owner=".toList ++ (if o then "me" else "").toList]
  have htext : ∀ t s o, (queryText t s o).toList = [';'].intercalate (parts t s o) := by
    intro t s o
    unfold queryText
    simp [String.toList_append, parts, List.intercalate]
  have hcodes : ∀ t ∈ [none, some 1, some 2, some 3, some 4, some 5], ∀ s o, ∀ l ∈ parts t s o,
      ';' ∉ l := by
    intro t ht s o
    simp only [List.mem_cons, List.not_mem_nil, or_false] at ht
    obtain rfl | rfl | rfl | rfl | rfl | rfl := ht <;> cases s <;> cases o <;> decide
  have hsplit : ∀ t, QueriedType t → ∀ s o, (queryText t s o).toList.splitOn ';' = parts t s o := by
    intro t ht s o
    rw [htext]
    exact List.splitOn_intercalate ';' (hcodes t ht.code s o) (List.cons_ne_nil _ _)
  have hnodup : ([none, some 1, some 2, some 3, some 4, some 5].map fun t : Option Int16 =>
      "type=".toList ++ ((t.map fileTypeName).getD "").toList).Nodup := by
    decide
  have hparts : parts fileType sort ownerOnly = parts fileType' sort' ownerOnly' := by
    rw [← hsplit fileType htype, ← hsplit fileType' htype', h]
  obtain ⟨hnames, hrest⟩ := List.cons.inj hparts
  obtain ⟨hsorts, hrest⟩ := List.cons.inj hrest
  obtain ⟨howners, -⟩ := List.cons.inj hrest
  have hsort : sort = sort' := by
    cases sort <;> cases sort' <;> first | rfl | exact absurd hsorts (by decide)
  have howner : ownerOnly = ownerOnly' := by
    cases ownerOnly <;> cases ownerOnly' <;> first | rfl | exact absurd howners (by decide)
  rw [List.inj_on_of_nodup_map hnodup htype.code htype'.code hnames, hsort, howner]

/-- The first bytes of the hash tell the queries apart. -/
def FingerprintsDiffer : Prop :=
  Set.InjOn (fun text : String => (sha256 text.toByteArray.data.toList).toList.take 8)
    {text | ∃ fileType sort ownerOnly, QueriedType fileType ∧
      text = queryText fileType sort ownerOnly}

omit [Sha256] [Base64Url] in
lemma take_flatMap_hexByte (n : ℕ) (bs : List UInt8) :
    (bs.flatMap Files.hexByte).take (2 * n) = (bs.take n).flatMap Files.hexByte := by
  induction n generalizing bs with
  | zero => rw [Nat.mul_zero, List.take_zero, List.take_zero, List.flatMap_nil]
  | succ n ih =>
    cases bs with
    | nil => rw [List.take_nil, List.flatMap_nil, List.take_nil]
    | cons b bs =>
      rw [List.take_succ_cons, List.flatMap_cons, List.flatMap_cons, ← ih]
      exact congrArg (Files.hexDigit _ :: Files.hexDigit _ :: ·) rfl

omit [Base64Url] in
lemma FingerprintsDiffer.cursorFp_inj (hdiffer : FingerprintsDiffer) {fileType fileType' : Option Int16}
    {sort sort' : ListSort} {ownerOnly ownerOnly' : Bool} (htype : QueriedType fileType)
    (htype' : QueriedType fileType')
    (h : cursorFp fileType sort ownerOnly = cursorFp fileType' sort' ownerOnly') :
    (fileType, sort, ownerOnly) = (fileType', sort', ownerOnly') := by
  refine queryText_inj htype htype' (hdiffer ⟨_, _, _, htype, rfl⟩ ⟨_, _, _, htype', rfl⟩ ?_)
  have hchars := congrArg String.toList h
  unfold cursorFp at hchars
  rw [String.toList_ofList, String.toList_ofList] at hchars
  have hbytes := (take_flatMap_hexByte 8 _).symm.trans (hchars.trans (take_flatMap_hexByte 8 _))
  exact flatMap_hexByte_inj hbytes

end Cursors

/-! ## Walks -/

section Walks

variable [Sha256] [Base64Url]

/-- The pages that a caller gets who follows the cursors, from the page that `cursor` leads to. -/
inductive Walk (files : FileStore) (userId : Id) (q : ListQuery) : Option String → List ListRes → Prop
  | last {cursor : Option String} {page : ListRes} :
      Http.listFiles files userId { q with cursor := cursor } = .ok page → page.nextCursor = none →
        Walk files userId q cursor [page]
  | more {cursor : Option String} {page : ListRes} {next : String} {pages : List ListRes} :
      Http.listFiles files userId { q with cursor := cursor } = .ok page →
        page.nextCursor = some next → Walk files userId q (some next) pages →
          Walk files userId q cursor (page :: pages)

variable {files : FileStore} {userId : Id} {q : ListQuery} {cursor : Option String}
  {pages pages' : List ListRes}

lemma Walk.unique (h : Walk files userId q cursor pages) (h' : Walk files userId q cursor pages') :
    pages = pages' := by
  induction h generalizing pages' with
  | @last cursor page hpage hlast =>
    cases h' with
    | last hpage' hlast' => rw [Except.ok.inj (hpage.symm.trans hpage')]
    | more hpage' hmore =>
      rw [Except.ok.inj (hpage.symm.trans hpage'), hmore] at hlast
      exact absurd hlast (by simp)
  | @more cursor page next pages hpage hmore _ ih =>
    cases h' with
    | last hpage' hlast =>
      rw [Except.ok.inj (hpage.symm.trans hpage'), hlast] at hmore
      exact absurd hmore (by simp)
    | more hpage' hmore' hrest =>
      obtain rfl := Except.ok.inj (hpage.symm.trans hpage')
      obtain rfl := Option.some.inj (hmore.symm.trans hmore')
      rw [ih hrest]

/-- A file as the query shows it to the caller. -/
def ListQuery.Shows (q : ListQuery) (files : FileStore) (userId : Id) (sort : ListSort)
    (ownerOnly : Bool) (e : FileListEntry) : Prop :=
  ∃ fileType, q.typeFilter = some fileType ∧ (files.lookup e.fileId).bind
    (FileEntry.listing ⟨fileType, 0, 0, sort, ownerOnly, userId⟩ e.fileId) = some e

def ListQuery.shown (q : ListQuery) (files : FileStore) (userId : Id) (sort : ListSort)
    (ownerOnly : Bool) : List FileListEntry :=
  q.typeFilter.elim [] fun fileType => files.listing ⟨fileType, 0, 0, sort, ownerOnly, userId⟩

/-- The order of a listing: by time, and by id where the times are the same. -/
def ListSort.Before (sort : ListSort) (a b : FileListEntry) : Prop :=
  match sort with
  | newest => b.updatedAtMs < a.updatedAtMs ∨
      a.updatedAtMs = b.updatedAtMs ∧ a.fileId.sortKey < b.fileId.sortKey
  | oldest => a.updatedAtMs < b.updatedAtMs ∨
      a.updatedAtMs = b.updatedAtMs ∧ a.fileId.sortKey < b.fileId.sortKey

omit [Sha256] [Base64Url] in
lemma FileStore.listing_before (files : FileStore) (filter : ListFilter) :
    (files.listing filter).Pairwise filter.sort.Before := by
  have hkey : ∀ f entry e, FileEntry.listing filter f entry = some e → e.fileId = f :=
    fun _ _ _ => FileEntry.listing_fileId
  have hperm : (files.listing filter).Perm (collect (FileEntry.listing filter) files) := by
    unfold FileStore.listing ListSort.order
    cases filter.sort <;> exact List.mergeSort_perm _ _
  have hnodup : ((files.listing filter).map FileListEntry.fileId).Nodup :=
    (hperm.map _).nodup_iff.mpr (nodup_map_collect hkey)
  have hids : (files.listing filter).Pairwise fun a b => a.fileId.sortKey ≠ b.fileId.sortKey :=
    (List.pairwise_map.mp hnodup).imp fun hne heq => hne (Id.sortKey_inj heq)
  unfold FileStore.listing ListSort.order at hids ⊢
  cases hsort : filter.sort with
  | newest =>
    rw [hsort] at hids
    refine (hids.and (sortBy_pairwise _ _)).imp fun {a b} hab => ?_
    obtain ⟨hne, hle⟩ := hab
    rw [Prod.Lex.toLex_le_toLex] at hle
    obtain hlt | ⟨heq, hle⟩ := hle
    · exact .inl (UInt64.lt_iff_toNat_lt.mpr (OrderDual.toDual_lt_toDual.mp hlt))
    · exact .inr ⟨UInt64.toNat_inj.mp (OrderDual.toDual.injective heq), lt_of_le_of_ne hle hne⟩
  | oldest =>
    rw [hsort] at hids
    refine (hids.and (sortBy_pairwise _ _)).imp fun {a b} hab => ?_
    obtain ⟨hne, hle⟩ := hab
    rw [Prod.Lex.toLex_le_toLex] at hle
    obtain hlt | ⟨heq, hle⟩ := hle
    · exact .inl (UInt64.lt_iff_toNat_lt.mpr hlt)
    · exact .inr ⟨UInt64.toNat_inj.mp heq, lt_of_le_of_ne hle hne⟩

omit [Sha256] [Base64Url] in
lemma FileStore.length_listing_le (files : FileStore) (filter : ListFilter) :
    (files.listing filter).length ≤ files.entries.length := by
  have hperm : (files.listing filter).Perm (collect (FileEntry.listing filter) files) := by
    unfold FileStore.listing ListSort.order
    cases filter.sort <;> exact List.mergeSort_perm _ _
  rw [hperm.length_eq]
  exact List.length_filterMap_le _ _

/-- The window of the listing from an offset on, with the cursor to the next. -/
def pageAt (fp : String) (shown : List FileListEntry) (limit offset : ℕ) : ListRes :=
  let window := (shown.drop offset).take limit
  { files := window.map FileListEntry.res
    nextCursor := if window ≠ [] ∧ offset + window.length < shown.length then
      some (encodeCursor (UInt64.ofNat (offset + window.length)) fp) else none
    total := shown.length }

variable {sort : ListSort} {ownerOnly : Bool} {fileType : Option Int16} {limit offset : ℕ}
  {shown : List FileListEntry}

lemma listFiles_eq (hsort : q.parseSort = .ok sort) (howner : q.parseOwner = .ok ownerOnly)
    (htype : q.typeFilter = some fileType) (hlimit : q.limit = some limit) (hmax : limit ≤ 200)
    (hshown : files.listing ⟨fileType, 0, 0, sort, ownerOnly, userId⟩ = shown)
    (hoffset : offset < 2 ^ 32)
    (hstart : q.start (cursorFp fileType sort ownerOnly) = .ok (UInt64.ofNat offset)) :
    Http.listFiles files userId q =
      .ok (pageAt (cursorFp fileType sort ownerOnly) shown limit offset) := by
  have hlisting : files.listing
      ⟨fileType, limit, UInt64.ofNat offset, sort, ownerOnly, userId⟩ = shown := hshown
  have hnat : (UInt64.ofNat offset).toNat = offset := by
    rw [UInt64.toNat_ofNat']
    exact Nat.mod_eq_of_lt (by omega)
  have hwindow : ((shown.drop offset).take limit).length ≤ 200 :=
    (List.length_take_le _ _).trans hmax
  have hnext : min (offset + ((shown.drop offset).take limit).length) (2 ^ 64 - 1) =
      offset + ((shown.drop offset).take limit).length := min_eq_left (by omega)
  have hnext' : (UInt64.ofNat (offset + ((shown.drop offset).take limit).length)).toNat =
      offset + ((shown.drop offset).take limit).length := by
    rw [UInt64.toNat_ofNat']
    exact Nat.mod_eq_of_lt (by omega)
  have hcapped : min (q.limit.getD 50) 200 = limit := by
    rw [hlimit]
    exact min_eq_left hmax
  unfold Http.listFiles
  rw [hsort, howner, htype]
  show (q.start _ >>= _) = _
  rw [hstart, hcapped]
  show Except.ok (ListRes.mk _ _ _) = Except.ok (ListRes.mk _ _ _)
  simp only [FileStore.listFiles, hlisting, hnat, List.length_map, hnext, hnext', ne_eq,
    List.map_eq_nil_iff]

omit [Sha256] in
lemma nextCursor_pageAt {fp next : String} (h : (pageAt fp shown limit offset).nextCursor = some next) :
    offset + limit < shown.length ∧ next = encodeCursor (UInt64.ofNat (offset + limit)) fp := by
  unfold pageAt at h
  simp only [List.length_take, List.length_drop] at h
  by_cases hmore : ((shown.drop offset).take limit) ≠ [] ∧
      offset + min limit (shown.length - offset) < shown.length
  · rw [if_pos hmore] at h
    obtain ⟨-, hlt⟩ := hmore
    have hfull : min limit (shown.length - offset) = limit := by omega
    rw [hfull] at h hlt
    exact ⟨hlt, (Option.some.inj h).symm⟩
  · rw [if_neg hmore] at h
    exact absurd h (by simp)

omit [Sha256] in
lemma nextCursor_pageAt_none {fp : String} (hpos : 0 < limit)
    (h : (pageAt fp shown limit offset).nextCursor = none) : shown.length ≤ offset + limit := by
  by_contra hlt
  have hfull : ((shown.drop offset).take limit).length = limit := by
    rw [List.length_take, List.length_drop]
    omega
  have hmore : ((shown.drop offset).take limit) ≠ [] ∧
      offset + ((shown.drop offset).take limit).length < shown.length :=
    ⟨List.ne_nil_of_length_pos (by omega), by omega⟩
  unfold pageAt at h
  simp only [if_pos hmore] at h
  exact absurd h (by simp)

/-- From an offset on, the cursors lead through the rest of the listing, a page at a time.  The
induction is on what is left. -/
lemma exists_walk (hbase64 : Base64RoundTrips) (hsort : q.parseSort = .ok sort)
    (howner : q.parseOwner = .ok ownerOnly) (htype : q.typeFilter = some fileType)
    (hlimit : q.limit = some limit) (hpos : 0 < limit) (hmax : limit ≤ 200)
    (hshown : files.listing ⟨fileType, 0, 0, sort, ownerOnly, userId⟩ = shown)
    (hfew : shown.length < 2 ^ 32) (cursor : Option String) (hoffset : offset < 2 ^ 32)
    (hstart : ({ q with cursor := cursor } : ListQuery).start (cursorFp fileType sort ownerOnly) =
      .ok (UInt64.ofNat offset)) :
    ∃ pages, Walk files userId q cursor pages ∧
      (pages.map ListRes.files).flatten = (shown.drop offset).map FileListEntry.res ∧
      (∀ i page, pages[i]? = some page → offset + i * limit < 2 ^ 32 ∧
        page = pageAt (cursorFp fileType sort ownerOnly) shown limit (offset + i * limit)) ∧
      shown.length ≤ offset + pages.length * limit := by
  induction hleft : shown.length - offset using Nat.strong_induction_on generalizing offset cursor with
  | _ left ih =>
    have hpage := @listFiles_eq _ _ files userId { q with cursor := cursor } sort ownerOnly fileType
      limit offset shown hsort howner htype hlimit hmax hshown hoffset hstart
    let page := pageAt (cursorFp fileType sort ownerOnly) shown limit offset
    cases hcursor : page.nextCursor with
    | none =>
      have hend := nextCursor_pageAt_none hpos hcursor
      refine ⟨[page], .last hpage hcursor, ?_, ?_, ?_⟩
      · have hall : (shown.drop offset).take limit = shown.drop offset := by
          rw [List.take_of_length_le]
          rw [List.length_drop]
          omega
        show [((shown.drop offset).take limit).map FileListEntry.res].flatten = _
        rw [hall, List.flatten_singleton]
      · intro i page' hi
        cases i with
        | zero =>
          rw [Nat.zero_mul, Nat.add_zero]
          exact ⟨hoffset, (Option.some.inj hi).symm⟩
        | succ i => exact absurd hi (by simp)
      · rw [List.length_singleton, Nat.one_mul]
        exact hend
    | some next =>
      obtain ⟨hmore, rfl⟩ := nextCursor_pageAt hcursor
      have hstart' : ({ q with cursor := some (encodeCursor (UInt64.ofNat (offset + limit))
          (cursorFp fileType sort ownerOnly)) } : ListQuery).start
            (cursorFp fileType sort ownerOnly) = .ok (UInt64.ofNat (offset + limit)) := by
        show (decodeCursor _ _).mapError _ = _
        rw [decodeCursor_encodeCursor hbase64 (by omega) bar_not_mem_cursorFp, if_pos rfl]
        rfl
      obtain ⟨pages, hwalk, hflat, hpages, hend⟩ :=
        ih (shown.length - (offset + limit)) (by omega) _ (by omega) hstart' rfl
      refine ⟨page :: pages, .more hpage hcursor hwalk, ?_, ?_, ?_⟩
      · rw [List.map_cons, List.flatten_cons, hflat, ← List.drop_drop]
        show ((shown.drop offset).take limit).map FileListEntry.res ++ _ = _
        rw [← List.map_append, List.take_append_drop]
      · intro i page' hi
        cases i with
        | zero =>
          rw [Nat.zero_mul, Nat.add_zero]
          exact ⟨hoffset, (Option.some.inj hi).symm⟩
        | succ i =>
          have hnext : offset + (i + 1) * limit = offset + limit + i * limit := by
            rw [Nat.succ_mul]
            omega
          rw [hnext]
          exact hpages i page' hi
      · rw [List.length_cons, Nat.succ_mul]
        omega

omit [Sha256] [Base64Url] in
lemma ListQuery.mem_shown {e : FileListEntry} :
    e ∈ q.shown files userId sort ownerOnly ↔ q.Shows files userId sort ownerOnly e := by
  unfold ListQuery.shown ListQuery.Shows
  cases htype : q.typeFilter with
  | none => simp
  | some fileType =>
    rw [Option.elim_some, FileStore.mem_listing]
    constructor
    · intro he
      exact ⟨fileType, rfl, he⟩
    · intro he
      obtain ⟨fileType', hsame, he⟩ := he
      obtain rfl := Option.some.inj hsame
      exact he

omit [Sha256] [Base64Url] in
lemma ListQuery.shown_before :
    (q.shown files userId sort ownerOnly).Pairwise sort.Before := by
  unfold ListQuery.shown
  cases q.typeFilter with
  | none => exact List.Pairwise.nil
  | some fileType => exact files.listing_before ⟨fileType, 0, 0, sort, ownerOnly, userId⟩

lemma listFiles_of_unknownType (hsort : q.parseSort = .ok sort)
    (howner : q.parseOwner = .ok ownerOnly) (htype : q.typeFilter = none) :
    Http.listFiles files userId q = .ok ⟨[], none, 0⟩ := by
  unfold Http.listFiles
  rw [hsort, howner, htype]
  rfl

/-- **A walk is complete.**  What a query shows are the files that match, in order and without
repetition.  The pages that the cursors lead through hold exactly that; they are the pages at the
multiples of the limit, and there are no more of them.  A cursor is read back under what it was made
for, and refused under everything else. -/
theorem walk_complete (hbase64 : Base64RoundTrips) (hdiffer : FingerprintsDiffer)
    (files : FileStore) (userId : Id) (q : ListQuery) (sort : ListSort) (ownerOnly : Bool)
    (limit : ℕ) (hsort : q.parseSort = .ok sort) (howner : q.parseOwner = .ok ownerOnly)
    (hlimit : q.limit = some limit) (hpos : 1 ≤ limit) (hmax : limit ≤ 200)
    (hoffset : q.offset = none) (hfew : (q.shown files userId sort ownerOnly).length < 2 ^ 32) :
    (∀ e, e ∈ q.shown files userId sort ownerOnly ↔ q.Shows files userId sort ownerOnly e) ∧
    (q.shown files userId sort ownerOnly).Pairwise sort.Before ∧
    (∃ pages, Walk files userId q none pages ∧
      (∀ pages', Walk files userId q none pages' → pages' = pages) ∧
      (pages.map ListRes.files).flatten =
        (q.shown files userId sort ownerOnly).map FileListEntry.res ∧
      (∀ i page, pages[i]? = some page → i * limit < 2 ^ 32 ∧
        page.total = (q.shown files userId sort ownerOnly).length ∧
        Http.listFiles files userId
          { q with cursor := none, offset := some (UInt32.ofNat (i * limit)) } = .ok page) ∧
      (q.shown files userId sort ownerOnly).length ≤ pages.length * limit) ∧
    ∀ fileType fileType' sort sort' ownerOnly ownerOnly' offset, QueriedType fileType →
      QueriedType fileType' → offset < 2 ^ 32 →
      decodeCursor (encodeCursor (UInt64.ofNat offset) (cursorFp fileType sort ownerOnly))
          (cursorFp fileType' sort' ownerOnly') =
        if (fileType, sort, ownerOnly) = (fileType', sort', ownerOnly') then
          .ok (UInt64.ofNat offset)
        else .error .queryMismatch := by
  refine ⟨fun e => ListQuery.mem_shown, ListQuery.shown_before, ?_, ?_⟩
  · cases htype : q.typeFilter with
    | none =>
      have hwalk : Walk files userId q none [⟨[], none, 0⟩] :=
        .last (listFiles_of_unknownType hsort howner htype) rfl
      have hshown : q.shown files userId sort ownerOnly = [] := by
        unfold ListQuery.shown
        rw [htype]
        rfl
      rw [hshown]
      refine ⟨_, hwalk, fun pages' hwalk' => hwalk'.unique hwalk, rfl, ?_, Nat.zero_le _⟩
      intro i page hi
      cases i with
      | zero =>
        obtain rfl := Option.some.inj hi
        rw [Nat.zero_mul]
        exact ⟨Nat.two_pow_pos 32, rfl, listFiles_of_unknownType hsort howner htype⟩
      | succ i => exact absurd hi (by simp)
    | some fileType =>
      have hshown : files.listing ⟨fileType, 0, 0, sort, ownerOnly, userId⟩ =
          q.shown files userId sort ownerOnly := by
        unfold ListQuery.shown
        rw [htype]
        rfl
      have hstart : ({ q with cursor := none } : ListQuery).start
          (cursorFp fileType sort ownerOnly) = .ok (UInt64.ofNat 0) := by
        show pure (q.offset.getD 0).toUInt64 = _
        rw [hoffset]
        rfl
      obtain ⟨pages, hwalk, hflat, hpages, hend⟩ := exists_walk hbase64 hsort howner htype hlimit
        hpos hmax hshown hfew none (Nat.two_pow_pos 32) hstart
      rw [List.drop_zero] at hflat
      rw [Nat.zero_add] at hend
      refine ⟨pages, hwalk, fun pages' hwalk' => hwalk'.unique hwalk, hflat, ?_, hend⟩
      intro i page hi
      obtain ⟨hlt, rfl⟩ := hpages i page hi
      rw [Nat.zero_add] at hlt ⊢
      refine ⟨hlt, rfl, listFiles_eq hsort howner htype hlimit hmax hshown hlt ?_⟩
      show (pure (UInt32.ofNat (i * limit)).toUInt64 : Except String UInt64) = _
      have hsame : (UInt32.ofNat (i * limit)).toUInt64 = UInt64.ofNat (i * limit) := by
        apply UInt64.toNat_inj.mp
        rw [UInt32.toNat_toUInt64, UInt32.toNat_ofNat', UInt64.toNat_ofNat',
          Nat.mod_eq_of_lt hlt, Nat.mod_eq_of_lt (by omega)]
      rw [hsame]
      rfl
  · intro fileType fileType' sort sort' ownerOnly ownerOnly' offset htype htype' hlt
    rw [decodeCursor_encodeCursor hbase64 hlt bar_not_mem_cursorFp]
    by_cases hsame : (fileType, sort, ownerOnly) = (fileType', sort', ownerOnly')
    · obtain ⟨rfl, hrest⟩ := Prod.mk.inj hsame
      obtain ⟨rfl, rfl⟩ := Prod.mk.inj hrest
      rw [if_pos rfl, if_pos rfl]
    · rw [if_neg hsame, if_neg fun h => hsame (hdiffer.cursorFp_inj htype htype' h)]

end Walks

/-! ## Two pages -/

/-- The functions that the server is built with. -/
abbrev fipsSha256 : Sha256 := ⟨fun message => ⟨Fips180.sha256 message, Fips180.length_sha256 _⟩⟩

abbrev base64Url : Base64Url := ⟨Base64.encode, Base64.decode⟩

namespace BuiltServer

scoped instance : Sha256 := fipsSha256
scoped instance : Base64Url := base64Url

end BuiltServer

section TwoPages

open BuiltServer

def allQueryTexts : List String :=
  [none, some 1, some 2, some 3, some 4, some 5].flatMap fun fileType =>
    [ListSort.newest, .oldest].flatMap fun sort =>
      [false, true].map fun ownerOnly => queryText fileType sort ownerOnly

lemma fingerprintsDiffer : FingerprintsDiffer := by
  have hnodup : (allQueryTexts.map fun text =>
      (sha256 text.toByteArray.data.toList).toList.take 8).Nodup := by decide +kernel
  have hall : ∀ text, (∃ fileType sort ownerOnly, QueriedType fileType ∧
      text = queryText fileType sort ownerOnly) → text ∈ allQueryTexts := by
    intro text htext
    obtain ⟨fileType, sort, ownerOnly, htype, rfl⟩ := htext
    refine List.mem_flatMap.mpr ⟨fileType, htype.code, List.mem_flatMap.mpr ⟨sort, ?_, ?_⟩⟩
    · cases sort <;> simp
    · refine List.mem_map.mpr ⟨ownerOnly, ?_, rfl⟩
      cases ownerOnly <;> simp
  intro text htext text' htext' heq
  exact List.inj_on_of_nodup_map hnodup (hall text htext) (hall text' htext') heq

/-- A post of one version, with a wrap for its author. -/
def post (author : Id) : FileEntry where
  ownerId := author
  fileType := 3
  listed := true
  bundleId := none
  currentVersion := 1
  updatedAtMs := 7
  genesisBytes := []
  genesisSig := .replicate 64 0
  versions := (∅ : AList fun _ : UInt64 => VersionEntry).insert 1
    ⟨[], .replicate 64 0, true, [], [⟨author, 1, [], 1, author, [], .replicate 64 0⟩]⟩

def threePosts : FileStore :=
  (((∅ : FileStore).insert ⟨.replicate 16 1⟩ (post ⟨.replicate 16 9⟩)).insert ⟨.replicate 16 2⟩
    (post ⟨.replicate 16 9⟩)).insert ⟨.replicate 16 3⟩ (post ⟨.replicate 16 9⟩)

def twoAtATime : ListQuery := ⟨none, some 2, none, none, none, none⟩

/-- The author finds the three posts on his pages. -/
theorem walk_complete_threePosts :
    ∃ pages, Walk threePosts ⟨.replicate 16 9⟩ twoAtATime none pages ∧
      (pages.map ListRes.files).flatten =
        (twoAtATime.shown threePosts ⟨.replicate 16 9⟩ .newest false).map FileListEntry.res := by
  have hfew : (twoAtATime.shown threePosts ⟨.replicate 16 9⟩ .newest false).length < 2 ^ 32 := by
    have hentries : threePosts.entries.length < 2 ^ 32 := by decide
    exact (threePosts.length_listing_le ⟨none, 0, 0, .newest, false, _⟩).trans_lt hentries
  obtain ⟨-, -, ⟨pages, hwalk, -, hflat, -⟩, -⟩ := walk_complete Base64.decode_encode
    fingerprintsDiffer threePosts ⟨.replicate 16 9⟩ twoAtATime .newest false 2 rfl rfl rfl
    (by decide) (by decide) rfl hfew
  exact ⟨pages, hwalk, hflat⟩

end TwoPages

end MaxSecu
