import MaxSecu.App.BlobCache
import MaxSecu.Framework.Recency
import MaxSecu.Server.BlobRefs

/-!
# The two backends of the blob cache

The cache of ciphertext blobs keeps its blobs in files or in memory, and an index with their sizes and
the order of their use.  Keys are hexadecimal, and the case of their digits does not matter.

The total of the sizes is a machine word: a call whose arithmetic leaves the range ends in a panic,
which is `none` here.  Files are written, read and removed without faults.
-/

namespace MaxSecu

open AssociationList Recency

def Ns.tag : Ns → List Char
  | frag => ['f', 'r', 'a', 'g']
  | content => ['c', 'o', 'n', 't', 'e', 'n', 't']
  | card => ['c', 'a', 'r', 'd']

structure BlobKey where
  ns : Ns
  idHex : List Char
  sub : UInt32
  deriving DecidableEq

def toAsciiLowercase (s : List Char) : List Char := s.map Char.toLower

def isAsciiHexdigit (c : Char) : Bool :=
  c.isDigit || ('a' ≤ c && c ≤ 'f') || ('A' ≤ c && c ≤ 'F')

/-- An identifier has one to 64 hexadecimal digits, and is used in lower case. -/
def validatedKey (idHex : List Char) : Except String (List Char) :=
  if idHex ≠ [] ∧ idHex.length ≤ 64 ∧ idHex.all isAsciiHexdigit then pure (toAsciiLowercase idHex)
  else throw "blob cache key must be hex-only"

def blobFilename (key : BlobKey) : List Char :=
  key.ns.tag ++ '_' :: (key.idHex ++ '_' ::
    (Nat.toDigits 10 key.sub.toNat ++ ['.', 'b', 'l', 'o', 'b']))

/-! ## The backends -/

/-- Where the blobs are kept: in files of one directory, or in memory. -/
inductive Backend
  | disk (files : AList fun _ : List Char => List UInt8)
  | memory (blobs : AList fun _ : BlobKey => List UInt8)

namespace Backend

def read : Backend → BlobKey → Option (List UInt8)
  | disk files, key => files.lookup (blobFilename key)
  | memory blobs, key => blobs.lookup key

def write : Backend → BlobKey → List UInt8 → Backend
  | disk files, key, bytes => disk (files.insert (blobFilename key) bytes)
  | memory blobs, key, bytes => memory (blobs.insert key bytes)

def remove : Backend → BlobKey → Backend
  | disk files, key => disk (files.erase (blobFilename key))
  | memory blobs, key => memory (blobs.erase key)

def bytesHeld : Backend → ℕ
  | disk files => weight List.length files
  | memory blobs => weight List.length blobs

/-- There is a blob for each of the keys, and nothing else. -/
def Holds (p : BlobKey → Prop) : Backend → Prop
  | disk files => ∀ name, name ∈ files ↔ ∃ key, p key ∧ blobFilename key = name
  | memory blobs => ∀ key, key ∈ blobs ↔ p key

end Backend

lemma underscore_not_mem_tag (ns : Ns) : '_' ∉ ns.tag := by
  cases ns <;> decide

lemma underscore_not_mem_toDigits (n : ℕ) : '_' ∉ Nat.toDigits 10 n := by
  intro hmem
  have hdigit := Nat.isDigit_of_mem_toDigits (by decide) (by decide) hmem
  exact absurd hdigit (by decide)

lemma Ns.tag_inj {ns ns' : Ns} (h : ns.tag = ns'.tag) : ns = ns' := by
  cases ns <;> cases ns' <;> first | rfl | exact absurd h (by decide)

lemma append_cons_inj_of_not_mem {α : Type} {x : α} {l l' r r' : List α} (hl : x ∉ l) (hl' : x ∉ l')
    (h : l ++ x :: r = l' ++ x :: r') : l = l' ∧ r = r' := by
  induction l generalizing l' with
  | nil =>
    cases l' with
    | nil => exact ⟨rfl, (List.cons.inj h).2⟩
    | cons y l' => exact absurd (List.mem_cons.mpr (.inl (List.cons.inj h).1)) hl'
  | cons y l ih =>
    cases l' with
    | nil => exact absurd (List.mem_cons.mpr (.inl (List.cons.inj h).1.symm)) hl
    | cons y' l' =>
      obtain ⟨hhead, htail⟩ := List.cons.inj h
      rw [List.mem_cons, not_or] at hl hl'
      obtain ⟨hrest, hr⟩ := ih hl.2 hl'.2 htail
      exact ⟨by rw [hhead, hrest], hr⟩

lemma blobFilename_inj {key key' : BlobKey} (h : blobFilename key = blobFilename key') :
    key = key' := by
  unfold blobFilename at h
  obtain ⟨htag, hrest⟩ := append_cons_inj_of_not_mem (underscore_not_mem_tag key.ns)
    (underscore_not_mem_tag key'.ns) h
  -- what follows the last underscore is the number
  have hnumber : ∀ n : ℕ,
      '_' ∉ (Nat.toDigits 10 n ++ ['.', 'b', 'l', 'o', 'b']).reverse := by
    intro n hmem
    rw [List.mem_reverse, List.mem_append] at hmem
    obtain hmem | hmem := hmem
    · exact underscore_not_mem_toDigits n hmem
    · exact absurd hmem (by decide)
  have hreverse := congrArg List.reverse hrest
  rw [List.reverse_append, List.reverse_append, List.reverse_cons, List.reverse_cons,
    List.append_assoc, List.append_assoc] at hreverse
  obtain ⟨hdigits, hid⟩ := append_cons_inj_of_not_mem (hnumber key.sub.toNat)
    (hnumber key'.sub.toNat) hreverse
  have hsub := Files.toDigits_inj (List.append_cancel_right (List.reverse_injective hdigits))
  obtain ⟨ns, idHex, sub⟩ := key
  obtain ⟨ns', idHex', sub'⟩ := key'
  obtain rfl : ns = ns' := Ns.tag_inj htag
  obtain rfl : idHex = idHex' := List.reverse_injective hid
  obtain rfl : sub = sub' := UInt32.toNat_inj.mp hsub
  rfl

namespace Backend

variable {b : Backend} {key other : BlobKey} {bytes : List UInt8} {p : BlobKey → Prop}

lemma read_write :
    (b.write key bytes).read other = if other = key then some bytes else b.read other := by
  cases b with
  | disk files =>
    show (files.insert (blobFilename key) bytes).lookup (blobFilename other) = _
    rw [lookup_insert_eq]
    by_cases hother : other = key
    · rw [if_pos hother, if_pos (by rw [hother])]
    · rw [if_neg hother, if_neg fun h => hother (blobFilename_inj h)]
      rfl
  | memory blobs => exact lookup_insert_eq

lemma read_remove : (b.remove key).read other = if other = key then none else b.read other := by
  cases b with
  | disk files =>
    show (files.erase (blobFilename key)).lookup (blobFilename other) = _
    by_cases hother : other = key
    · rw [if_pos hother, hother, AList.lookup_erase]
    · rw [if_neg hother, AList.lookup_erase_ne fun h => hother (blobFilename_inj h)]
      rfl
  | memory blobs =>
    show (blobs.erase key).lookup other = _
    by_cases hother : other = key
    · rw [if_pos hother, hother, AList.lookup_erase]
    · rw [if_neg hother, AList.lookup_erase_ne hother]
      rfl

lemma bytesHeld_remove (h : b.read key = some bytes) :
    b.bytesHeld = (b.remove key).bytesHeld + bytes.length := by
  cases b with
  | disk files => exact weight_erase h
  | memory blobs => exact weight_erase h

lemma bytesHeld_write (h : b.read key = none) :
    (b.write key bytes).bytesHeld = b.bytesHeld + bytes.length := by
  cases b with
  | disk files =>
    show weight List.length (files.insert (blobFilename key) bytes) = _
    rw [weight_insert, erase_of_not_mem (AList.lookup_eq_none.mp h)]
    rfl
  | memory blobs =>
    show weight List.length (blobs.insert key bytes) = _
    rw [weight_insert, erase_of_not_mem (AList.lookup_eq_none.mp h)]
    rfl

lemma Holds.isSome_read (h : b.Holds p) : (b.read key).isSome ↔ p key := by
  cases b with
  | disk files =>
    show (files.lookup (blobFilename key)).isSome ↔ _
    rw [AList.lookup_isSome, h]
    constructor
    · intro ⟨key', hp, hname⟩
      rwa [← blobFilename_inj hname]
    · intro hp
      exact ⟨key, hp, rfl⟩
  | memory blobs =>
    show (blobs.lookup key).isSome ↔ _
    rw [AList.lookup_isSome]
    exact h key

lemma Holds.congr {q : BlobKey → Prop} (h : b.Holds p) (hpq : ∀ key, p key ↔ q key) :
    b.Holds q := by
  obtain rfl : p = q := funext fun key => propext (hpq key)
  exact h

lemma Holds.remove (h : b.Holds p) (key : BlobKey) :
    (b.remove key).Holds fun k => k ≠ key ∧ p k := by
  cases b with
  | disk files =>
    intro name
    rw [AList.mem_erase, h]
    constructor
    · intro ⟨hne, key', hp, hname⟩
      refine ⟨key', ⟨?_, hp⟩, hname⟩
      intro hkey
      exact hne (by rw [← hname, hkey])
    · intro ⟨key', ⟨hkey, hp⟩, hname⟩
      refine ⟨?_, key', hp, hname⟩
      intro hsame
      exact hkey (blobFilename_inj (hname.trans hsame))
  | memory blobs =>
    intro k
    rw [AList.mem_erase, h]

lemma Holds.write (h : b.Holds p) (key : BlobKey) (bytes : List UInt8) :
    (b.write key bytes).Holds fun k => k = key ∨ p k := by
  cases b with
  | disk files =>
    intro name
    rw [AList.mem_insert, h]
    constructor
    · rintro (rfl | ⟨key', hp, hname⟩)
      · exact ⟨key, .inl rfl, rfl⟩
      · exact ⟨key', .inr hp, hname⟩
    · rintro ⟨key', rfl | hp, hname⟩
      · exact .inl hname.symm
      · exact .inr ⟨key', hp, hname⟩
  | memory blobs =>
    intro k
    rw [AList.mem_insert, h]

end Backend

/-! ## The cache -/

/-- The size of a blob, and when it was used last. -/
structure BlobEntry where
  sizeBytes : ℕ
  lastUsed : ℕ
  deriving DecidableEq

/-- Without a cap nothing is evicted for room. -/
structure BackedCache where
  backend : Backend
  cap : Option ℕ
  totalBytes : ℕ
  tick : ℕ
  index : AList fun _ : BlobKey => BlobEntry

def addU64 (a b : ℕ) : Option ℕ := if a + b < 2 ^ 64 then some (a + b) else none

namespace BackedCache

/-- The directory is emptied before it is used. -/
def openDisk (cap : Option ℕ) : BackedCache := ⟨.disk ∅, cap, 0, 0, ∅⟩

def openMemory (cap : Option ℕ) : BackedCache := ⟨.memory ∅, cap, 0, 0, ∅⟩

def removeEntry (c : BackedCache) (key : BlobKey) : BackedCache :=
  match c.index.lookup key with
  | none => c
  | some e =>
    { c with
      backend := c.backend.remove key
      totalBytes := c.totalBytes - e.sizeBytes
      index := c.index.erase key }

def removeAll (keys : List BlobKey) (c : BackedCache) : BackedCache := keys.foldl removeEntry c

/-- Evict the least recently used entry, if there is one. -/
def evictOne (c : BackedCache) : Option BackedCache :=
  (c.index.entries.argmin fun e => e.2.lastUsed).map fun e => c.removeEntry e.1

/-- Evict while the total is over the limit, which is itself a sum that may leave the range.  Each
round removes an entry, and the last one finds none. -/
def evictWhile (tooMany : ℕ → Option Bool) : ℕ → BackedCache → Option BackedCache
  | 0, c => some c
  | rounds + 1, c => do
    if ← tooMany c.totalBytes then
      match c.evictOne with
      | some c' => evictWhile tooMany rounds c'
      | none => some c
    else some c

/-- Whether so many more bytes exceed the cap. -/
def exceeds (cap : Option ℕ) (size total : ℕ) : Option Bool :=
  cap.elim (some false) fun cap => (addU64 total size).map (cap < ·)

/-- Keep the bytes of a key, which is now the most recently used. -/
def keep (c : BackedCache) (key : BlobKey) (ciphertext : List UInt8) (total : ℕ) : BackedCache :=
  { c with
    backend := c.backend.write key ciphertext
    totalBytes := total
    tick := c.tick + 1
    index := c.index.insert key ⟨ciphertext.length, c.tick + 1⟩ }

/-- Store a blob in the place of what was there.  One that is larger than the cap is not cached. -/
def put (c : BackedCache) (ns : Ns) (idHex : List Char) (sub : UInt32) (ciphertext : List UInt8) :
    Option (Except String Unit × BackedCache) :=
  match validatedKey idHex with
  | .error e => some (.error e, c)
  | .ok id =>
    let key : BlobKey := ⟨ns, id, sub⟩
    let c := c.removeEntry key
    if c.cap.any (· < ciphertext.length) then some (.ok (), c)
    else do
      let c ← evictWhile (exceeds c.cap ciphertext.length) (c.index.entries.length + 1) c
      let total ← addU64 c.totalBytes ciphertext.length
      some (.ok (), c.keep key ciphertext total)

/-- The bytes of a key.  An entry whose file cannot be read is dropped. -/
def get (c : BackedCache) (ns : Ns) (idHex : List Char) (sub : UInt32) :
    Option (List UInt8) × BackedCache :=
  match validatedKey idHex with
  | .error _ => (none, c)
  | .ok id =>
    let key : BlobKey := ⟨ns, id, sub⟩
    if key ∈ c.index then
      match c.backend.read key, c.backend with
      | some bytes, _ =>
        (some bytes,
          { c with
            tick := c.tick + 1
            index := adjust key (fun e => { e with lastUsed := c.tick + 1 }) c.index })
      | none, .disk _ => (none, c.removeEntry key)
      | none, .memory _ => (none, c)
    else (none, c)

/-- Take another cap, and evict until the blobs fit. -/
def setCap (c : BackedCache) (newCap : ℕ) : Option BackedCache :=
  evictWhile (fun total => some (newCap < total)) (c.index.entries.length + 1)
    { c with cap := some newCap }

def evict (c : BackedCache) (ns : Ns) (idHex : List Char) (sub : UInt32) : BackedCache :=
  match validatedKey idHex with
  | .error _ => c
  | .ok id => c.removeEntry ⟨ns, id, sub⟩

/-- Drop all that is kept of an identifier. -/
def evictPrefix (c : BackedCache) (ns : Ns) (idHex : List Char) : BackedCache :=
  let id := toAsciiLowercase idHex
  c.removeAll (c.index.keys.filter fun k => k.ns = ns ∧ k.idHex = id)

def clearAndZeroize (c : BackedCache) : BackedCache :=
  { c.removeAll c.index.keys with totalBytes := 0 }

end BackedCache

/-! ## Calls and runs -/

inductive BlobOp
  | put (ns : Ns) (idHex : List Char) (sub : UInt32) (ciphertext : List UInt8)
  | get (ns : Ns) (idHex : List Char) (sub : UInt32)
  | setCap (newCap : ℕ)
  | evict (ns : Ns) (idHex : List Char) (sub : UInt32)
  | evictPrefix (ns : Ns) (idHex : List Char)
  | clearAndZeroize

inductive BlobAnswer
  | put (result : Except String Unit)
  | get (result : Option (List UInt8))
  | done

namespace BackedCache

/-- One call, unless it ends in a panic. -/
def step (c : BackedCache) : BlobOp → Option (BlobAnswer × BackedCache)
  | .put ns idHex sub ciphertext =>
    (c.put ns idHex sub ciphertext).map fun x => (.put x.1, x.2)
  | .get ns idHex sub => some (.get (c.get ns idHex sub).1, (c.get ns idHex sub).2)
  | .setCap newCap => (c.setCap newCap).map fun c => (.done, c)
  | .evict ns idHex sub => some (.done, c.evict ns idHex sub)
  | .evictPrefix ns idHex => some (.done, c.evictPrefix ns idHex)
  | .clearAndZeroize => some (.done, c.clearAndZeroize)

def run (c : BackedCache) (ops : List BlobOp) : Option (List BlobAnswer × BackedCache) :=
  ops.foldlM (fun (answers, c) op => (c.step op).map fun (answer, c) => (answers ++ [answer], c))
    ([], c)

end BackedCache

/-- The key of an identifier, if that is valid. -/
def blobKey (ns : Ns) (idHex : List Char) (sub : UInt32) : Option BlobKey :=
  (validatedKey idHex).toOption.map fun id => ⟨ns, id, sub⟩

namespace BlobOp

def used : BlobOp → Option BlobKey
  | put ns idHex sub _ => blobKey ns idHex sub
  | get ns idHex sub => blobKey ns idHex sub
  | _ => none

def putUnder (key : BlobKey) : BlobOp → Option (List UInt8)
  | put ns idHex sub ciphertext => if blobKey ns idHex sub = some key then some ciphertext else none
  | _ => none

def removes (key : BlobKey) : BlobOp → Bool
  | evict ns idHex sub => blobKey ns idHex sub = some key
  | evictPrefix ns idHex => key.ns = ns ∧ key.idHex = toAsciiLowercase idHex
  | clearAndZeroize => true
  | _ => false

end BlobOp

namespace BackedCache

variable {c c' d : BackedCache} {key other : BlobKey} {bytes : List UInt8} {keys : List BlobKey}

/-- The backend holds the indexed blobs, in their sizes, and the total is right. -/
structure Consistent (c : BackedCache) : Prop where
  holds : c.backend.Holds (· ∈ c.index)
  sizes : ∀ key, (c.backend.read key).map List.length =
    (c.index.lookup key).map BlobEntry.sizeBytes
  held : c.backend.bytesHeld = c.totalBytes
  counts : c.totalBytes = weight BlobEntry.sizeBytes c.index

/-! ### Removing entries -/

@[simp] lemma index_removeEntry : (c.removeEntry key).index = c.index.erase key := by
  unfold removeEntry
  cases hlookup : c.index.lookup key with
  | none => exact (erase_of_not_mem (AList.lookup_eq_none.mp hlookup)).symm
  | some e => rfl

@[simp] lemma cap_removeEntry : (c.removeEntry key).cap = c.cap := by
  unfold removeEntry
  cases c.index.lookup key <;> rfl

@[simp] lemma tick_removeEntry : (c.removeEntry key).tick = c.tick := by
  unfold removeEntry
  cases c.index.lookup key <;> rfl

lemma totalBytes_removeEntry_le : (c.removeEntry key).totalBytes ≤ c.totalBytes := by
  unfold removeEntry
  cases c.index.lookup key with
  | none => exact le_rfl
  | some e => exact Nat.sub_le _ _

lemma Consistent.read_of_lookup {e : BlobEntry} (h : c.Consistent)
    (he : c.index.lookup key = some e) :
    ∃ bytes, c.backend.read key = some bytes ∧ bytes.length = e.sizeBytes := by
  have hsize := h.sizes key
  rw [he] at hsize
  exact Option.map_eq_some_iff.mp hsize

lemma Consistent.read_eq_none (h : c.Consistent) (hkey : key ∉ c.index) :
    c.backend.read key = none := by
  have hsize := h.sizes key
  rw [AList.lookup_eq_none.mpr hkey] at hsize
  exact Option.map_eq_none_iff.mp hsize

lemma Consistent.read_removeEntry (h : c.Consistent) :
    (c.removeEntry key).backend.read other =
      if other = key then none else c.backend.read other := by
  unfold removeEntry
  cases hlookup : c.index.lookup key with
  | none =>
    by_cases hother : other = key
    · rw [if_pos hother, hother]
      exact h.read_eq_none (AList.lookup_eq_none.mp hlookup)
    · rw [if_neg hother]
  | some e => exact Backend.read_remove

lemma Consistent.removeEntry (h : c.Consistent) (key : BlobKey) :
    (c.removeEntry key).Consistent := by
  cases hlookup : c.index.lookup key with
  | none =>
    have hsame : c.removeEntry key = c := by
      unfold BackedCache.removeEntry
      rw [hlookup]
    rw [hsame]
    exact h
  | some e =>
    obtain ⟨bytes, hread, hlength⟩ := h.read_of_lookup hlookup
    have hnext : c.removeEntry key =
        { c with
          backend := c.backend.remove key
          totalBytes := c.totalBytes - e.sizeBytes
          index := c.index.erase key } := by
      unfold BackedCache.removeEntry
      rw [hlookup]
    have hheld := Backend.bytesHeld_remove hread
    have hweight : weight BlobEntry.sizeBytes c.index =
        weight BlobEntry.sizeBytes (c.index.erase key) + e.sizeBytes := weight_erase hlookup
    have hcounts := h.counts
    have hsame := h.held
    rw [hnext]
    refine ⟨?_, ?_, ?_, ?_⟩
    · refine (h.holds.remove key).congr fun k => ?_
      rw [AList.mem_erase]
    · intro other
      show ((c.backend.remove key).read other).map _ = ((c.index.erase key).lookup other).map _
      rw [Backend.read_remove]
      by_cases hother : other = key
      · rw [if_pos hother, hother, AList.lookup_erase]
        rfl
      · rw [if_neg hother, AList.lookup_erase_ne hother]
        exact h.sizes other
    · show (c.backend.remove key).bytesHeld = c.totalBytes - e.sizeBytes
      omega
    · show c.totalBytes - e.sizeBytes = weight BlobEntry.sizeBytes (c.index.erase key)
      omega

@[simp] lemma index_removeAll : (c.removeAll keys).index = eraseAll keys c.index := by
  induction keys generalizing c with
  | nil => rfl
  | cons k keys ih =>
    show ((c.removeEntry k).removeAll keys).index = _
    rw [ih, index_removeEntry, eraseAll_cons]

@[simp] lemma cap_removeAll : (c.removeAll keys).cap = c.cap := by
  induction keys generalizing c with
  | nil => rfl
  | cons k keys ih => exact ih.trans cap_removeEntry

@[simp] lemma tick_removeAll : (c.removeAll keys).tick = c.tick := by
  induction keys generalizing c with
  | nil => rfl
  | cons k keys ih => exact ih.trans tick_removeEntry

lemma totalBytes_removeAll_le : (c.removeAll keys).totalBytes ≤ c.totalBytes := by
  induction keys generalizing c with
  | nil => exact le_rfl
  | cons k keys ih => exact ih.trans totalBytes_removeEntry_le

lemma Consistent.removeAll (h : c.Consistent) (keys : List BlobKey) :
    (c.removeAll keys).Consistent := by
  induction keys generalizing c with
  | nil => exact h
  | cons k keys ih => exact ih (h.removeEntry k)

lemma Consistent.read_removeAll (h : c.Consistent) :
    (c.removeAll keys).backend.read other =
      if other ∈ keys then none else c.backend.read other := by
  induction keys generalizing c with
  | nil => simp [BackedCache.removeAll]
  | cons k keys ih =>
    show ((c.removeEntry k).removeAll keys).backend.read other = _
    rw [ih (h.removeEntry k), h.read_removeEntry]
    by_cases hk : other = k
    · simp [hk]
    · simp [hk]

/-! ### Making room -/

lemma Consistent.evictWhile {tooMany : ℕ → Option Bool} {capacity : ℕ} (rounds : ℕ)
    (h : c.Consistent)
    (htest : ∀ total ≤ c.totalBytes, tooMany total = some (decide (capacity < total)))
    (hrounds : c.index.entries.length < rounds) :
    ∃ victims, BackedCache.evictWhile tooMany rounds c = some (c.removeAll victims) ∧
      Drains BlobEntry.sizeBytes BlobEntry.lastUsed capacity (fun _ _ => True) c.index victims
        (eraseAll victims c.index) := by
  induction rounds generalizing c with
  | zero => exact absurd hrounds (Nat.not_lt_zero _)
  | succ rounds ih =>
    unfold BackedCache.evictWhile
    rw [htest c.totalBytes le_rfl, Option.bind_eq_bind, Option.bind_some]
    by_cases hover : capacity < c.totalBytes
    · rw [if_pos (decide_eq_true hover)]
      cases hleast : c.index.entries.argmin fun e => e.2.lastUsed with
      | none =>
        have hempty := List.argmin_eq_none.mp hleast
        have htotal := h.counts
        unfold weight at htotal
        rw [hempty] at htotal
        exact absurd hover (by rw [htotal]; exact Nat.not_lt_zero _)
      | some victim =>
        have hmem : victim ∈ c.index.entries := List.argmin_mem hleast
        have hlookup : c.index.lookup victim.1 = some victim.2 := AList.mem_lookup_iff.mpr hmem
        have hone : c.evictOne = some (c.removeEntry victim.1) := by
          unfold evictOne
          rw [hleast]
          rfl
        have hfewer := length_entries_erase (mem_iff_lookup.mpr ⟨_, hlookup⟩)
        obtain ⟨victims, hrest, hdrains⟩ := ih (h.removeEntry victim.1)
          (fun total htotal => htest total (htotal.trans totalBytes_removeEntry_le))
          (by rw [index_removeEntry]; omega)
        refine ⟨victim.1 :: victims, ?_, ?_⟩
        · rw [hone]
          exact hrest
        · rw [index_removeEntry] at hdrains
          refine .drop ?_ hlookup trivial (fun a d hd _ => ?_) hdrains
          · rw [← h.counts]
            exact hover
          · exact List.le_of_mem_argmin (f := fun e : Sigma fun _ : BlobKey => BlobEntry =>
              e.2.lastUsed) (AList.mem_lookup_iff.mp hd) hleast
    · rw [if_neg (by simpa using hover)]
      refine ⟨[], rfl, .stop (.inl ?_)⟩
      rw [← h.counts]
      exact Nat.le_of_not_lt hover

/-- The victims that go so that so many more bytes fit. -/
def Drained (cap : Option ℕ) (size : ℕ) (m : AList fun _ : BlobKey => BlobEntry)
    (victims : List BlobKey) : Prop :=
  cap.elim (victims = []) fun cap =>
    Drains BlobEntry.sizeBytes BlobEntry.lastUsed (cap - size) (fun _ _ => True) m victims
      (eraseAll victims m)

lemma Consistent.makeRoom {size : ℕ} (h : c.Consistent) (hsize : ¬ c.cap.any (· < size))
    (hrange : c.totalBytes + size < 2 ^ 64) :
    ∃ victims, BackedCache.evictWhile (exceeds c.cap size) (c.index.entries.length + 1) c =
      some (c.removeAll victims) ∧ Drained c.cap size c.index victims := by
  cases hcap : c.cap with
  | none => exact ⟨[], rfl, rfl⟩
  | some cap =>
    rw [hcap] at hsize
    have hle : size ≤ cap := by simpa using hsize
    refine h.evictWhile _ (fun total htotal => ?_) (Nat.lt_succ_self _)
    unfold exceeds addU64
    rw [Option.elim_some, if_pos (by omega), Option.map_some]
    congr 2
    exact propext (by omega)

lemma evictWhile_overflow {cap size rounds : ℕ} (hrange : 2 ^ 64 ≤ c.totalBytes + size) :
    evictWhile (exceeds (some cap) size) (rounds + 1) c = none := by
  unfold evictWhile exceeds addU64
  rw [Option.elim_some, if_neg (by omega)]
  rfl

lemma Consistent.keep (h : c.Consistent) (hkey : key ∉ c.index) :
    (c.keep key bytes (c.totalBytes + bytes.length)).Consistent := by
  have hread := h.read_eq_none hkey
  refine ⟨?_, ?_, ?_, ?_⟩
  · refine (h.holds.write key bytes).congr fun k => ?_
    show _ ↔ k ∈ c.index.insert key _
    rw [AList.mem_insert]
  · intro other
    show ((c.backend.write key bytes).read other).map _ = ((c.index.insert key _).lookup other).map _
    rw [Backend.read_write, lookup_insert_eq]
    by_cases hother : other = key
    · rw [if_pos hother, if_pos hother]
      rfl
    · rw [if_neg hother, if_neg hother]
      exact h.sizes other
  · show (c.backend.write key bytes).bytesHeld = _
    rw [Backend.bytesHeld_write hread, h.held]
    rfl
  · show c.totalBytes + bytes.length = weight BlobEntry.sizeBytes (c.index.insert key _)
    rw [weight_insert, erase_of_not_mem hkey, h.counts]

end BackedCache

end MaxSecu
