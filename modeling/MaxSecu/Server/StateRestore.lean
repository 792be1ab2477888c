import MaxSecu.Server.BackupSealing
import MaxSecu.Server.UsernameIdentity

/-!
# The state component

The state of a server is some files.  Their bytes are put one after the other into the payload of the
component, and the index has their paths, lengths and digests; on a restore the payload is cut back and
each piece is written below a staging folder.

A path is text, and so in normal form C.  `restoreState_exact` says that a backup restores to exactly
the files it was made of, each at the normal form of its path, and that no bundle writes outside the
folder or gets away with a piece that is not what the index says.
-/

namespace MaxSecu

namespace Bundles

open ExceptRules
open Sanitize (FsPath PathComponent Platform components join)

section Model

variable [UnicodeNormalization] [Sha256]

structure StateFile where
  path : String
  bytes : List UInt8

/-- The entries of the files and their bytes, one after the other. -/
def collectState : List StateFile → Except BackupError (List BackupEntry × List UInt8)
  | [] => pure ([], [])
  | sf :: files => do
    let path ← (Text.new sf.path).mapError .decode
    let (entries, payload) ← collectState files
    pure (⟨path, UInt64.ofNat sf.bytes.length, ⟨sha256 sf.bytes⟩⟩ :: entries, sf.bytes ++ payload)

/-- What a backup of the state is made with, and its files.  They are read into memory. -/
structure StateBackup where
  passphrase : String
  stamp : String
  gitSha : Option String
  files : List StateFile
  argon : Argon2Params
  partSize : ℕ
  createdAt : UInt64
  fits : (files.map (·.bytes.length)).sum < 2 ^ 63

def StateBackup.request (req : StateBackup) (entries : List BackupEntry) (payload : List UInt8) :
    SealRequest :=
  ⟨req.passphrase, req.stamp, req.gitSha, .state, entries, payload, req.argon, req.partSize,
    req.createdAt⟩

def backupState [Argon2id] [Aes256GcmSeal] (req : StateBackup) (rand : SealEntropy)
    (put : UInt32 → Option BlobError) (c : Content) : Except BackupError BundleMeta × Content :=
  match (do validateStamp req.stamp; checkPartSize req.partSize; collectState req.files) with
  | .error e => (.error e, c)
  | .ok (entries, payload) => sealComponent (req.request entries payload) rand put c

/-- A path below a folder, if it has names only. -/
def safeRelativeJoin (platform : Platform) (base : FsPath) (rel : String) :
    Except BackupError FsPath :=
  if (components platform rel.toList).all isNormal then pure (join base (components platform rel.toList))
  else throw (.unsafeEntryPath rel)

abbrev Disk := FsPath → Option (List UInt8)

/-- How writing a file fails: before it is opened, or after so many bytes. -/
inductive WriteFault
  | opening
  | partway (written : ℕ)

/-- Write a file; the folder itself is none. -/
def writeState (stateDir dest : FsPath) (bytes : List UInt8) (fault : Option WriteFault)
    (disk : Disk) : Except BackupError Unit × Disk :=
  if dest = stateDir then (.error .io, disk)
  else
    match fault with
    | none => (.ok (), Function.update disk dest (some bytes))
    | some .opening => (.error .io, disk)
    | some (.partway n) => (.error .io, Function.update disk dest (some (bytes.take n)))

/-- Write the entries from the `i`-th on, whose bytes begin at an offset. -/
def restoreEntries (platform : Platform) (stateDir : FsPath) (payload : List UInt8)
    (fault : ℕ → Option WriteFault) : ℕ → ℕ → List BackupEntry → Disk →
    Except BackupError (List String) × Disk
  | _, _, [], disk => (.ok [], disk)
  | i, off, e :: entries, disk =>
    let fin := off + e.len.toNat
    if 2 ^ 64 ≤ fin then (.error .malformedPayload, disk)
    else if fin > payload.length then (.error .malformedPayload, disk)
    else
      let bytes := (payload.drop off).take e.len.toNat
      if sha256 bytes ≠ e.digest.bytes then (.error (.entryDigestMismatch e.path.str), disk)
      else
        match safeRelativeJoin platform stateDir e.path.str with
        | .error err => (.error err, disk)
        | .ok dest =>
          match writeState stateDir dest bytes (fault i) disk with
          | (.error err, disk) => (.error err, disk)
          | (.ok (), disk) =>
            match restoreEntries platform stateDir payload fault (i + 1) fin entries disk with
            | (.error err, disk) => (.error err, disk)
            | (.ok paths, disk) => (.ok (e.path.str :: paths), disk)

def stateDirOf (staging : FsPath) : FsPath := join staging [.normal "state".toList]

/-- Restore the state component of a backup below the staging folder. -/
def restoreState [Argon2id] [Aes256Gcm] (platform : Platform) (staging : FsPath) (read : Reads)
    (passphrase stamp : String) (fault : ℕ → Option WriteFault) (disk : Disk) :
    Except BackupError (List String) × Disk :=
  match openComponent read passphrase stamp .state with
  | .error e => (.error e, disk)
  | .ok (bundle, payload) =>
    restoreEntries platform (stateDirOf staging) payload fault 0 0 bundle.entries disk

end Model

/-! ## Where a restore writes -/

section Contained

variable [UnicodeNormalization] [Sha256] {platform : Platform} {base dest stateDir path : FsPath}
  {rel : String} {payload bytes : List UInt8} {fault : ℕ → Option WriteFault} {disk disk' : Disk}
  {entries : List BackupEntry} {i off : ℕ}

omit [UnicodeNormalization] [Sha256] in
lemma join_names (hbase : base ≠ []) {names : FsPath} (hnames : names.all isNormal = true) :
    join base names = base ++ names := by
  have hkeep : names.filter (· ≠ .curDir) = names := by
    refine List.filter_eq_self.mpr fun c hc => decide_eq_true fun heq => ?_
    have hnormal := List.all_eq_true.mp hnames c hc
    rw [heq] at hnormal
    cases hnormal
  cases names with
  | nil =>
    unfold join
    rw [if_neg hbase, List.filter_nil]
  | cons c names =>
    have hfirst : isNormal c = true := List.all_eq_true.mp hnames c List.mem_cons_self
    cases c with
    | normal name =>
      unfold join
      dsimp only
      rw [if_neg hbase, hkeep]
    | volume raw => cases hfirst
    | rootDir => cases hfirst
    | curDir => cases hfirst
    | parentDir => cases hfirst

omit [UnicodeNormalization] [Sha256] in
lemma safeRelativeJoin_ok (hbase : base ≠ []) (h : safeRelativeJoin platform base rel = .ok dest) :
    dest = base ++ components platform rel.toList := by
  unfold safeRelativeJoin at h
  split at h
  · rename_i hnames
    rw [← pure_eq_ok.mp h, join_names hbase hnames]
  · cases h

def Below (folder path : FsPath) : Prop := folder <+: path ∧ path ≠ folder

omit [UnicodeNormalization] [Sha256] in
lemma writeState_of_not_below (hdest : stateDir <+: dest) (hpath : ¬ Below stateDir path)
    (fault : Option WriteFault) : (writeState stateDir dest bytes fault disk).2 path = disk path := by
  unfold writeState
  by_cases hfolder : dest = stateDir
  · rw [if_pos hfolder]
  · have hne : path ≠ dest := fun heq => hpath ⟨heq ▸ hdest, heq ▸ hfolder⟩
    rw [if_neg hfolder]
    cases fault with
    | none => exact Function.update_of_ne hne _ _
    | some fault =>
      cases fault with
      | opening => rfl
      | partway n => exact Function.update_of_ne hne _ _

lemma restoreEntries_of_not_below (hdir : stateDir ≠ []) (hpath : ¬ Below stateDir path) :
    (restoreEntries platform stateDir payload fault i off entries disk).2 path = disk path := by
  induction entries generalizing i off disk with
  | nil => rfl
  | cons e entries ih =>
    unfold restoreEntries
    dsimp only
    split
    · rfl
    · split
      · rfl
      · split
        · rfl
        · cases hjoin : safeRelativeJoin platform stateDir e.path.str with
          | error err => rfl
          | ok dest =>
            have hdest : stateDir <+: dest := by
              rw [safeRelativeJoin_ok hdir hjoin]
              exact List.prefix_append _ _
            have hstep : (writeState stateDir dest ((payload.drop off).take e.len.toNat) (fault i)
                disk).2 path = disk path :=
              writeState_of_not_below hdest hpath (fault i)
            dsimp only
            cases hwrite : writeState stateDir dest ((payload.drop off).take e.len.toNat) (fault i)
                disk with
            | mk result disk' =>
              rw [hwrite] at hstep
              cases result with
              | error err => exact hstep
              | ok =>
                have hrest := @ih disk' (i + 1) (off + e.len.toNat)
                dsimp only
                cases hrun : restoreEntries platform stateDir payload fault (i + 1)
                    (off + e.len.toNat) entries disk' with
                | mk result disk'' =>
                  rw [hrun] at hrest
                  cases result with
                  | error err => exact hrest.trans hstep
                  | ok paths => exact hrest.trans hstep

end Contained

/-! ## What a restore fails on -/

section Mismatch

variable [UnicodeNormalization] [Sha256] {platform : Platform} {stateDir : FsPath}
  {payload : List UInt8} {fault : ℕ → Option WriteFault} {disk : Disk} {entries : List BackupEntry}
  {e : BackupEntry} {i off k : ℕ}

/-- The slice of the payload that begins at an offset is what the entry says. -/
def SliceMatches (payload : List UInt8) (off : ℕ) (e : BackupEntry) : Prop :=
  off + e.len.toNat ≤ payload.length ∧
    sha256 ((payload.drop off).take e.len.toNat) = e.digest.bytes

/-- Where the slice of the `k`-th entry begins. -/
def offsetOf (entries : List BackupEntry) (k : ℕ) : ℕ :=
  ((entries.take k).map fun e => e.len.toNat).sum

omit [Sha256] in
lemma offsetOf_succ (e : BackupEntry) (entries : List BackupEntry) (k : ℕ) :
    offsetOf (e :: entries) (k + 1) = e.len.toNat + offsetOf entries k := by
  unfold offsetOf
  rw [List.take_succ_cons, List.map_cons, List.sum_cons]

lemma sliceMatches_of_restoreEntries {paths : List String}
    (h : (restoreEntries platform stateDir payload fault i off entries disk).1 = .ok paths)
    (hk : entries[k]? = some e) : SliceMatches payload (off + offsetOf entries k) e := by
  induction entries generalizing i off k disk paths with
  | nil => simp at hk
  | cons first entries ih =>
    unfold restoreEntries at h
    dsimp only at h
    split at h
    · cases h
    · split at h
      · cases h
      · rename_i hfits
        split at h
        · cases h
        · rename_i hdigest
          cases k with
          | zero =>
            obtain rfl : first = e := Option.some.inj hk
            exact ⟨not_lt.mp hfits, not_not.mp hdigest⟩
          | succ k =>
            have hrest : ∃ (disk' : Disk) (paths' : List String), (restoreEntries platform stateDir
                payload fault (i + 1) (off + first.len.toNat) entries disk').1 = .ok paths' := by
              split at h
              · cases h
              · split at h
                · cases h
                · rename_i disk' _
                  split at h
                  · cases h
                  · rename_i paths' disk'' hrun
                    exact ⟨disk', paths', by rw [hrun]⟩
            obtain ⟨disk', paths', hrest⟩ := hrest
            rw [offsetOf_succ, ← Nat.add_assoc]
            exact ih hrest hk

end Mismatch

/-! ## A backup restores -/

section RoundTrip

variable [UnicodeNormalization] [Sha256] {platform : Platform} {stateDir : FsPath}
  {files : List StateFile} {entries : List BackupEntry} {payload before : List UInt8} {disk : Disk}
  {i : ℕ}

open UnicodeNormalization (nfc)

/-- A path of names only that ends in a name. -/
structure IsStatePath (platform : Platform) (rel : String) : Prop where
  nonempty : components platform rel.toList ≠ []
  names : (components platform rel.toList).all isNormal = true
  last : ∃ name, (rel.toList.splitOnP platform.isSeparator).getLast?.bind Sanitize.ofSegment =
    some (.normal name)

/-- Paths of the files of a tree: none of them is another one or a folder of another one. -/
structure IsTree (platform : Platform) (paths : List String) : Prop where
  named : ∀ rel ∈ paths, IsStatePath platform rel
  apart : paths.Pairwise fun p q =>
    ¬ components platform p.toList <+: components platform q.toList ∧
      ¬ components platform q.toList <+: components platform p.toList

def stateDest (platform : Platform) (stateDir : FsPath) (rel : String) : FsPath :=
  stateDir ++ components platform rel.toList

structure EntryOf (sf : StateFile) (e : BackupEntry) : Prop where
  path : e.path.str = nfc sf.path
  len : e.len = UInt64.ofNat sf.bytes.length
  digest : e.digest.bytes = sha256 sf.bytes

lemma collectState_ok (h : collectState files = .ok (entries, payload)) :
    List.Forall₂ EntryOf files entries ∧ payload = (files.map (·.bytes)).flatten := by
  induction files generalizing entries payload with
  | nil =>
    obtain ⟨rfl, rfl⟩ := Prod.mk.inj (pure_eq_ok.mp h)
    exact ⟨.nil, rfl⟩
  | cons sf files ih =>
    obtain ⟨path, hpath, h⟩ := bind_eq_ok.mp h
    obtain ⟨⟨rest, tail⟩, hrest, h⟩ := bind_eq_ok.mp h
    obtain ⟨rfl, rfl⟩ := Prod.mk.inj (pure_eq_ok.mp h)
    obtain ⟨hentries, rfl⟩ := ih hrest
    refine ⟨.cons ⟨?_, rfl, rfl⟩ hentries, rfl⟩
    have hnew := mapError_eq_ok.mp hpath
    unfold Text.new at hnew
    split at hnew
    · cases hnew
    · exact congrArg Text.str (Except.ok.inj hnew).symm

omit [UnicodeNormalization] [Sha256] in
lemma safeRelativeJoin_of_names {rel : String} (hdir : stateDir ≠ [])
    (hnames : (components platform rel.toList).all isNormal = true) :
    safeRelativeJoin platform stateDir rel = .ok (stateDest platform stateDir rel) := by
  unfold safeRelativeJoin stateDest
  rw [if_pos hnames, join_names hdir hnames]
  rfl

omit [UnicodeNormalization] [Sha256] in
lemma stateDest_ne_self {rel : String} (h : IsStatePath platform rel) :
    stateDest platform stateDir rel ≠ stateDir := by
  unfold stateDest
  intro heq
  exact h.nonempty (List.append_right_eq_self.mp heq)

omit [UnicodeNormalization] [Sha256] in
lemma stateDest_inj {rel rel' : String}
    (h : stateDest platform stateDir rel = stateDest platform stateDir rel') :
    components platform rel.toList = components platform rel'.toList :=
  List.append_cancel_left h

lemma restoreEntries_collected (hdir : stateDir ≠ []) (hentries : List.Forall₂ EntryOf files entries)
    (htree : IsTree platform (files.map fun sf => nfc sf.path))
    (hfits : before.length + (files.map (·.bytes.length)).sum < 2 ^ 64) :
    ∃ disk', restoreEntries platform stateDir (before ++ (files.map (·.bytes)).flatten)
        (fun _ => none) i before.length entries disk = (.ok (files.map fun sf => nfc sf.path), disk') ∧
      (∀ sf ∈ files, disk' (stateDest platform stateDir (nfc sf.path)) = some sf.bytes) ∧
      ∀ path, (∀ sf ∈ files, path ≠ stateDest platform stateDir (nfc sf.path)) →
        disk' path = disk path := by
  induction hentries generalizing before i disk with
  | nil => exact ⟨disk, rfl, fun sf hsf => absurd hsf List.not_mem_nil, fun _ _ => rfl⟩
  | @cons sf e files entries he _ ih =>
    rw [List.map_cons] at htree
    rw [List.map_cons, List.sum_cons] at hfits
    have hpath : IsStatePath platform (nfc sf.path) := htree.named _ List.mem_cons_self
    obtain ⟨hapart, hpairwise⟩ := List.pairwise_cons.mp htree.apart
    have hlen : e.len.toNat = sf.bytes.length := by
      rw [he.len]
      exact UInt64.toNat_ofNat_of_lt' (by show sf.bytes.length < 2 ^ 64; omega)
    have hslice : ((before ++ (sf.bytes ++ (files.map (·.bytes)).flatten)).drop before.length).take
        sf.bytes.length = sf.bytes := by
      rw [List.drop_left, List.take_left]
    obtain ⟨disk', hrest, hwritten, hkept⟩ := @ih (before ++ sf.bytes)
      (Function.update disk (stateDest platform stateDir (nfc sf.path)) (some sf.bytes)) (i + 1)
      ⟨fun rel hrel => htree.named rel (List.mem_cons_of_mem _ hrel), hpairwise⟩
      (by rw [List.length_append]; omega)
    rw [List.length_append, List.append_assoc] at hrest
    refine ⟨disk', ?_, ?_, fun path hpath' => ?_⟩
    · unfold restoreEntries writeState
      dsimp only
      rw [List.map_cons, List.map_cons, List.flatten_cons, hlen, hslice, he.digest, he.path,
        safeRelativeJoin_of_names hdir hpath.names, if_neg (by omega), if_neg (by simp),
        if_neg (not_not.mpr rfl)]
      dsimp only
      rw [if_neg (stateDest_ne_self hpath)]
      dsimp only
      rw [hrest]
    · intro other hother
      rcases List.mem_cons.mp hother with rfl | hother
      · rw [hkept _ fun sf' hsf' heq => ?_, Function.update_self]
        have hne := hapart _ (List.mem_map_of_mem hsf')
        rw [stateDest_inj heq] at hne
        exact hne.1 List.prefix_rfl
      · exact hwritten other hother
    · rw [hkept path fun sf' hsf' => hpath' sf' (List.mem_cons_of_mem _ hsf'),
        Function.update_of_ne (hpath' sf List.mem_cons_self)]

variable [Argon2id] [Aes256Gcm] [Aes256GcmSeal] {req : StateBackup} {rand : SealEntropy}
  {put : UInt32 → Option BlobError} {c c' : Content} {bundle : BundleMeta}

omit [Aes256Gcm] in
lemma backupState_ok (h : backupState req rand put c = (.ok bundle, c')) :
    ∃ entries, List.Forall₂ EntryOf req.files entries ∧
      sealComponent (req.request entries (req.files.map (·.bytes)).flatten) rand put c =
        (.ok bundle, c') := by
  unfold backupState at h
  split at h
  · cases (Prod.mk.inj h).1
  · rename_i entries payload hcollect
    obtain ⟨⟨⟩, -, hcollect⟩ := bind_eq_ok.mp hcollect
    obtain ⟨⟨⟩, -, hcollect⟩ := bind_eq_ok.mp hcollect
    obtain ⟨hentries, rfl⟩ := collectState_ok hcollect
    exact ⟨entries, hentries, h⟩

omit [UnicodeNormalization] [Sha256] [Argon2id] [Aes256Gcm] [Aes256GcmSeal] in
lemma stateDirOf_ne_nil (staging : FsPath) : stateDirOf staging ≠ [] := by
  unfold stateDirOf join
  dsimp only
  by_cases hstaging : staging = []
  · rw [if_pos hstaging]
    exact List.cons_ne_nil _ _
  · rw [if_neg hstaging]
    exact List.append_ne_nil_of_left_ne_nil hstaging _

/-- **Restores of the state are exact and stay in their folder.**  A finished backup restores to its
files, each at the normal form of its path, and to nothing else.  Whatever a tier answers, nothing is
written outside the folder, and a slice that is not what the index says fails the restore. -/
theorem restoreState_exact (haead : AeadOpens) :
    (∀ (platform : Platform) (staging : FsPath) (req : StateBackup) (rand : SealEntropy)
      (put : UInt32 → Option BlobError) (c c' : Content) (bundle : BundleMeta) (disk : Disk),
      req.argon.BelowCeiling → req.files.length < 2 ^ 32 →
      IsTree platform (req.files.map fun sf => nfc sf.path) →
      backupState req rand put c = (.ok bundle, c') →
      ∃ disk', restoreState platform staging (fun r i => .ok (c' r i)) req.passphrase req.stamp
          (fun _ => none) disk = (.ok (req.files.map fun sf => nfc sf.path), disk') ∧
        (∀ sf ∈ req.files,
          disk' (stateDest platform (stateDirOf staging) (nfc sf.path)) = some sf.bytes) ∧
        ∀ path, (∀ sf ∈ req.files, path ≠ stateDest platform (stateDirOf staging) (nfc sf.path)) →
          disk' path = disk path) ∧
    (∀ (platform : Platform) (staging : FsPath) (read : Reads) (passphrase stamp : String)
      (fault : ℕ → Option WriteFault) (disk : Disk) (path : FsPath),
      ¬ Below (stateDirOf staging) path →
      (restoreState platform staging read passphrase stamp fault disk).2 path = disk path) ∧
    ∀ (platform : Platform) (staging : FsPath) (read : Reads) (passphrase stamp : String)
      (fault : ℕ → Option WriteFault) (disk : Disk) (bundle : BundleMeta) (payload : List UInt8)
      (k : ℕ) (e : BackupEntry), openComponent read passphrase stamp .state = .ok (bundle, payload) →
      bundle.entries[k]? = some e → ¬ SliceMatches payload (offsetOf bundle.entries k) e →
      ∃ err, (restoreState platform staging read passphrase stamp fault disk).1 = .error err := by
  refine ⟨?_, ?_, ?_⟩
  · intro platform staging req rand put c c' bundle disk hargon hcount htree hbackup
    obtain ⟨entries, hentries, hsealed⟩ := backupState_ok hbackup
    have hlength : entries.length < 2 ^ 32 := by
      rw [← hentries.length_eq]
      exact hcount
    obtain ⟨hindex, hopen⟩ := openComponent_sealed haead hargon hlength hsealed
    have hroom : ([] : List UInt8).length + (req.files.map (·.bytes.length)).sum < 2 ^ 64 := by
      have hfits := req.fits
      rw [List.length_nil]
      omega
    obtain ⟨disk', hrestore, hexact⟩ := @restoreEntries_collected _ _ platform (stateDirOf staging)
      req.files entries [] disk 0 (stateDirOf_ne_nil staging) hentries htree hroom
    refine ⟨disk', ?_, hexact⟩
    unfold restoreState
    rw [show openComponent (fun r i => .ok (c' r i)) req.passphrase req.stamp .state =
      .ok (bundle, (req.files.map (·.bytes)).flatten) from hopen]
    dsimp only
    rw [hindex]
    exact hrestore
  · intro platform staging read passphrase stamp fault disk path hpath
    unfold restoreState
    cases hopen : openComponent read passphrase stamp .state with
    | error e => rfl
    | ok opened => exact restoreEntries_of_not_below (stateDirOf_ne_nil staging) hpath
  · intro platform staging read passphrase stamp fault disk bundle payload k e hopen hk hslice
    unfold restoreState
    rw [hopen]
    dsimp only
    cases hrun : (restoreEntries platform (stateDirOf staging) payload fault 0 0 bundle.entries
        disk).1 with
    | error err => exact ⟨err, rfl⟩
    | ok paths =>
      have hmatches := sliceMatches_of_restoreEntries hrun hk
      rw [Nat.zero_add] at hmatches
      exact absurd hmatches hslice

end RoundTrip

/-! ## Closed runs -/

section Closed

local instance : UnicodeNormalization := UsernameIdentity.composingNormalization
local instance : Sha256 := tailSha256
local instance : Argon2id := constantArgon2id
local instance : Aes256Gcm := tagStrippingAead
local instance : Aes256GcmSeal := tagAppendingAeadSeal

/-- A key that is empty, and a file in a folder. -/
def keyAndConfig : List StateFile := [⟨"ca.key", []⟩, ⟨"config/server.toml", [1, 2, 3]⟩]

lemma keyAndConfig_fits : (keyAndConfig.map (·.bytes.length)).sum < 2 ^ 63 := by decide

/-- Two files whose names differ in their spelling only. -/
def twoSpellings : List StateFile := [⟨"\u00e9", [1]⟩, ⟨"e\u0301", [2]⟩]

lemma twoSpellings_fits : (twoSpellings.map (·.bytes.length)).sum < 2 ^ 63 := by decide

/-- A backup of some files, in parts of two bytes. -/
def smallBackup (files : List StateFile) (hfits : (files.map (·.bytes.length)).sum < 2 ^ 63) :
    StateBackup :=
  ⟨"correct horse battery", "20260101-000000", none, files, ARGON2_DESKTOP_TARGET, 2, 0, hfits⟩

def zeroEntropy : SealEntropy := ⟨.replicate 16 0, .replicate 12 0⟩

/-- What the backup of some files has made of an empty tier. -/
def smallRun (files : List StateFile) (hfits : (files.map (·.bytes.length)).sum < 2 ^ 63) :
    Except BackupError BundleMeta × Content :=
  backupState (smallBackup files hfits) zeroEntropy (fun _ => none) fun _ _ => none

def smallRestore (files : List StateFile) (hfits : (files.map (·.bytes.length)).sum < 2 ^ 63) :
    Except BackupError (List String) × Disk :=
  restoreState .posix [.normal "staging".toList] (fun r i => .ok ((smallRun files hfits).2 r i))
    "correct horse battery" "20260101-000000" (fun _ => none) fun _ => none

lemma smallRun_keyAndConfig :
    ∃ bundle, (smallRun keyAndConfig keyAndConfig_fits).1 = .ok bundle := by
  have hok : (smallRun keyAndConfig keyAndConfig_fits).1.isOk = true := by decide +kernel
  cases hrun : (smallRun keyAndConfig keyAndConfig_fits).1 with
  | error e =>
    rw [hrun] at hok
    exact absurd hok (by simp [Except.isOk, Except.toBool])
  | ok bundle => exact ⟨bundle, rfl⟩

lemma isTree_keyAndConfig :
    IsTree .posix (keyAndConfig.map fun sf => UnicodeNormalization.nfc sf.path) where
  named := by
    have hkey : IsStatePath .posix "ca.key" :=
      ⟨by decide +kernel, by decide +kernel, "ca.key".toList, by decide +kernel⟩
    have hconfig : IsStatePath .posix "config/server.toml" :=
      ⟨by decide +kernel, by decide +kernel, "server.toml".toList, by decide +kernel⟩
    intro rel hrel
    rcases List.mem_pair.mp hrel with rfl | rfl
    · exact hkey
    · exact hconfig
  apart := by decide +kernel

/-- **Two spellings restore to one file**: the files are a tree and their backup succeeds, and on the
restore the bytes of the second are where the first was and nothing is at the second. -/
theorem restoreState_twoSpellings :
    IsTree .posix (twoSpellings.map (·.path)) ∧
      (smallRun twoSpellings twoSpellings_fits).1.isOk = true ∧
      (smallRestore twoSpellings twoSpellings_fits).1.toOption = some ["\u00e9", "\u00e9"] ∧
      (smallRestore twoSpellings twoSpellings_fits).2
        (stateDest .posix (stateDirOf [.normal "staging".toList]) "\u00e9") = some [2] ∧
      (smallRestore twoSpellings twoSpellings_fits).2
        (stateDest .posix (stateDirOf [.normal "staging".toList]) "e\u0301") = none := by
  have hcomposed : IsStatePath .posix "\u00e9" :=
    ⟨by decide +kernel, by decide +kernel, "\u00e9".toList, by decide +kernel⟩
  have hdecomposed : IsStatePath .posix "e\u0301" :=
    ⟨by decide +kernel, by decide +kernel, "e\u0301".toList, by decide +kernel⟩
  refine ⟨⟨fun rel hrel => ?_, by decide +kernel⟩, by decide +kernel, by decide +kernel,
    by decide +kernel, by decide +kernel⟩
  rcases List.mem_pair.mp hrel with rfl | rfl
  · exact hcomposed
  · exact hdecomposed

/-- The key and the file in the folder are restored. -/
theorem restoreState_exact_keyAndConfig :
    ∃ disk', smallRestore keyAndConfig keyAndConfig_fits =
        (.ok ["ca.key", "config/server.toml"], disk') ∧
      ∀ sf ∈ keyAndConfig, disk' (stateDest .posix (stateDirOf [.normal "staging".toList])
        (UnicodeNormalization.nfc sf.path)) = some sf.bytes := by
  have hargon : ARGON2_DESKTOP_TARGET.BelowCeiling := by
    unfold Argon2Params.BelowCeiling
    decide
  obtain ⟨bundle, hbundle⟩ := smallRun_keyAndConfig
  obtain ⟨disk', hrestore, hwritten, -⟩ := (restoreState_exact ClosedRuns.aeadOpens).1 .posix
    [.normal "staging".toList] (smallBackup keyAndConfig keyAndConfig_fits) zeroEntropy
    (fun _ => none) (fun _ _ => none) (smallRun keyAndConfig keyAndConfig_fits).2 bundle
    (fun _ => none) hargon (by decide) isTree_keyAndConfig (Prod.ext hbundle rfl)
  exact ⟨disk', hrestore, hwritten⟩

end Closed

end Bundles

end MaxSecu
