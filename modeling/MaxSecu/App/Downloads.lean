import MaxSecu.App.VideoOffsets
import MaxSecu.Client.Sanitize

/-!
# Downloads to a file

A download is written to a new file beside the destination, which is moved onto it at the end.  Every
step on the files may fail, and so may every fetch and every check.

If the file cannot be moved it is copied, and a copy that fails on the way has already truncated the
destination.  In all other cases the destination is what it was, or the whole content
(`downloads_keep_iff`).
-/

namespace MaxSecu

open ExceptRules
open Sanitize (FsPath PathComponent)

/-! ## The files -/

abbrev Files := FsPath → Option (List UInt8)

/-- How a copy fails: before the destination is opened, or after so many bytes were written. -/
inductive CopyFault
  | opening
  | partway (written : ℕ)

/-- Which steps on the files fail; a failing write has written some bytes. -/
structure SinkFaults where
  create : Bool
  write : ℕ → Option ℕ
  flush : Bool
  syncAll : Bool
  rename : Bool
  copy : Option CopyFault
  removeInCommit : Bool
  removeOnDrop : Bool

/-- A file beside the destination, which it is moved onto at the end. -/
structure AtomicFile where
  tmp : FsPath
  savePath : FsPath
  faults : SinkFaults

def writeFailed : UiError := ⟨"write_failed", "Could not write the file to disk."⟩

/-- The file beside a path: its name has the process and the time in nanoseconds appended. -/
def tempSibling (pid nanos : ℕ) (savePath : FsPath) : FsPath :=
  let suffix := '.' :: (Nat.toDigits 10 pid ++ '.' :: (Nat.toDigits 10 nanos ++ ['.', 'p', 'a', 'r',
    't']))
  match savePath.getLast? with
  | some (.normal name) => savePath.dropLast ++ [.normal (name ++ suffix)]
  | _ => savePath ++ [.normal suffix]

lemma tempSibling_ne (pid nanos : ℕ) (savePath : FsPath) :
    tempSibling pid nanos savePath ≠ savePath := by
  unfold tempSibling
  intro h
  have hlength := congrArg List.length h
  have hlast := congrArg List.getLast? h
  cases hname : savePath.getLast? with
  | none =>
    rw [hname] at hlength
    simp at hlength
  | some c =>
    rw [hname] at hlength hlast
    cases c with
    | normal name =>
      simp only [List.getLast?_concat, Option.some.injEq, PathComponent.normal.injEq] at hlast
      have hlonger := congrArg List.length hlast
      simp at hlonger
    | volume raw => simp at hlength
    | rootDir => simp at hlength
    | curDir => simp at hlength
    | parentDir => simp at hlength

namespace AtomicFile

def beside (pid nanos : ℕ) (savePath : FsPath) (faults : SinkFaults) : AtomicFile :=
  ⟨tempSibling pid nanos savePath, savePath, faults⟩

variable (file : AtomicFile)

def remove (fails : Bool) (fs : Files) : Files :=
  if fails then fs else Function.update fs file.tmp none

/-- Only the file beside the destination is made. -/
def create (fs : Files) : Except UiError Files :=
  if file.faults.create then throw writeFailed else pure (Function.update fs file.tmp (some []))

def writeAll (i : ℕ) (buf : List UInt8) (fs : Files) : Except UiError Unit × Files :=
  match file.faults.write i with
  | none => (.ok (), Function.update fs file.tmp (some ((fs file.tmp).getD [] ++ buf)))
  | some n =>
    (.error writeFailed, Function.update fs file.tmp (some ((fs file.tmp).getD [] ++ buf.take n)))

def copy (fs : Files) : Except UiError Unit × Files :=
  match file.faults.copy with
  | none => (.ok (), Function.update fs file.savePath (fs file.tmp))
  | some .opening => (.error writeFailed, fs)
  | some (.partway n) =>
    (.error writeFailed, Function.update fs file.savePath (some (((fs file.tmp).getD []).take n)))

/-- Move the file onto the destination.  If it cannot be renamed it is copied and removed. -/
def commit (fs : Files) : Except UiError FsPath × Files :=
  if file.faults.flush then (.error writeFailed, fs)
  else if file.faults.syncAll then (.error writeFailed, fs)
  else if file.faults.rename then
    match file.copy fs with
    | (.error e, fs) => (.error e, file.remove file.faults.removeInCommit fs)
    | (.ok (), fs) => (.ok file.savePath, file.remove file.faults.removeInCommit fs)
  else
    (.ok file.savePath,
      Function.update (Function.update fs file.savePath (fs file.tmp)) file.tmp none)

/-- Write the pieces from the `i`-th on, one after the other. -/
def writePieces (piece : ℕ → Except UiError (List UInt8)) : ℕ → ℕ → Files →
    Except UiError Unit × Files
  | _, 0, fs => (.ok (), fs)
  | i, n + 1, fs =>
    match piece i with
    | .error e => (.error e, fs)
    | .ok plaintext =>
      match file.writeAll i plaintext fs with
      | (.error e, fs) => (.error e, fs)
      | (.ok (), fs) => writePieces piece (i + 1) n fs

/-- Make the file, write so many pieces, and commit.  When this fails the file is removed. -/
def save (piece : ℕ → Except UiError (List UInt8)) (n : ℕ) (fs : Files) :
    Except UiError FsPath × Files :=
  match file.create fs with
  | .error e => (.error e, fs)
  | .ok fs =>
    match file.writePieces piece 0 n fs with
    | (.error e, fs) => (.error e, file.remove file.faults.removeOnDrop fs)
    | (.ok (), fs) =>
      match file.commit fs with
      | (.error e, fs) => (.error e, file.remove file.faults.removeOnDrop fs)
      | (.ok path, fs) => (.ok path, fs)

/-! ## What is in the destination afterwards -/

/-- The path holds what it held and the result is an error, or it holds the whole content. -/
def Keeps (whole : List UInt8) (path : FsPath) (fs : Files)
    (r : Except UiError FsPath × Files) : Prop :=
  (∃ e, r.1 = .error e) ∧ r.2 path = fs path ∨ (∃ p, r.1 = .ok p) ∧ r.2 path = some whole

/-- All is written and synced, and the file cannot be renamed. -/
structure Copies (n : ℕ) : Prop where
  create : file.faults.create = false
  write : ∀ i < n, file.faults.write i = none
  flush : file.faults.flush = false
  syncAll : file.faults.syncAll = false
  rename : file.faults.rename = true

/-- The copy fails on the way, and what it has written is not what was there. -/
def CutShort (whole : List UInt8) (fs : Files) : Prop :=
  ∃ n, file.faults.copy = some (.partway n) ∧ fs file.savePath ≠ some (whole.take n)

variable {file} {piece : ℕ → Except UiError (List UInt8)} {pt : ℕ → List UInt8}
  {whole : List UInt8} {fs gs : Files} {path : FsPath}

lemma Keeps.of_error {e : UiError} (h : gs path = fs path) : Keeps whole path fs (.error e, gs) :=
  Or.inl ⟨⟨e, rfl⟩, h⟩

lemma Keeps.of_ok {p : FsPath} (h : gs path = some whole) : Keeps whole path fs (.ok p, gs) :=
  Or.inr ⟨⟨p, rfl⟩, h⟩

lemma keeps_error_iff {e : UiError} : Keeps whole path fs (.error e, gs) ↔ gs path = fs path := by
  unfold Keeps
  simp

lemma remove_of_ne (fails : Bool) (hne : path ≠ file.tmp) : file.remove fails fs path = fs path := by
  unfold remove
  split
  · rfl
  · exact Function.update_of_ne hne _ _

lemma writePieces_of_ne (hne : path ≠ file.tmp) (piece : ℕ → Except UiError (List UInt8))
    (i n : ℕ) (fs : Files) : (file.writePieces piece i n fs).2 path = fs path := by
  induction n generalizing i fs with
  | zero => rfl
  | succ n ih =>
    unfold writePieces
    cases piece i with
    | error e => rfl
    | ok plaintext =>
      unfold writeAll
      cases file.faults.write i with
      | none =>
        dsimp only
        rw [ih, Function.update_of_ne hne]
      | some written => exact Function.update_of_ne hne _ _

lemma writePieces_ok {i n : ℕ} {b : List UInt8} (hpt : ∀ j < n, piece (i + j) = .ok (pt (i + j)))
    (hwrite : ∀ j < n, file.faults.write (i + j) = none) (hfile : fs file.tmp = some b) :
    (file.writePieces piece i n fs).1 = .ok () ∧
      (file.writePieces piece i n fs).2 file.tmp =
        some (b ++ ((List.range n).map fun j => pt (i + j)).flatten) := by
  induction n generalizing i fs b with
  | zero =>
    refine ⟨rfl, ?_⟩
    rw [List.range_zero, List.map_nil, List.flatten_nil, List.append_nil]
    exact hfile
  | succ n ih =>
    have hfirst := hpt 0 n.succ_pos
    have hnone := hwrite 0 n.succ_pos
    rw [Nat.add_zero] at hfirst hnone
    have hafter : ∀ j, i + (j + 1) = i + 1 + j := fun j => by omega
    have hrest : ((List.range (n + 1)).map fun j => pt (i + j)).flatten =
        pt i ++ ((List.range n).map fun j => pt (i + 1 + j)).flatten := by
      rw [List.range_succ_eq_map, List.map_cons, List.map_map, List.flatten_cons, Nat.add_zero]
      congr 3
      funext j
      exact congrArg pt (hafter j)
    unfold writePieces writeAll
    rw [hfirst]
    dsimp only
    rw [hnone]
    dsimp only
    rw [hrest, ← List.append_assoc]
    refine ih (fun j hj => ?_) (fun j hj => ?_) ?_
    · rw [← hafter j]
      exact hpt (j + 1) (Nat.succ_lt_succ hj)
    · rw [← hafter j]
      exact hwrite (j + 1) (Nat.succ_lt_succ hj)
    · rw [Function.update_self, hfile, Option.getD_some]

lemma of_writePieces_ok {i n : ℕ} (h : (file.writePieces piece i n fs).1 = .ok ()) :
    ∀ j < n, (∃ p, piece (i + j) = .ok p) ∧ file.faults.write (i + j) = none := by
  induction n generalizing i fs with
  | zero => exact fun j hj => absurd hj (Nat.not_lt_zero j)
  | succ n ih =>
    unfold writePieces writeAll at h
    cases hp : piece i with
    | error e =>
      rw [hp] at h
      cases h
    | ok plaintext =>
      rw [hp] at h
      dsimp only at h
      cases hw : file.faults.write i with
      | some written =>
        rw [hw] at h
        cases h
      | none =>
        rw [hw] at h
        dsimp only at h
        intro j hj
        cases j with
        | zero => exact ⟨⟨plaintext, hp⟩, hw⟩
        | succ j =>
          have hrest := ih h j (Nat.lt_of_succ_lt_succ hj)
          have hafter : i + (j + 1) = i + 1 + j := by omega
          rw [hafter]
          exact hrest

/-- A commit moves the whole file, or leaves the destination alone, or it copies only a part. -/
lemma commit_cases (hne : file.savePath ≠ file.tmp) (hfile : fs file.tmp = some whole) :
    (∃ gs, file.commit fs = (.ok file.savePath, gs) ∧ gs file.savePath = some whole ∧
      (file.faults.rename = true → file.faults.copy = none)) ∨
    (∃ e gs, file.commit fs = (.error e, gs) ∧ gs file.savePath = fs file.savePath ∧
      (file.faults.flush = true ∨ file.faults.syncAll = true ∨
        file.faults.copy = some .opening)) ∨
    ∃ e gs n, file.commit fs = (.error e, gs) ∧ gs file.savePath = some (whole.take n) ∧
      file.faults.flush = false ∧ file.faults.syncAll = false ∧ file.faults.rename = true ∧
      file.faults.copy = some (.partway n) := by
  unfold commit
  by_cases hflush : file.faults.flush = true
  · rw [if_pos hflush]
    exact Or.inr (Or.inl ⟨_, _, rfl, rfl, Or.inl hflush⟩)
  by_cases hsync : file.faults.syncAll = true
  · rw [if_neg hflush, if_pos hsync]
    exact Or.inr (Or.inl ⟨_, _, rfl, rfl, Or.inr (Or.inl hsync)⟩)
  rw [if_neg hflush, if_neg hsync]
  by_cases hrename : file.faults.rename = true
  · rw [if_pos hrename]
    unfold copy
    cases hcopy : file.faults.copy with
    | none =>
      dsimp only
      refine Or.inl ⟨_, rfl, ?_, fun _ => rfl⟩
      rw [remove_of_ne _ hne, Function.update_self, hfile]
    | some fault =>
      cases fault with
      | opening =>
        dsimp only
        refine Or.inr (Or.inl ⟨_, _, rfl, ?_, Or.inr (Or.inr rfl)⟩)
        exact remove_of_ne _ hne
      | partway n =>
        dsimp only
        refine Or.inr (Or.inr ⟨_, _, n, rfl, ?_, by simpa using hflush, by simpa using hsync,
          hrename, rfl⟩)
        rw [remove_of_ne _ hne, Function.update_self, hfile, Option.getD_some]
  · rw [if_neg hrename]
    refine Or.inl ⟨_, rfl, ?_, fun h => absurd h hrename⟩
    rw [Function.update_of_ne hne, Function.update_self, hfile]

/-- Either the whole content is written beside the destination, or a piece or a write fails. -/
lemma writePieces_cases {n : ℕ} (hne : file.savePath ≠ file.tmp)
    (hpt : ∀ j < n, ∀ p, piece j = .ok p → p = pt j)
    (hwhole : ((List.range n).map pt).flatten = whole) :
    (∃ gs, file.writePieces piece 0 n (Function.update fs file.tmp (some [])) = (.ok (), gs) ∧
      gs file.savePath = fs file.savePath ∧ gs file.tmp = some whole ∧
      (∀ j < n, ∃ p, piece j = .ok p) ∧ ∀ j < n, file.faults.write j = none) ∨
    ∃ e gs, file.writePieces piece 0 n (Function.update fs file.tmp (some [])) = (.error e, gs) ∧
      gs file.savePath = fs file.savePath ∧
      ¬ ((∀ j < n, ∃ p, piece j = .ok p) ∧ ∀ j < n, file.faults.write j = none) := by
  have hkept := writePieces_of_ne hne piece 0 n (Function.update fs file.tmp (some []))
  rw [Function.update_of_ne hne] at hkept
  have hempty : Function.update fs file.tmp (some []) file.tmp = some [] := Function.update_self ..
  have hall : (∀ j < n, ∃ p, piece j = .ok p) → (∀ j < n, file.faults.write j = none) →
      (file.writePieces piece 0 n (Function.update fs file.tmp (some []))).1 = .ok () ∧
      (file.writePieces piece 0 n (Function.update fs file.tmp (some []))).2 file.tmp =
        some whole := by
    intro hhad hwrite
    have hpieces : ∀ j < n, piece (0 + j) = .ok (pt (0 + j)) := by
      intro j hj
      obtain ⟨p, hp⟩ := hhad j hj
      rw [Nat.zero_add, hp, hpt j hj p hp]
    have hwritten := writePieces_ok hpieces (fun j hj => by rw [Nat.zero_add, hwrite j hj]) hempty
    simp only [Nat.zero_add, List.nil_append] at hwritten
    rwa [hwhole] at hwritten
  have hback := @of_writePieces_ok file piece (Function.update fs file.tmp (some [])) 0 n
  cases hrun : file.writePieces piece 0 n (Function.update fs file.tmp (some [])) with
  | mk result gs =>
    rw [hrun] at hkept hback hall
    cases result with
    | ok =>
      have hdone := hback rfl
      simp only [Nat.zero_add] at hdone
      have hhad : ∀ j < n, ∃ p, piece j = .ok p := fun j hj => (hdone j hj).1
      have hwrite : ∀ j < n, file.faults.write j = none := fun j hj => (hdone j hj).2
      exact Or.inl ⟨gs, rfl, hkept, (hall hhad hwrite).2, hhad, hwrite⟩
    | error e =>
      refine Or.inr ⟨e, gs, rfl, hkept, fun h => ?_⟩
      cases (hall h.1 h.2).1

/-- If the pieces that are had are those of the content, the destination is kept unless all is
written, the file cannot be renamed, and the copy is cut short. -/
lemma save_keeps_iff {n : ℕ} (hne : file.savePath ≠ file.tmp) (fs : Files)
    (hpt : ∀ j < n, ∀ p, piece j = .ok p → p = pt j)
    (hwhole : ((List.range n).map pt).flatten = whole) :
    Keeps whole file.savePath fs (file.save piece n fs) ↔
      ¬ ((∀ j < n, ∃ p, piece j = .ok p) ∧ file.Copies n ∧ file.CutShort whole fs) := by
  unfold save create
  by_cases hcreate : file.faults.create = true
  · rw [if_pos hcreate]
    refine ⟨fun _ h => ?_, fun _ => Keeps.of_error rfl⟩
    rw [h.2.1.create] at hcreate
    exact absurd hcreate Bool.false_ne_true
  rw [if_neg hcreate]
  dsimp only [pure, Except.pure]
  obtain ⟨gs, hrun, hkept, hfile, hhad, hwrite⟩ | ⟨e, gs, hrun, hkept, hfails⟩ :=
    @writePieces_cases file piece pt whole fs n hne hpt hwhole
  · rw [hrun]
    dsimp only
    obtain ⟨hs, hcommit, hmoved, hclean⟩ | ⟨e, hs, hcommit, hsame, hearly⟩ |
      ⟨e, hs, k, hcommit, hpart, hflush, hsync, hrename, hcopy⟩ := commit_cases hne hfile
    · rw [hcommit]
      refine ⟨fun _ h => ?_, fun _ => Keeps.of_ok hmoved⟩
      obtain ⟨-, hcopies, k, hcopy, -⟩ := h
      rw [hclean hcopies.rename] at hcopy
      cases hcopy
    · rw [hcommit]
      refine ⟨fun _ h => ?_, fun _ => Keeps.of_error ?_⟩
      · obtain ⟨-, hcopies, k, hcopy, -⟩ := h
        rw [hcopies.flush, hcopies.syncAll, hcopy] at hearly
        simp at hearly
      · rw [remove_of_ne _ hne, hsame, hkept]
    · rw [hcommit]
      dsimp only
      rw [keeps_error_iff, remove_of_ne _ hne, hpart]
      constructor
      · intro hsame h
        obtain ⟨-, -, k', hcopy', hother⟩ := h
        obtain rfl : k = k' := by
          rw [hcopy] at hcopy'
          injection hcopy' with heq
          injection heq
        exact hother hsame.symm
      · intro h
        by_contra hother
        exact h ⟨hhad, ⟨by simpa using hcreate, hwrite, hflush, hsync, hrename⟩, k, hcopy,
          fun hsame => hother hsame.symm⟩
  · rw [hrun]
    refine ⟨fun _ h => hfails ⟨h.1, h.2.1.write⟩, fun _ => Keeps.of_error ?_⟩
    rw [remove_of_ne _ hne, hkept]

end AtomicFile

lemma PlainStream.flatten_each_frame (s : PlainStream) :
    ((List.range s.frames.length).map fun j => ((s.frames.drop j).take 1).flatten).flatten =
      s.plaintext := by
  have heach : ((List.range s.frames.length).map fun j => ((s.frames.drop j).take 1).flatten) =
      s.frames := by
    apply List.ext_getElem
    · rw [List.length_map, List.length_range]
    · intro j hj hj'
      rw [List.getElem_map, List.getElem_range, List.drop_eq_getElem_cons hj', List.take_succ_cons,
        List.take_zero, List.flatten_singleton]
  rw [heach, s.flatten_frames]

/-! ## The two downloads -/

def lockedErr : UiError := ⟨"locked", "Unlock your keystore first."⟩

def itemFailed : UiError := ⟨"verify_failed", "This item failed verification."⟩

/-- A fetched bundle, whether a part of it came over a direct link, and what the server serves when it
is asked again. -/
structure BundleFetch where
  bundle : DownloadBundle
  direct : Bool
  again : Except UiError DownloadBundle

/-- The keystore at the two moments when it is looked at: what it reads with, if it is unlocked. -/
structure Unlocking where
  first : Option VerifyContext
  again : Option VerifyContext

section Downloads

variable [Sha256] [Ed25519] [Hkdf] [Aes256Gcm] [Hpke] [X25519] [MlKem768]

def runOpen (ctx : VerifyContext) (bundle : DownloadBundle) : Except UiError OpenedFile :=
  (verifyAndOpen ctx bundle).mapError fun _ => itemFailed

/-- Verify the bundle that was fetched, or the one that is fetched again from the server. -/
def BundleFetch.opened (fetch : BundleFetch) (unlocked : Unlocking) : Except UiError OpenedFile := do
  let ctx ← unlocked.first.elim (throw lockedErr) pure
  match runOpen ctx fetch.bundle with
  | .ok opened => pure opened
  | .error e =>
    if fetch.direct then do
      let bundle ← fetch.again
      let ctx ← unlocked.again.elim (throw lockedErr) pure
      (runOpen ctx bundle).mapError fun _ => e
    else throw e

def wholeContent (fetched : Except UiError BundleFetch) (unlocked : Unlocking) :
    Except UiError (List UInt8) := do
  let fetch ← fetched
  let opened ← fetch.opened unlocked
  let content ← (opened.streams.find? (·.streamType = .content)).elim
    (throw ⟨"verify_failed", "Missing content."⟩) pure
  pure content.plaintext

def downloadWhole (fetched : Except UiError BundleFetch) (unlocked : Unlocking) (file : AtomicFile)
    (fs : Files) : Except UiError FsPath × Files :=
  match wholeContent fetched unlocked with
  | .error e => (.error e, fs)
  | .ok content => file.save (fun _ => .ok content) 1 fs

/-- The keys of the content, from the header that was fetched, or the one that is fetched again. -/
def HeaderFetch.decryptor (fetch : HeaderFetch) (unlocked : Unlocking) :
    Except UiError ContentDecryptor := do
  let ctx ← unlocked.first.elim (throw lockedErr) pure
  match openContentDecryptor ctx fetch.header with
  | .ok d => pure d
  | .error _ =>
    if fetch.direct then do
      let header ← fetch.again
      let ctx ← unlocked.again.elim (throw lockedErr) pure
      (openContentDecryptor ctx header).mapError fun _ => itemFailed
    else throw itemFailed

/-- Fetch and decrypt one chunk.  One that came over a direct link is fetched again once. -/
def ContentDecryptor.downloadChunk (d : ContentDecryptor) (routes : ChunkRoutes) (i : ℕ) :
    Except UiError (List UInt8) := do
  let (ct, direct) ← routes.fetchChunkRouted i
  match d.openRange i [ct] with
  | .ok plaintext => pure plaintext
  | .error _ =>
    if direct then do
      let ct ← routes.proxyAgain i
      (d.openRange i [ct]).mapError fun _ => itemFailed
    else throw itemFailed

/-- Download a video or a generic file, chunk by chunk. -/
def downloadStreaming (fetched : Except UiError HeaderFetch) (unlocked : Unlocking)
    (routes : ChunkRoutes) (file : AtomicFile) (fs : Files) : Except UiError FsPath × Files :=
  match fetched.bind fun fetch => fetch.decryptor unlocked with
  | .error e => (.error e, fs)
  | .ok d => file.save (d.downloadChunk routes) d.contentChunkCount.toNat fs

/-! ## What is downloaded -/

/-- The bundle carries the manifest that the author signed. -/
def DownloadBundle.Carries (bundle : DownloadBundle) (s : PlainStream) : Prop :=
  ∃ m, decode Manifest bundle.manifestBytes = .ok m ∧ m.Declares s

def BundleFetch.Carries (fetch : BundleFetch) (s : PlainStream) : Prop :=
  fetch.bundle.Carries s ∧ ∀ bundle, fetch.again = .ok bundle → bundle.Carries s

def HeaderFetch.Carries (fetch : HeaderFetch) (s : PlainStream) : Prop :=
  fetch.header.Carries s ∧ ∀ header, fetch.again = .ok header → header.Carries s

variable [Aes256GcmSeal] {streams : Set PlainStream} {s : PlainStream} {unlocked : Unlocking}

omit [Aes256GcmSeal] in
lemma BundleFetch.opened_ok {fetch : BundleFetch} {opened : OpenedFile} (hcarries : fetch.Carries s)
    (h : fetch.opened unlocked = .ok opened) :
    ∃ ctx bundle, bundle.Carries s ∧ verifyAndOpen ctx bundle = .ok opened := by
  unfold BundleFetch.opened at h
  obtain ⟨ctx, -, h⟩ := bind_eq_ok.mp h
  cases hfirst : runOpen ctx fetch.bundle with
  | ok first =>
    rw [hfirst] at h
    obtain rfl := pure_eq_ok.mp h
    exact ⟨ctx, fetch.bundle, hcarries.1, mapError_eq_ok.mp hfirst⟩
  | error e =>
    rw [hfirst] at h
    dsimp only at h
    by_cases hdirect : fetch.direct = true
    · rw [if_pos hdirect] at h
      obtain ⟨bundle, hbundle, h⟩ := bind_eq_ok.mp h
      obtain ⟨ctx', -, h⟩ := bind_eq_ok.mp h
      exact ⟨ctx', bundle, hcarries.2 bundle hbundle, mapError_eq_ok.mp (mapError_eq_ok.mp h)⟩
    · rw [if_neg hdirect] at h
      cases h

lemma DownloadBundle.Carries.content {ctx : VerifyContext} {bundle : DownloadBundle}
    {opened : OpenedFile} {o : OpenedStream} (hcarries : bundle.Carries s) (hs : s ∈ streams)
    (hone : Set.InjOn PlainStream.context streams) (hsealed : SealedOnly streams s.ck)
    (hopened : verifyAndOpen ctx bundle = .ok opened) (ho : o ∈ opened.streams)
    (htype : o.streamType = .content) : o.plaintext = s.plaintext := by
  obtain ⟨m, hdecode, hdeclares⟩ := hcarries
  obtain ⟨m', dek, rok, hheader, hall, -⟩ := verifyAndOpen_eq_ok.mp hopened
  obtain ⟨genesis, grant, haccepts, -⟩ := verifyHeader_eq_ok.mp hheader
  obtain rfl : m = m' := Except.ok.inj (hdecode.symm.trans haccepts.decodesManifest)
  obtain ⟨ms, hms, hsame, -, provided, -, hlength, -, hopen⟩ := hall.exists_of_mem ho
  have hmsType : ms.streamType = .content := hsame.symm.trans htype
  have hfind : m.streams.find? (·.streamType = .content) = some ms := by
    cases hfirst : m.streams.find? (·.streamType = .content) with
    | none => exact absurd (decide_eq_true hmsType) (List.find?_eq_none.mp hfirst ms hms)
    | some first =>
      have hmem := List.mem_of_find?_eq_some hfirst
      have hfirstType : first.streamType = .content := by
        simpa using List.find?_some hfirst
      rw [Manifest.content_unique hdecode hms hmsType first hmem hfirstType]
  have hcount : provided.chunks.length = s.frames.length :=
    hlength.trans (hdeclares.count ms hfind)
  have hfile : ctx.fileId = s.fileId := haccepts.manifestFile.symm.trans hdeclares.fileId
  have hrange : s.decryptor.openRange 0 provided.chunks = .ok o.plaintext := by
    have hsigned : s.decryptor.contentChunkCount.toNat = s.frames.length := s.toNat_count
    rw [hmsType, hdeclares.key dek haccepts.commit, hfile, hdeclares.version] at hopen
    unfold openStream at hopen
    rw [guard_eq_ok] at hopen
    unfold ContentDecryptor.openRange
    rw [hsigned, guard_eq_ok, mapError_eq_ok]
    refine ⟨by omega, ?_⟩
    rw [← hcount]
    exact hopen.2
  have hcut := (hsealed.openRange hone hs hdeclares.content hrange).2
  rw [hcut, hcount, List.drop_zero, List.take_length, s.flatten_frames]

lemma wholeContent_ok {fetched : Except UiError BundleFetch} {content : List UInt8}
    (hcarries : ∀ fetch, fetched = .ok fetch → fetch.Carries s) (hs : s ∈ streams)
    (hone : Set.InjOn PlainStream.context streams) (hsealed : SealedOnly streams s.ck)
    (h : wholeContent fetched unlocked = .ok content) : content = s.plaintext := by
  unfold wholeContent at h
  obtain ⟨fetch, hfetch, h⟩ := bind_eq_ok.mp h
  obtain ⟨opened, hopened, h⟩ := bind_eq_ok.mp h
  obtain ⟨o, ho, h⟩ := bind_eq_ok.mp h
  obtain rfl := pure_eq_ok.mp h
  obtain ⟨ctx, bundle, hbundle, hopen⟩ := BundleFetch.opened_ok (hcarries fetch hfetch) hopened
  have hfind := elim_eq_ok.mp ho
  have htype : o.streamType = .content := by simpa using List.find?_some hfind
  exact hbundle.content hs hone hsealed hopen (List.mem_of_find?_eq_some hfind) htype

omit [Sha256] [Aes256GcmSeal] in
lemma HeaderFetch.decryptor_ok {fetch : HeaderFetch} {d : ContentDecryptor}
    (hcarries : fetch.Carries s) (h : fetch.decryptor unlocked = .ok d) : d = s.decryptor := by
  unfold HeaderFetch.decryptor at h
  obtain ⟨ctx, -, h⟩ := bind_eq_ok.mp h
  cases hfirst : openContentDecryptor ctx fetch.header with
  | ok first =>
    rw [hfirst] at h
    obtain rfl := pure_eq_ok.mp h
    exact hcarries.1.decryptor hfirst
  | error e =>
    rw [hfirst] at h
    dsimp only at h
    by_cases hdirect : fetch.direct = true
    · rw [if_pos hdirect] at h
      obtain ⟨header, hheader, h⟩ := bind_eq_ok.mp h
      obtain ⟨ctx', -, h⟩ := bind_eq_ok.mp h
      exact (hcarries.2 header hheader).decryptor (mapError_eq_ok.mp h)
    · rw [if_neg hdirect] at h
      cases h

omit [Ed25519] [Hkdf] [Hpke] [X25519] [MlKem768] in
lemma downloadChunk_ok (hs : s ∈ streams) (hcontent : s.streamType = .content)
    (hone : Set.InjOn PlainStream.context streams) (hsealed : SealedOnly streams s.ck)
    {routes : ChunkRoutes} {i : ℕ} {pt : List UInt8}
    (h : s.decryptor.downloadChunk routes i = .ok pt) :
    pt = ((s.frames.drop i).take 1).flatten := by
  have hopened : ∃ ct, s.decryptor.openRange i [ct] = .ok pt := by
    unfold ContentDecryptor.downloadChunk at h
    obtain ⟨⟨ct, direct⟩, -, h⟩ := bind_eq_ok.mp h
    dsimp only at h
    cases hfirst : s.decryptor.openRange i [ct] with
    | ok first =>
      rw [hfirst] at h
      obtain rfl := pure_eq_ok.mp h
      exact ⟨ct, hfirst⟩
    | error e =>
      rw [hfirst] at h
      dsimp only at h
      by_cases hdirect : direct = true
      · rw [if_pos hdirect] at h
        obtain ⟨ct', -, h⟩ := bind_eq_ok.mp h
        exact ⟨ct', mapError_eq_ok.mp h⟩
      · rw [if_neg hdirect] at h
        cases h
  obtain ⟨ct, hopen⟩ := hopened
  exact (hsealed.openRange hone hs hcontent hopen).2

/-- **Which downloads keep the user's file, exactly.**  Whatever is served and whatever fails, the
destination is what it was, with an error, or the whole content, unless all was fetched, verified and
written, the file cannot be renamed, and copying it is cut short. -/
theorem downloads_keep_iff (hs : s ∈ streams) (hcontent : s.streamType = .content)
    (hone : Set.InjOn PlainStream.context streams) (hsealed : SealedOnly streams s.ck)
    (pid nanos : ℕ) (savePath : FsPath) (faults : SinkFaults) (unlocked : Unlocking) (fs : Files) :
    let file := AtomicFile.beside pid nanos savePath faults
    (∀ fetched : Except UiError BundleFetch, (∀ fetch, fetched = .ok fetch → fetch.Carries s) →
      (AtomicFile.Keeps s.plaintext savePath fs (downloadWhole fetched unlocked file fs) ↔
        ¬ ((∃ content, wholeContent fetched unlocked = .ok content) ∧ file.Copies 1 ∧
          file.CutShort s.plaintext fs))) ∧
    ∀ (fetched : Except UiError HeaderFetch) (routes : ChunkRoutes),
      (∀ fetch, fetched = .ok fetch → fetch.Carries s) →
      (AtomicFile.Keeps s.plaintext savePath fs
          (downloadStreaming fetched unlocked routes file fs) ↔
        ¬ ((∃ d, (fetched.bind fun fetch => fetch.decryptor unlocked) = .ok d) ∧
          (∀ i < s.frames.length, ∃ pt, s.decryptor.downloadChunk routes i = .ok pt) ∧
          file.Copies s.frames.length ∧ file.CutShort s.plaintext fs)) := by
  intro file
  have hne : file.savePath ≠ file.tmp := (tempSibling_ne pid nanos savePath).symm
  constructor
  · intro fetched hcarries
    unfold downloadWhole
    cases hhad : wholeContent fetched unlocked with
    | error e =>
      refine ⟨fun _ h => ?_, fun _ => .of_error rfl⟩
      obtain ⟨⟨content, hok⟩, -⟩ := h
      cases hok
    | ok content =>
      obtain rfl := wholeContent_ok hcarries hs hone hsealed hhad
      have hpt : ∀ j < 1, ∀ p, (fun _ : ℕ => (.ok s.plaintext : Except UiError _)) j = .ok p →
          p = (fun _ : ℕ => s.plaintext) j := fun _ _ p hp => (Except.ok.inj hp).symm
      have hiff := AtomicFile.save_keeps_iff hne fs hpt (List.append_nil _)
      refine hiff.trans (not_congr ?_)
      exact and_congr_left' ⟨fun _ => ⟨_, rfl⟩, fun _ j _ => ⟨_, rfl⟩⟩
  · intro fetched routes hcarries
    unfold downloadStreaming
    cases hhad : (fetched.bind fun fetch => fetch.decryptor unlocked) with
    | error e =>
      refine ⟨fun _ h => ?_, fun _ => .of_error rfl⟩
      obtain ⟨⟨d, hok⟩, -⟩ := h
      cases hok
    | ok d =>
      obtain ⟨fetch, hfetch, hd⟩ := bind_eq_ok.mp hhad
      obtain rfl := HeaderFetch.decryptor_ok (hcarries fetch hfetch) hd
      have hcount : s.decryptor.contentChunkCount.toNat = s.frames.length := s.toNat_count
      have hpt : ∀ j < s.frames.length, ∀ p, s.decryptor.downloadChunk routes j = .ok p →
          p = (fun j => ((s.frames.drop j).take 1).flatten) j := fun j _ p hp =>
        downloadChunk_ok hs hcontent hone hsealed hp
      have hiff := AtomicFile.save_keeps_iff hne fs hpt s.flatten_each_frame
      dsimp only
      rw [hcount]
      refine hiff.trans (not_congr ?_)
      exact ⟨fun h => ⟨⟨_, rfl⟩, h⟩, fun h => h.2⟩

end Downloads

section ClosedRuns

open ClosedRuns

/-- The destination of the clip, and what it held. -/
def clipPath : FsPath := [.normal ['c', 'l', 'i', 'p']]

def clipFiles : Files := fun path => if path = clipPath then some [1, 2, 3] else none

def noFaults : SinkFaults := ⟨false, fun _ => none, false, false, false, none, false, false⟩

/-- The file cannot be renamed, and the copy ends as soon as it has opened the destination. -/
def copyCutShort : SinkFaults := { noFaults with rename := true, copy := some (.partway 0) }

def clipUnlocked : Unlocking := ⟨some clipReads, some clipReads⟩

def clipServed : BundleFetch :=
  let bundle := ⟨clipHeader.toVersionRecords,
    [⟨.content, clipVideo.sealed.chunks⟩, ⟨.metadata, clipInfo.sealed.chunks⟩]⟩
  ⟨bundle, false, .ok bundle⟩

lemma clipServed_carries : clipServed.Carries clipVideo := by
  refine ⟨clipHeader_carries, fun bundle heq => ?_⟩
  rw [← Except.ok.inj heq]
  exact clipHeader_carries

lemma clipFetch_carries : clipFetch.Carries clipVideo := by
  refine ⟨clipHeader_carries, fun header heq => ?_⟩
  rw [← Except.ok.inj heq]
  exact clipHeader_carries

theorem downloads_keep_iff_clip :
    letI := clipAead
    let file := AtomicFile.beside 1 2 clipPath noFaults
    AtomicFile.Keeps clipVideo.plaintext clipPath clipFiles
        (downloadWhole (.ok clipServed) clipUnlocked file clipFiles) ∧
      AtomicFile.Keeps clipVideo.plaintext clipPath clipFiles
        (downloadStreaming (.ok clipFetch) clipUnlocked (proxyOnly clipVideo) file clipFiles) := by
  let _ := clipAead
  intro file
  have hrenamed : ∀ n, ¬ file.Copies n := fun n h => by cases h.rename
  have hboth := downloads_keep_iff clipVideo_ideal.mem clipVideo_ideal.content clipVideo_ideal.one
    clipVideo_ideal.sealedOnly 1 2 clipPath noFaults clipUnlocked clipFiles
  refine ⟨(hboth.1 (.ok clipServed) ?_).mpr fun h => hrenamed 1 h.2.1,
    (hboth.2 (.ok clipFetch) (proxyOnly clipVideo) ?_).mpr fun h => hrenamed _ h.2.2.1⟩
  · intro fetch heq
    rw [← Except.ok.inj heq]
    exact clipServed_carries
  · intro fetch heq
    rw [← Except.ok.inj heq]
    exact clipFetch_carries

lemma downloadChunk_clip {i : ℕ} (hi : i < clipVideo.frames.length) :
    letI := clipAead
    clipVideo.decryptor.downloadChunk (proxyOnly clipVideo) i =
      .ok ((clipVideo.frames.drop i).take 1).flatten := by
  let _ := clipAead
  have hchunk : clipVideo.piece i 1 = [clipVideo.chunk i] := by
    have hlt : i < clipVideo.sealed.chunks.length := by rwa [clipVideo.length_sealed_chunks]
    unfold PlainStream.piece PlainStream.chunk
    rw [List.drop_eq_getElem_cons hlt, List.take_succ_cons, List.take_zero,
      List.getD_eq_getElem?_getD, List.getElem?_eq_getElem hlt, Option.getD_some]
  have hwithin : i + 1 ≤ clipVideo.frames.length := hi
  have hopen := clipVideo_ideal.opens.openRange clipVideo_ideal.content hwithin
  rw [hchunk] at hopen
  unfold ContentDecryptor.downloadChunk
  refine bind_eq_ok.mpr ⟨(clipVideo.chunk i, false), rfl, ?_⟩
  dsimp only
  rw [hopen]
  rfl

/-- The copy has emptied the file that was there, and the download has failed. -/
theorem downloadStreaming_cutShort :
    letI := clipAead
    clipVideo.Ideal {t | t ∈ [clipVideo, clipInfo]} ∧ clipFetch.Carries clipVideo ∧
      clipFiles clipPath = some [1, 2, 3] ∧
      ¬ AtomicFile.Keeps clipVideo.plaintext clipPath clipFiles
        (downloadStreaming (.ok clipFetch) clipUnlocked (proxyOnly clipVideo)
          (.beside 1 2 clipPath copyCutShort) clipFiles) := by
  let _ := clipAead
  let _ := clipJson
  refine ⟨clipVideo_ideal, clipFetch_carries, rfl, ?_⟩
  have hdecryptor : clipFetch.decryptor clipUnlocked = .ok clipVideo.decryptor := by
    refine bind_eq_ok.mpr ⟨clipReads, rfl, ?_⟩
    rw [show clipFetch.header = clipHeader from rfl, openVideoJobCore_ok openVideoJobCore_clip]
    rfl
  have hcount : clipVideo.decryptor.contentChunkCount.toNat = clipVideo.frames.length :=
    clipVideo.toNat_count
  have hpt : ∀ j < clipVideo.frames.length, ∀ p,
      clipVideo.decryptor.downloadChunk (proxyOnly clipVideo) j = .ok p →
        p = (fun j => ((clipVideo.frames.drop j).take 1).flatten) j := fun j hj p hp =>
    Except.ok.inj (hp.symm.trans (downloadChunk_clip hj))
  have hne : (AtomicFile.beside 1 2 clipPath copyCutShort).savePath ≠
      (AtomicFile.beside 1 2 clipPath copyCutShort).tmp := (tempSibling_ne 1 2 clipPath).symm
  have hkeeps := AtomicFile.save_keeps_iff hne clipFiles hpt clipVideo.flatten_each_frame
  unfold downloadStreaming
  rw [Except.bind, hdecryptor]
  dsimp only
  rw [hcount]
  refine fun hkept => hkeeps.mp hkept ⟨fun j hj => ⟨_, downloadChunk_clip hj⟩,
    ⟨rfl, fun _ _ => rfl, rfl, rfl, rfl⟩, 0, rfl, ?_⟩
  rw [List.take_zero]
  decide

end ClosedRuns

end MaxSecu
