import MaxSecu.App.Directory
import MaxSecu.Crypto.PinFingerprint
import MaxSecu.Framework.Fips180
import MaxSecu.Server.DropboxListing

/-!
# Where the app dials

An installation holds the pinned certificate of its server, and may hold the key of the directory.  It
is told where to dial by an address, or by a connection code: an address and the fingerprint of the pins.
A code is taken only when its fingerprint is that of the pins in the folder, or that of the certificate
alone.

`connectionCode_bound` says that a copy of a code of these pins gives its address, that a code of other
pins is refused, and that nothing is written then.
-/

namespace MaxSecu

namespace Bootstrap

open PinFp ExceptRules
open DropboxTier (isWhitespace trim)

/-- What the TLS crate takes: the name of a server, and a certificate as a root. -/
class Rustls where
  serverName : List Char → Bool
  addRoot : List UInt8 → Bool

/-- The crate reads certificates with lengths of at most four bytes. -/
structure RootsShort [Rustls] : Prop where
  short : ∀ certDer, Rustls.addRoot certDer = true → certDer.length < 2 ^ 32

structure ConnectionConfig where
  server : List Char
  useTor : Bool
  autoConnect : Bool

/-- Reading and writing the configuration as JSON. -/
class ConnectionJson where
  fromSlice : List UInt8 → Option ConnectionConfig
  toVecPretty : ConnectionConfig → List UInt8

/-- The files of an installation that are used here; what cannot be read is none. -/
structure ConfigFolder where
  serverCert : Option (List UInt8)
  directoryPub : Option (List UInt8)
  connection : Option (List UInt8)

/-- How saving fails: before the file is touched, or after so many bytes. -/
inductive SaveFault
  | before
  | partway (written : ℕ)

def splitOnce (sep : Char) (s : List Char) : Option (List Char × List Char) :=
  if sep ∈ s then some (s.takeWhile (· ≠ sep), (s.dropWhile (· ≠ sep)).drop 1) else none

def rsplitOnce (sep : Char) (s : List Char) : Option (List Char × List Char) :=
  (splitOnce sep s.reverse).map fun parts => (parts.2.reverse, parts.1.reverse)

/-- An address and a fingerprint, of which the latter is normalized. -/
def parseConnectionCode (code : List Char) : Option (List Char × List Char) := do
  let (addr, fp) ← splitOnce '#' (trim code)
  if trim addr = [] then none
  else if (normalizeFp fp).length ≠ 32 then none
  else some (trim addr, normalizeFp fp)

/-- A number of 16 bits in decimal; a plus may stand before it. -/
def parseU16 (s : List Char) : Option ℕ :=
  let digits := if s.head? = some '+' then s.drop 1 else s
  let value := digits.foldl (fun acc c => acc * 10 + (c.toNat - '0'.toNat)) 0
  if digits ≠ [] ∧ digits.all Char.isDigit ∧ value < 2 ^ 16 then some value else none

section Model

variable [Rustls] [Sha256]

def notPinned : UiError := ⟨"not_pinned",
  "This folder has no pinned server certificate, so it cannot be pointed at a server."⟩

def badCode : UiError := ⟨"bad_code", "That is not a connection code or a server address."⟩

def untrusted : UiError := ⟨"untrusted",
  "That connection code does not match this app's pinned server."⟩

def notSaved : UiError := ⟨"internal", "Could not save the server address."⟩

/-- The pinned certificate, if the TLS crate takes it. -/
def readPinnedCert (folder : ConfigFolder) : Except UiError (List UInt8) :=
  match folder.serverCert with
  | none => throw notPinned
  | some bytes => if Rustls.addRoot bytes then pure bytes else throw notPinned

def readDirectoryPub (folder : ConfigFolder) : List UInt8 := folder.directoryPub.getD []

def parseDialAddress (input : List Char) : Option (List Char) := do
  let (host, port) ← rsplitOnce ':' input
  let port ← parseU16 port
  if port = 0 then none
  else if Rustls.serverName host then some (host ++ ':' :: Nat.toDigits 10 port)
  else none

def resolveDialTarget (folder : ConfigFolder) (input : List Char) : Except UiError (List Char) := do
  let input := trim input
  let cert ← readPinnedCert folder
  if '#' ∉ input then (parseDialAddress input).elim (throw badCode) pure
  else do
    let (addr, fp) ← (parseConnectionCode input).elim (throw badCode) pure
    if fp ≠ pinFingerprint cert (readDirectoryPub folder) ∧ fp ≠ pinFingerprint cert [] then
      throw untrusted
    else pure addr

variable [ConnectionJson]

def ConnectionConfig.load (folder : ConfigFolder) : ConnectionConfig :=
  (folder.connection.bind ConnectionJson.fromSlice).getD ⟨[], false, false⟩

def ConnectionConfig.save (cfg : ConnectionConfig) (fault : Option SaveFault)
    (folder : ConfigFolder) : Except Unit Unit × ConfigFolder :=
  match fault with
  | none => (.ok (), { folder with connection := some (ConnectionJson.toVecPretty cfg) })
  | some .before => (.error (), folder)
  | some (.partway written) =>
    (.error (), { folder with connection := some ((ConnectionJson.toVecPretty cfg).take written) })

/-- Only the address is replaced. -/
def persistCodeServer (folder : ConfigFolder) (addr : List Char) (fault : Option SaveFault) :
    Except Unit Unit × ConfigFolder :=
  ({ ConnectionConfig.load folder with server := addr } : ConnectionConfig).save fault folder

/-- Resolve the input and save where to dial. -/
def setServer (folder : ConfigFolder) (input : List Char) (fault : Option SaveFault) :
    Except UiError Unit × ConfigFolder :=
  match resolveDialTarget folder input with
  | .error e => (.error e, folder)
  | .ok addr =>
    match persistCodeServer folder addr fault with
    | (.error (), folder) => (.error notSaved, folder)
    | (.ok (), folder) => (.ok (), folder)

end Model

/-! ## White space -/

lemma toNat_of_isWhitespace {c : Char} (h : isWhitespace c = true) :
    c.val.toNat ≤ 32 ∨ 133 ≤ c.val.toNat := by
  unfold isWhitespace at h
  simp only [Bool.or_eq_true, Bool.and_eq_true, decide_eq_true_eq, beq_iff_eq,
    UInt32.le_iff_toNat_le, ← UInt32.toNat_inj, UInt32.toNat_ofNat, Nat.reduceMod,
    Nat.reducePow] at h
  omega

lemma normalizeFp_whitespace {s : List Char} (h : ∀ c ∈ s, isWhitespace c = true) :
    normalizeFp s = [] := by
  induction s with
  | nil => rfl
  | cons c s ih =>
    have hval := toNat_of_isWhitespace (h c List.mem_cons_self)
    have hlower : isAsciiLowercase c = false := by
      unfold isAsciiLowercase
      rw [Bool.and_eq_false_iff, decide_eq_false_iff_not, decide_eq_false_iff_not]
      rw [Char.le_def, Char.le_def, UInt32.le_iff_toNat_le, UInt32.le_iff_toNat_le]
      have ha : 'a'.val.toNat = 97 := rfl
      have hz : 'z'.val.toNat = 122 := rfl
      omega
    have hout : inAlphabet c = false := by
      unfold inAlphabet isAsciiUppercase
      rw [Bool.or_eq_false_iff, Bool.and_eq_false_iff, Bool.and_eq_false_iff,
        decide_eq_false_iff_not, decide_eq_false_iff_not, decide_eq_false_iff_not,
        decide_eq_false_iff_not]
      simp only [Char.le_def, UInt32.le_iff_toNat_le]
      have hA : 'A'.val.toNat = 65 := rfl
      have hZ : 'Z'.val.toNat = 90 := rfl
      have htwo : '2'.val.toNat = 50 := rfl
      have hseven : '7'.val.toNat = 55 := rfl
      omega
    rw [normalizeFp_cons_of_out (by rw [toUpper_of_not_lower hlower, hout]; decide),
      ih fun d hd => h d (List.mem_cons_of_mem _ hd)]

lemma normalizeFp_dropWhile (s : List Char) :
    normalizeFp (s.dropWhile isWhitespace) = normalizeFp s := by
  have hwhole := normalizeFp_append (s.takeWhile isWhitespace) (s.dropWhile isWhitespace)
  rw [List.takeWhile_append_dropWhile,
    normalizeFp_whitespace fun c hc => List.mem_takeWhile_imp hc, List.nil_append] at hwhole
  exact hwhole.symm

lemma normalizeFp_reverse (s : List Char) : normalizeFp s.reverse = (normalizeFp s).reverse := by
  unfold normalizeFp
  rw [List.map_reverse, List.filter_reverse]

lemma normalizeFp_dropEnd (s : List Char) :
    normalizeFp (s.reverse.dropWhile isWhitespace).reverse = normalizeFp s := by
  rw [normalizeFp_reverse, normalizeFp_dropWhile, normalizeFp_reverse, List.reverse_reverse]

lemma normalizeFp_trim (s : List Char) : normalizeFp (trim s) = normalizeFp s := by
  unfold trim
  rw [normalizeFp_dropEnd, normalizeFp_dropWhile]

lemma mem_dropWhile {s : List Char} {c : Char} (hc : isWhitespace c = false) (h : c ∈ s) :
    c ∈ s.dropWhile isWhitespace := by
  rw [← List.takeWhile_append_dropWhile (p := isWhitespace) (l := s)] at h
  rcases List.mem_append.mp h with hspace | hrest
  · have hwhite : isWhitespace c = true := List.mem_takeWhile_imp hspace
    rw [hc] at hwhite
    exact absurd hwhite Bool.false_ne_true
  · exact hrest

lemma mem_trim {s : List Char} {c : Char} (hc : isWhitespace c = false) (h : c ∈ s) :
    c ∈ trim s := by
  unfold trim
  rw [List.mem_reverse]
  refine mem_dropWhile hc ?_
  rw [List.mem_reverse]
  exact mem_dropWhile hc h

lemma dropWhile_of_trimmed {s : List Char} (h : trim s = s) : s.dropWhile isWhitespace = s := by
  refine (List.dropWhile_suffix isWhitespace).eq_of_length (le_antisymm ?_ ?_)
  · exact (List.dropWhile_suffix isWhitespace).length_le
  · have hshort := ((s.dropWhile isWhitespace).reverse.dropWhile_suffix isWhitespace).length_le
    rw [List.length_reverse] at hshort
    calc s.length = (trim s).length := by rw [h]
      _ ≤ (s.dropWhile isWhitespace).length := by
        unfold trim
        rw [List.length_reverse]
        exact hshort

lemma trim_code {addr copied : List Char} (htrimmed : trim addr = addr) (hne : addr ≠ []) :
    trim (addr ++ '#' :: copied) =
      addr ++ '#' :: (copied.reverse.dropWhile isWhitespace).reverse := by
  have hfront := dropWhile_of_trimmed htrimmed
  have hmark : isWhitespace '#' = false := by decide
  unfold trim
  rw [List.dropWhile_append, hfront, if_neg (by rwa [List.isEmpty_iff]), List.reverse_append,
    List.reverse_cons, List.append_assoc, List.singleton_append, List.dropWhile_append]
  by_cases hblank : (copied.reverse.dropWhile isWhitespace).isEmpty = true
  · rw [if_pos hblank, List.dropWhile_cons_of_neg (by rw [hmark]; decide),
      List.isEmpty_iff.mp hblank, List.reverse_cons, List.reverse_reverse, List.reverse_nil]
  · rw [if_neg hblank, List.reverse_append, List.reverse_cons, List.reverse_reverse,
      List.append_assoc, List.singleton_append]

/-! ## Codes -/

lemma splitOnce_of_notMem {sep : Char} {s rest : List Char} (h : sep ∉ s) :
    splitOnce sep (s ++ sep :: rest) = some (s, rest) := by
  have hall : ∀ c ∈ s, decide (c ≠ sep) = true := by
    intro c hc
    rw [decide_eq_true_eq]
    rintro rfl
    exact h hc
  unfold splitOnce
  rw [if_pos (List.mem_append_right _ List.mem_cons_self), List.takeWhile_append_of_pos hall,
    List.dropWhile_append_of_pos hall,
    List.takeWhile_cons_of_neg (by rw [decide_eq_true_eq]; exact fun hne => hne rfl),
    List.dropWhile_cons_of_neg (by rw [decide_eq_true_eq]; exact fun hne => hne rfl),
    List.append_nil]
  rfl

lemma splitOnce_eq_some {sep : Char} {s before after : List Char}
    (h : splitOnce sep s = some (before, after)) : s = before ++ sep :: after := by
  unfold splitOnce at h
  by_cases hmem : sep ∈ s
  · rw [if_pos hmem, Option.some.injEq, Prod.mk.injEq] at h
    obtain ⟨rfl, rfl⟩ := h
    conv_lhs => rw [← List.takeWhile_append_dropWhile (p := fun c => decide (c ≠ sep)) (l := s)]
    congr 1
    have hne : s.dropWhile (fun c => decide (c ≠ sep)) ≠ [] := by
      intro hnil
      have hall := List.dropWhile_eq_nil_iff.mp hnil sep hmem
      rw [decide_eq_true_eq] at hall
      exact hall rfl
    obtain ⟨c, rest, hrest⟩ := List.exists_cons_of_ne_nil hne
    have hhead := List.head_dropWhile_not (fun c => decide (c ≠ sep)) hne
    simp only [hrest, List.head_cons, decide_eq_false_iff_not, not_not] at hhead
    rw [hrest, hhead]
    rfl
  · rw [if_neg hmem] at h
    exact absurd h (Option.some_ne_none _).symm

lemma parseConnectionCode_copied {addr copied : List Char} (htrimmed : trim addr = addr)
    (hne : addr ≠ []) (hmark : '#' ∉ addr) (hlength : (normalizeFp copied).length = 32) :
    parseConnectionCode (trim (addr ++ '#' :: copied)) = some (addr, normalizeFp copied) := by
  unfold parseConnectionCode
  rw [trim_code htrimmed hne, trim_code htrimmed hne, splitOnce_of_notMem hmark]
  simp only [Option.bind_eq_bind, Option.bind_some]
  rw [htrimmed, if_neg hne, normalizeFp_dropEnd, normalizeFp_dropEnd,
    if_neg (not_not.mpr hlength)]

/-- Whatever stands before it, the fingerprint at the end of a code is the one that is read. -/
lemma fingerprint_of_parse {input copied addr fp : List Char} {front : List Char}
    (hinput : normalizeFp input = normalizeFp front ++ normalizeFp copied)
    (hlength : (normalizeFp copied).length = 32)
    (h : parseConnectionCode input = some (addr, fp)) : fp = normalizeFp copied := by
  unfold parseConnectionCode at h
  obtain ⟨⟨before, after⟩, hsplit, h⟩ := Option.bind_eq_some_iff.mp h
  dsimp only at h
  by_cases hempty : trim before = []
  · rw [if_pos hempty] at h
    exact absurd h (Option.some_ne_none _).symm
  by_cases hshort : (normalizeFp after).length ≠ 32
  · rw [if_neg hempty, if_pos hshort] at h
    exact absurd h (Option.some_ne_none _).symm
  rw [if_neg hempty, if_neg hshort, Option.some.injEq, Prod.mk.injEq] at h
  have hwhole : normalizeFp before ++ normalizeFp after =
      normalizeFp front ++ normalizeFp copied := by
    rw [← hinput, ← normalizeFp_trim input, splitOnce_eq_some hsplit, normalizeFp_append,
      normalizeFp_cons_of_out (by decide)]
  obtain ⟨-, hsame⟩ := List.append_inj' hwhole ((not_not.mp hshort).trans hlength.symm)
  rw [← h.2, hsame]

section Codes

variable [Rustls] [Sha256] {folder : ConfigFolder} {cert : List UInt8}

omit [Sha256] in
lemma readPinnedCert_of_root (hpinned : folder.serverCert = some cert)
    (hroot : Rustls.addRoot cert = true) : readPinnedCert folder = .ok cert := by
  unfold readPinnedCert
  rw [hpinned]
  dsimp only
  rw [if_pos hroot]
  rfl

lemma resolveDialTarget_code {input addr fp : List Char} (hpinned : folder.serverCert = some cert)
    (hroot : Rustls.addRoot cert = true) (hcontains : '#' ∈ trim input)
    (hparse : parseConnectionCode (trim input) = some (addr, fp)) :
    resolveDialTarget folder input =
      if fp ≠ pinFingerprint cert (readDirectoryPub folder) ∧ fp ≠ pinFingerprint cert [] then
        .error untrusted
      else .ok addr := by
  unfold resolveDialTarget
  dsimp only
  rw [readPinnedCert_of_root hpinned hroot, hparse]
  show (if '#' ∉ trim input then _ else _) = _
  rw [if_neg (not_not.mpr hcontains)]
  rfl

omit [Rustls] [Sha256] in
lemma mark_mem_trim (addr copied : List Char) : '#' ∈ trim (addr ++ '#' :: copied) :=
  mem_trim (by decide) (List.mem_append_right _ List.mem_cons_self)

lemma resolveDialTarget_of_own {addr copied : List Char} {dir : List UInt8}
    (hpinned : folder.serverCert = some cert) (hroot : Rustls.addRoot cert = true)
    (hdir : dir = readDirectoryPub folder ∨ dir = [])
    (htrimmed : trim addr = addr) (hne : addr ≠ []) (hmark : '#' ∉ addr)
    (hcopied : CopiedAs (pinFingerprint cert dir) copied) :
    resolveDialTarget folder (addr ++ '#' :: copied) = .ok addr := by
  obtain ⟨hlength, hin⟩ := pinFingerprint_spec cert dir
  have hread := normalizeFp_copied hin hcopied
  have hparse := @parseConnectionCode_copied addr copied htrimmed hne hmark
    (by rw [hread]; exact hlength)
  rw [resolveDialTarget_code hpinned hroot (mark_mem_trim addr copied) hparse, hread, if_neg]
  rintro ⟨htwo, hone⟩
  rcases hdir with rfl | rfl
  · exact htwo rfl
  · exact hone rfl

lemma resolveDialTarget_of_other {addr copied fp : List Char}
    (hpinned : folder.serverCert = some cert) (hroot : Rustls.addRoot cert = true)
    (hlength : fp.length = 32) (hread : normalizeFp copied = fp)
    (htwo : fp ≠ pinFingerprint cert (readDirectoryPub folder)) (hone : fp ≠ pinFingerprint cert []) :
    ∃ e, resolveDialTarget folder (addr ++ '#' :: copied) = .error e := by
  have hcontains := mark_mem_trim addr copied
  have hnormal : normalizeFp (trim (addr ++ '#' :: copied)) =
      normalizeFp addr ++ normalizeFp copied := by
    rw [normalizeFp_trim, normalizeFp_append, normalizeFp_cons_of_out (by decide)]
  rcases hparse : parseConnectionCode (trim (addr ++ '#' :: copied)) with _ | ⟨a, f⟩
  · refine ⟨badCode, ?_⟩
    unfold resolveDialTarget
    dsimp only
    rw [readPinnedCert_of_root hpinned hroot, hparse]
    show (if '#' ∉ trim (addr ++ '#' :: copied) then _ else _) = _
    rw [if_neg (not_not.mpr hcontains)]
    rfl
  · obtain rfl := fingerprint_of_parse hnormal (by rw [hread]; exact hlength) hparse
    refine ⟨untrusted, ?_⟩
    rw [resolveDialTarget_code hpinned hroot hcontains hparse, hread, if_pos ⟨htwo, hone⟩]

variable [ConnectionJson]

lemma setServer_of_refused {input : List Char} {e : UiError}
    (h : resolveDialTarget folder input = .error e) (fault : Option SaveFault) :
    setServer folder input fault = (.error e, folder) := by
  unfold setServer
  rw [h]

/-- In a folder with a pinned certificate, every copy of a code of its pins, or of the certificate alone,
gives the address of the code, and every copy of a code of another certificate, or of another directory
key, is refused; nothing is written then. -/
theorem connectionCode_bound (hshort : RootsShort) (hpinned : folder.serverCert = some cert)
    (hroot : Rustls.addRoot cert = true) :
    (∀ addr copied dir, trim addr = addr → addr ≠ [] → '#' ∉ addr →
      dir = readDirectoryPub folder ∨ dir = [] → CopiedAs (pinFingerprint cert dir) copied →
        resolveDialTarget folder (addr ++ '#' :: copied) = .ok addr) ∧
    (∀ cert' dir', cert'.length < 2 ^ 32 →
      cert' ≠ cert ∨ dir' ≠ readDirectoryPub folder ∧ dir' ≠ [] →
      Set.InjOn truncatedHash {preimage cert' dir', preimage cert (readDirectoryPub folder),
        preimage cert []} →
      ∀ addr copied fault, CopiedAs (pinFingerprint cert' dir') copied →
        ∃ e, resolveDialTarget folder (addr ++ '#' :: copied) = .error e ∧
          setServer folder (addr ++ '#' :: copied) fault = (.error e, folder)) ∧
    ∀ input fault e, resolveDialTarget folder input = .error e →
      setServer folder input fault = (.error e, folder) := by
  refine ⟨?_, ?_, fun input fault e h => setServer_of_refused h fault⟩
  · intro addr copied dir htrimmed hne hmark hdir hcopied
    exact resolveDialTarget_of_own hpinned hroot hdir htrimmed hne hmark hcopied
  · intro cert' dir' hcert' hother hinj addr copied fault hcopied
    obtain ⟨hlength, hin⟩ := pinFingerprint_spec cert' dir'
    have hread := normalizeFp_copied hin hcopied
    have hcert := hshort.short cert hroot
    have htwo : pinFingerprint cert' dir' ≠ pinFingerprint cert (readDirectoryPub folder) := by
      intro hsame
      have hpre := hinj (by simp) (by simp) (truncatedHash_of_pinFingerprint hsame)
      obtain ⟨hc, hd⟩ := preimage_inj hcert' hcert hpre
      rcases hother with hc' | ⟨hd', -⟩
      · exact hc' hc
      · exact hd' hd
    have hone : pinFingerprint cert' dir' ≠ pinFingerprint cert [] := by
      intro hsame
      have hpre := hinj (by simp) (by simp) (truncatedHash_of_pinFingerprint hsame)
      obtain ⟨hc, hd⟩ := preimage_inj hcert' hcert hpre
      rcases hother with hc' | ⟨-, hd'⟩
      · exact hc' hc
      · exact hd' hd
    obtain ⟨e, hrefused⟩ := @resolveDialTarget_of_other _ _ folder cert addr copied _ hpinned hroot
      hlength hread htwo hone
    exact ⟨e, hrefused, setServer_of_refused hrefused fault⟩

end Codes

/-! ## An installation -/

section Installed

local instance : Sha256 := ⟨fun message => ⟨Fips180.sha256 message, Fips180.length_sha256 _⟩⟩

def ascii (s : String) : List UInt8 := s.toList.map fun c => UInt8.ofNat c.toNat

local instance : Rustls := ⟨fun _ => true, fun certDer => certDer == ascii "cert"⟩

local instance : ConnectionJson :=
  ⟨fun _ => none, fun cfg => cfg.server.map fun c => UInt8.ofNat c.toNat⟩

def installed : ConfigFolder := ⟨some (ascii "cert"), some (ascii "dir"), none⟩

lemma fingerprint_installed : pinFingerprint (ascii "cert") (ascii "dir") =
    "7ZYAOZUV4NXUTL5YVLNFRVB5MNKBOSNN".toList := by
  decide +kernel

/-- A person copies the code in groups, and some letters small. -/
def byHand : List Char := "7zyaozuv-4NXUTL5YVLNF RVB5MNKBOSNN".toList

lemma copied_byHand : CopiedAs (pinFingerprint (ascii "cert") (ascii "dir")) byHand := by
  rw [fingerprint_installed]
  unfold byHand
  repeat first
    | exact .nil
    | refine .keep (by decide) ?_
    | refine .insert (by decide) (by decide) ?_

lemma copiedAs_refl (s : List Char) : CopiedAs s s := by
  induction s with
  | nil => exact .nil
  | cons c s ih => exact .keep rfl ih

/-- The copy is taken in its folder, and a code of another certificate is not. -/
theorem connectionCode_bound_installed :
    resolveDialTarget installed ("10.0.0.2:8443".toList ++ '#' :: byHand) =
      .ok "10.0.0.2:8443".toList ∧
    ∃ e, setServer installed ("10.0.0.2:8443".toList ++ '#' ::
      pinFingerprint (ascii "trec") (ascii "dir")) none = (.error e, installed) := by
  have hshort : RootsShort := by
    refine ⟨fun certDer hroot => ?_⟩
    have hsame : certDer = ascii "cert" := beq_iff_eq.mp hroot
    rw [hsame]
    decide
  obtain ⟨hown, hother, -⟩ := @connectionCode_bound _ _ installed _ _ hshort rfl (by decide)
  refine ⟨?_, ?_⟩
  · exact hown _ _ (ascii "dir") (by decide) (by decide) (by decide) (.inl rfl) copied_byHand
  · have hinj : Set.InjOn truncatedHash {preimage (ascii "trec") (ascii "dir"),
        preimage (ascii "cert") (readDirectoryPub installed), preimage (ascii "cert") []} := by
      have hnodup : ([preimage (ascii "trec") (ascii "dir"),
          preimage (ascii "cert") (readDirectoryPub installed),
          preimage (ascii "cert") []].map truncatedHash).Nodup := by decide +kernel
      intro x hx y hy heq
      exact List.inj_on_of_nodup_map hnodup (by simpa using hx) (by simpa using hy) heq
    obtain ⟨e, -, hset⟩ := hother (ascii "trec") (ascii "dir") (by decide) (.inl (by decide)) hinj
      "10.0.0.2:8443".toList _ none (copiedAs_refl _)
    exact ⟨e, hset⟩

end Installed

end Bootstrap

end MaxSecu
