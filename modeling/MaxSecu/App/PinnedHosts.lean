import MaxSecu.App.Bootstrap
import MaxSecu.Framework.X509

/-!
# The names in the pinned certificate

The app reads from the pinned certificate where its server may be dialled: the alternative names, or
the common name of the subject where there are none.  It walks the elements of the certificate itself.
In the model `none` is a panic, or a loop that does not end.

`dialableHosts_exact` says when the walk offers the names of the certificate.  The search for the common
name looks into the values of attributes, and takes what it finds there for a common name.
-/

namespace MaxSecu

namespace PinnedHosts

open Bootstrap
open Der (Element)
open X509 (Certificate)

def OID_SUBJECT_ALT_NAME : List UInt8 := [0x55, 0x1d, 0x11]

def OID_COMMON_NAME : List UInt8 := [0x55, 0x04, 0x03]

def MAX_DER_DEPTH : ℕ := 4

/-- Split a slice; it panics if it is shorter. -/
def splitAt (bytes : List UInt8) (n : ℕ) : Option (List UInt8 × List UInt8) :=
  if n ≤ bytes.length then some (bytes.take n, bytes.drop n) else none

def cutContent (tag : UInt8) (len : ℕ) (r : List UInt8) :
    Option (Option (Element × List UInt8)) :=
  if r.length < len then some none
  else do
    let (content, rest) ← splitAt r len
    some (some ((tag, content), rest))

/-- The first element, and what stands behind it. -/
def derTlv : List UInt8 → Option (Option (Element × List UInt8))
  | [] => some none
  | tag :: r =>
    if tag &&& 0x1f = 0x1f then some none
    else match r with
      | [] => some none
      | firstLen :: r =>
        if firstLen < 0x80 then cutContent tag firstLen.toNat r
        else
          let n := (firstLen &&& 0x7f).toNat
          if n = 0 ∨ n > 4 ∨ r.length < n then some none
          else do
            let (lenBytes, r) ← splitAt r n
            cutContent tag (lenBytes.foldl (fun a x => (a <<< 8) ||| x.toNat) 0) r

def walk : ℕ → List UInt8 → Option (List Element)
  | 0, _ => none
  | fuel + 1, cur => do
    match ← derTlv cur with
    | none => some []
    | some (e, rest) => do
      let es ← walk fuel rest
      some (e :: es)

def elements (b : List UInt8) : Option (List Element) := walk (b.length + 1) b

def contentOf (tag : UInt8) : Option (Element × List UInt8) → Option (List UInt8)
  | some (e, _) => if e.1 = tag then some e.2 else none
  | none => none

/-- The subject and the extensions. -/
def tbsParts (certDer : List UInt8) : Option (Option (List UInt8 × List UInt8)) := do
  match contentOf 0x30 (← derTlv certDer) with
  | none => some none
  | some certificate =>
    match contentOf 0x30 (← derTlv certificate) with
    | none => some none
    | some tbs =>
      let fields ← elements tbs
      let body := if (fields.head?.map Prod.fst) = some 0xa0 then fields.drop 1 else fields
      let subject := ((body[4]?.filter fun e => e.1 = 0x30).map Prod.snd).getD []
      match body.find? fun e => e.1 = 0xa3 with
      | none => some (some (subject, []))
      | some e => some (some (subject, (contentOf 0x30 (← derTlv e.2)).getD []))

/-- What stands behind an identifier, if it is the element that is read. -/
def afterOid (oid : List UInt8) : Option (Element × List UInt8) → Option (List UInt8)
  | some (e, rest) => if e.1 = 0x06 ∧ e.2 = oid then some rest else none
  | none => none

/-- The first of the elements that is constructed and led by an identifier, or has one deeper. -/
def firstLed (oid : List UInt8) (deeper : List UInt8 → Option (Option (List UInt8))) :
    List Element → Option (Option (List UInt8))
  | [] => some none
  | e :: es =>
    if e.1 &&& 0x20 = 0 then firstLed oid deeper es
    else do
      match afterOid oid (← derTlv e.2) with
      | some rest => some (some rest)
      | none =>
        match ← deeper e.2 with
        | some hit => some (some hit)
        | none => firstLed oid deeper es

/-- What stands behind an identifier that leads an element, down to a depth. -/
def findByLeadingOid (oid : List UInt8) : ℕ → List UInt8 → Option (Option (List UInt8))
  | 0, _ => some none
  | depth + 1, der => do firstLed oid (findByLeadingOid oid depth) (← elements der)

/-- The octets of the first extension with an identifier. -/
def extensionValue (extensions oid : List UInt8) : Option (Option (List UInt8)) := do
  match ← findByLeadingOid oid MAX_DER_DEPTH extensions with
  | none => some none
  | some restOfExtension =>
    some (((← elements restOfExtension).find? fun e => e.1 = 0x04).map Prod.snd)

/-- A text that is not empty, of ASCII; this is what is valid in UTF-8 below 128. -/
def asciiText (content : List UInt8) : Option (List Char) :=
  if content.all (· < 0x80) ∧ content ≠ [] then some (content.map fun b => Char.ofNat b.toNat)
  else none

def ipv4Text (a b c d : UInt8) : List Char :=
  Nat.toDigits 10 a.toNat ++ '.' :: (Nat.toDigits 10 b.toNat ++ '.' :: (Nat.toDigits 10 c.toNat ++
    '.' :: Nat.toDigits 10 d.toNat))

/-- An address of four octets. -/
def ipHost : List UInt8 → Option (List Char)
  | [a, b, c, d] => some (ipv4Text a b c d)
  | _ => none

/-- The host that a name of the certificate gives. -/
def nameHost (e : Element) : Option (List Char) :=
  if e.1 = 0x82 then asciiText e.2
  else if e.1 = 0x87 then ipHost e.2
  else none

def sanHosts (extensions : List UInt8) : Option (List (List Char)) := do
  match ← extensionValue extensions OID_SUBJECT_ALT_NAME with
  | none => some []
  | some extnValue =>
    match contentOf 0x30 (← derTlv extnValue) with
    | none => some []
    | some names => some ((← elements names).filterMap nameHost)

/-- The text of an element that is a string of UTF-8, or one that can be printed, or of ASCII. -/
def textOf : Option (Element × List UInt8) → Option (List Char)
  | some (e, _) => if e.1 = 0x0c ∨ e.1 = 0x13 ∨ e.1 = 0x16 then asciiText e.2 else none
  | none => none

def subjectCommonName (subject : List UInt8) : Option (Option (List Char)) := do
  match ← findByLeadingOid OID_COMMON_NAME MAX_DER_DEPTH subject with
  | none => some none
  | some value => some (textOf (← derTlv value))

/-! ## Addresses of the standard library -/

def toDigit (radix : ℕ) (c : Char) : Option ℕ :=
  let value := if '0' ≤ c ∧ c ≤ '9' then c.toNat - '0'.toNat
    else if 'a' ≤ c ∧ c ≤ 'z' then c.toNat - 'a'.toNat + 10
    else if 'A' ≤ c ∧ c ≤ 'Z' then c.toNat - 'A'.toNat + 10
    else radix
  if value < radix then some value else none

/-- A number of at most so many digits and below a bound. -/
def readNumber (radix maxDigits : ℕ) (allowZeroPrefix : Bool) (bound : ℕ) (s : List Char) :
    Option (ℕ × List Char) :=
  let digits := s.takeWhile fun c => (toDigit radix c).isSome
  let value := digits.foldl (fun acc c => acc * radix + (toDigit radix c).getD 0) 0
  if digits.length > maxDigits ∨ digits = [] then none
  else if ¬ allowZeroPrefix ∧ digits.head? = some '0' ∧ digits.length > 1 then none
  else if value < bound then some (value, s.drop digits.length)
  else none

/-- Read behind a separator, except at first. -/
def readSeparator {α : Type} (sep : Char) (index : ℕ) (inner : List Char → Option (α × List Char))
    (s : List Char) : Option (α × List Char) :=
  if index > 0 then if s.head? = some sep then inner (s.drop 1) else none else inner s

def readIpv4Addr (s : List Char) : Option ((ℕ × ℕ × ℕ × ℕ) × List Char) := do
  let (a, s) ← readSeparator '.' 0 (readNumber 10 3 false 256) s
  let (b, s) ← readSeparator '.' 1 (readNumber 10 3 false 256) s
  let (c, s) ← readSeparator '.' 2 (readNumber 10 3 false 256) s
  let (d, s) ← readSeparator '.' 3 (readNumber 10 3 false 256) s
  some ((a, b, c, d), s)

/-- Groups of an address, of which so many are left, and whether an address of four numbers ends them. -/
def readGroups : ℕ → ℕ → List Char → List ℕ × Bool × List Char
  | 0, _, s => ([], false, s)
  | left + 1, index, s =>
    match if left > 0 then readSeparator ':' index readIpv4Addr s else none with
    | some ((a, b, c, d), s) => ([a * 256 + b, c * 256 + d], true, s)
    | none =>
      match readSeparator ':' index (readNumber 16 4 true 65536) s with
      | none => ([], false, s)
      | some (group, s) =>
        let (groups, ipv4, s) := readGroups left (index + 1) s
        (group :: groups, ipv4, s)

def readIpv6Addr (s : List Char) : Option (List ℕ × List Char) :=
  let (head, headIpv4, s) := readGroups 8 0 s
  if head.length = 8 then some (head, s)
  else if headIpv4 then none
  else match s with
    | ':' :: ':' :: s =>
      let (tail, _, s) := readGroups (7 - head.length) 0 s
      some (head ++ (List.replicate (8 - head.length - tail.length) 0 ++ tail), s)
    | _ => none

def isLoopbackHost (host : List Char) : Bool :=
  host.map Char.toLower == "localhost".toList ||
    match readIpv4Addr host with
    | some ((a, _), s) => s.isEmpty && a == 127
    | none =>
      match readIpv6Addr host with
      | some (groups, s) => s.isEmpty && groups == [0, 0, 0, 0, 0, 0, 0, 1]
      | none => false

example : ["LocalHost", "127.1.2.3", "::1", "0:0::0.0.0.1", "127.01.2.3", "::ffff:127.0.0.1",
    "10.0.0.2"].map (fun host => isLoopbackHost host.toList) =
    [true, true, true, true, false, false, false] := by decide +kernel

section Model

variable [Rustls]

/-- Keep what is not seen before. -/
def retainFresh : List (List Char) → List (List Char) → List (List Char)
  | _, [] => []
  | seen, host :: hosts =>
    if seen.contains host then retainFresh seen hosts else host :: retainFresh (seen ++ [host]) hosts

/-- What is offered of the hosts that are found. -/
def offered (hosts : List (List Char)) : List (List Char) :=
  retainFresh [] ((hosts.filter Rustls.serverName).insertionSort
    fun host host' => isLoopbackHost host ≤ isLoopbackHost host')

/-- The hosts that the app offers for a certificate. -/
def dialableHosts (certDer : List UInt8) : Option (List (List Char)) := do
  let (subject, extensions) := (← tbsParts certDer).getD ([], [])
  let hosts ← sanHosts extensions
  if hosts = [] then some (offered (← subjectCommonName subject).toList)
  else some (offered hosts)

end Model

/-! ## The walk is the reader of DER -/

lemma splitAt_of_le {bytes : List UInt8} {n : ℕ} (h : n ≤ bytes.length) :
    splitAt bytes n = some (bytes.take n, bytes.drop n) := by
  unfold splitAt
  rw [if_pos h]

lemma cutContent_eq (tag : UInt8) (len : ℕ) (r : List UInt8) :
    cutContent tag len r =
      some (if r.length < len then none else some ((tag, r.take len), r.drop len)) := by
  unfold cutContent
  by_cases hfew : r.length < len
  · rw [if_pos hfew, if_pos hfew]
  · rw [if_neg hfew, if_neg hfew, splitAt_of_le (not_lt.mp hfew)]
    rfl

lemma foldl_shift (bytes : List UInt8) :
    bytes.foldl (fun a x => (a <<< 8) ||| x.toNat) 0 = BigEndian.ofBytes bytes := by
  unfold BigEndian.ofBytes
  congr 1
  funext a x
  have hbyte : x.toNat < 2 ^ 8 := x.toNat_lt
  rw [← Nat.shiftLeft_add_eq_or_of_lt hbyte, Nat.shiftLeft_eq]

lemma derTlv_eq (b : List UInt8) : derTlv b = some (Der.read b) := by
  rcases b with _ | ⟨tag, _ | ⟨firstLen, r⟩⟩
  · rfl
  · unfold derTlv Der.read
    dsimp only
    by_cases hhigh : tag &&& 0x1f = 0x1f
    · rw [if_pos hhigh, if_pos (show Der.IsHigh tag from hhigh)]
    · rw [if_neg hhigh, if_neg (show ¬ Der.IsHigh tag from hhigh)]
      rfl
  · unfold derTlv Der.read Der.readLength
    dsimp only
    by_cases hhigh : tag &&& 0x1f = 0x1f
    · rw [if_pos hhigh, if_pos (show Der.IsHigh tag from hhigh)]
    · rw [if_neg hhigh, if_neg (show ¬ Der.IsHigh tag from hhigh)]
      by_cases hshort : firstLen < 0x80
      · rw [if_pos hshort, if_pos hshort, cutContent_eq]
        rfl
      · rw [if_neg hshort, if_neg hshort]
        by_cases hcount : (firstLen &&& 0x7f).toNat = 0 ∨ (firstLen &&& 0x7f).toNat > 4 ∨
            r.length < (firstLen &&& 0x7f).toNat
        · rw [if_pos hcount, if_pos hcount]
          rfl
        · have hle : (firstLen &&& 0x7f).toNat ≤ r.length := by omega
          rw [if_neg hcount, if_neg hcount, splitAt_of_le hle]
          show cutContent tag _ _ = _
          rw [cutContent_eq, foldl_shift]
          rfl

lemma walk_eq {fuel : ℕ} {b : List UInt8} (h : b.length < fuel) :
    walk fuel b = some (Der.elements b) := by
  induction fuel generalizing b with
  | zero => exact absurd h (Nat.not_lt_zero _)
  | succ fuel ih =>
    unfold walk
    rw [derTlv_eq]
    rcases hread : Der.read b with _ | ⟨e, rest⟩
    · rw [Der.elements_of_none hread]
      rfl
    · have hless := Der.read_length_lt hread
      show (walk fuel rest).bind _ = _
      rw [ih (by omega), Der.elements_of_some hread]
      rfl

lemma elements_eq (b : List UInt8) : elements b = some (Der.elements b) :=
  walk_eq (Nat.lt_succ_self _)

lemma afterOid_read (oid content : List UInt8) :
    afterOid oid (Der.read content) = Der.behind oid content := by
  unfold Der.behind
  cases Der.read content with
  | none => rfl
  | some child => rfl

lemma firstLed_eq {oid : List UInt8} {deeper : List UInt8 → Option (Option (List UInt8))}
    {below : List UInt8 → Option (List UInt8)} (h : ∀ b, deeper b = some (below b))
    (es : List Element) : firstLed oid deeper es = some (es.findSome? fun e =>
      if e.1 &&& 0x20 = 0 then none else (Der.behind oid e.2).or (below e.2)) := by
  induction es with
  | nil => rfl
  | cons e es ih =>
    unfold firstLed
    rw [List.findSome?_cons]
    by_cases hprimitive : e.1 &&& 0x20 = 0
    · rw [if_pos hprimitive, if_pos hprimitive, ih]
    · rw [if_neg hprimitive, if_neg hprimitive, derTlv_eq]
      simp only [Option.bind_eq_bind, Option.bind_some]
      rw [afterOid_read, h, ih]
      cases Der.behind oid e.2 with
      | some rest => rfl
      | none =>
        cases below e.2 with
        | none => rfl
        | some hit => rfl

lemma findByLeadingOid_eq (oid : List UInt8) (depth : ℕ) (b : List UInt8) :
    findByLeadingOid oid depth b = some (Der.findLed oid depth b) := by
  induction depth generalizing b with
  | zero => rfl
  | succ depth ih =>
    unfold findByLeadingOid Der.findLed
    rw [elements_eq]
    exact firstLed_eq ih _

/-! ## The fields of a certificate -/

section Certificates

variable {c : Certificate}

/-- The sequence of extensions, which may be empty. -/
def extensionsContent (c : Certificate) : List UInt8 :=
  Der.encodeAll ((c.extensions.getD []).map X509.Extension.element)

lemma body_of_fields : (if (c.tbsCertificate.head?.map Prod.fst) = some 0xa0 then
    c.tbsCertificate.drop 1 else c.tbsCertificate) = c.body := by
  unfold Certificate.tbsCertificate
  cases c.version with
  | none => exact if_neg (show ¬ some (0x02 : UInt8) = some 0xa0 by decide)
  | some version => exact if_pos rfl

lemma find_extensions : (c.body.find? fun e => e.1 = 0xa3) =
    c.extensions.map Certificate.extensionsElement := by
  unfold Certificate.body
  cases c.issuerUniqueID <;> cases c.subjectUniqueID <;> cases c.extensions <;> rfl

lemma length_body_lt (hplain : Der.Plain c.tbsCertificate) {e : Element} (he : e ∈ c.body) :
    e.2.length < 2 ^ 32 := by
  refine (hplain e ?_).2
  unfold Certificate.tbsCertificate
  exact List.mem_append_right _ he

lemma length_subject_lt (hplain : Der.Plain c.tbsCertificate) :
    (X509.nameContent c.subject).length < 2 ^ 32 := by
  refine length_body_lt hplain (e := (0x30, X509.nameContent c.subject)) ?_
  unfold Certificate.body
  exact List.mem_append_left _ (by simp)

lemma length_block_lt (hplain : Der.Plain c.tbsCertificate) {exts : List X509.Extension}
    (hexts : c.extensions = some exts) :
    (Der.encodeAll [(0x30, Der.encodeAll (exts.map X509.Extension.element))]).length < 2 ^ 32 := by
  refine length_body_lt hplain (e := Certificate.extensionsElement exts) ?_
  unfold Certificate.body
  rw [hexts]
  simp

lemma length_extensionsContent_lt (hplain : Der.Plain c.tbsCertificate) :
    (extensionsContent c).length < 2 ^ 32 := by
  unfold extensionsContent
  rcases hexts : c.extensions with _ | exts
  · decide
  · exact (Der.length_le_encodeAll (List.mem_singleton_self _)).trans_lt
      (length_block_lt hplain hexts)

lemma tbsParts_der (hshort : c.der.length < 2 ^ 32) :
    tbsParts c.der = some (some (X509.nameContent c.subject, extensionsContent c)) := by
  obtain ⟨certificate, hread, ⟨rest, htbs⟩, hplain⟩ := c.read_der hshort
  unfold tbsParts
  simp only [derTlv_eq, hread, Option.bind_eq_bind, Option.bind_some, contentOf, if_true, htbs,
    elements_eq, Der.elements_encodeAll_self hplain]
  rw [body_of_fields, find_extensions]
  unfold extensionsContent
  rcases hexts : c.extensions with _ | exts
  · rfl
  · have hblock := length_block_lt hplain hexts
    have hcontent : (Der.encodeAll (exts.map X509.Extension.element)).length < 2 ^ 32 :=
      (Der.length_le_encodeAll (List.mem_singleton_self _)).trans_lt hblock
    have hextensions : Der.read (Certificate.extensionsElement exts).2 =
        some ((0x30, Der.encodeAll (exts.map X509.Extension.element)), []) := by
      unfold Certificate.extensionsElement
      rw [Der.encodeAll_singleton]
      exact Der.read_encode_self (by decide) hcontent
    simp only [Option.map_some, hextensions]
    rfl

/-! ## The alternative names -/

/-- The host that a general name is, if it is one that can be dialled. -/
def generalNameHost (n : X509.GeneralName) : Option (List Char) :=
  match n.kind with
  | .dNSName => asciiText n.content
  | .iPAddress => ipHost n.content
  | _ => none

def extensionHosts : X509.Extension → List (List Char)
  | .subjectAltName _ names => names.filterMap generalNameHost
  | .other _ _ _ _ => []

def firstSan (exts : List X509.Extension) : Option X509.Extension :=
  exts.find? fun ext => ext.extnID = OID_SUBJECT_ALT_NAME

/-- The hosts among the alternative names of a certificate. -/
def sanEntries (c : Certificate) : List (List Char) := (c.extensions.getD []).flatMap extensionHosts

lemma nameHost_element (n : X509.GeneralName) : nameHost n.element = generalNameHost n := by
  obtain ⟨kind, content⟩ := n
  cases kind <;> rfl

lemma find_octets (ext : X509.Extension) :
    ((ext.fields.find? fun e => e.1 = 0x04).map Prod.snd) = some ext.extnValue := by
  unfold X509.Extension.fields
  by_cases hcritical : ext.critical = true
  · rw [if_pos hcritical]
    rfl
  · rw [if_neg hcritical]
    rfl

lemma flatMap_hosts {exts : List X509.Extension} (honce : (exts.map X509.Extension.extnID).Nodup) :
    exts.flatMap extensionHosts = ((firstSan exts).map extensionHosts).getD [] := by
  induction exts with
  | nil => rfl
  | cons ext exts ih =>
    rw [List.map_cons, List.nodup_cons] at honce
    obtain ⟨hnotMem, honce⟩ := honce
    rw [List.flatMap_cons, ih honce]
    unfold firstSan
    cases ext with
    | other extnID critical extnValue hother =>
      rw [List.find?_cons_of_neg (by rw [decide_eq_true_eq]; exact hother)]
      rfl
    | subjectAltName critical names =>
      have hnone : (exts.find? fun ext => ext.extnID = OID_SUBJECT_ALT_NAME) = none := by
        rw [List.find?_eq_none]
        intro ext hext hsan
        rw [decide_eq_true_eq] at hsan
        exact hnotMem (List.mem_map.mpr ⟨ext, hext, hsan⟩)
      rw [hnone, List.find?_cons_of_pos (by rw [decide_eq_true_eq]; rfl)]
      exact List.append_nil _

lemma firstSan_spec {exts : List X509.Extension} {ext : X509.Extension}
    (h : firstSan exts = some ext) : ext ∈ exts ∧ ∃ critical names,
      ext = .subjectAltName critical names := by
  unfold firstSan at h
  have hsan := List.find?_some h
  rw [decide_eq_true_eq] at hsan
  refine ⟨List.mem_of_find?_eq_some h, ?_⟩
  cases ext with
  | other extnID critical extnValue hother => exact absurd hsan hother
  | subjectAltName critical names => exact ⟨critical, names, rfl⟩

lemma length_fields_lt {exts : List X509.Extension} {ext : X509.Extension} (hmem : ext ∈ exts)
    (hshort : (Der.encodeAll (exts.map X509.Extension.element)).length < 2 ^ 32) :
    (Der.encodeAll ext.fields).length < 2 ^ 32 := by
  obtain ⟨-, hlength⟩ := X509.plain_extensions hshort _ (List.mem_map_of_mem hmem)
  refine lt_of_le_of_lt ?_ hlength
  unfold X509.Extension.element
  dsimp only
  rw [List.length_append]
  omega

lemma extensionValue_eq {exts : List X509.Extension}
    (hshort : (Der.encodeAll (exts.map X509.Extension.element)).length < 2 ^ 32) :
    extensionValue (Der.encodeAll (exts.map X509.Extension.element)) OID_SUBJECT_ALT_NAME =
      some ((firstSan exts).map X509.Extension.extnValue) := by
  have hfound : Der.findLed OID_SUBJECT_ALT_NAME MAX_DER_DEPTH
      (Der.encodeAll (exts.map X509.Extension.element)) =
      (firstSan exts).map fun ext => Der.encodeAll ext.fields := X509.findLed_extensions hshort
  unfold extensionValue
  rw [findByLeadingOid_eq, hfound]
  rcases hsan : firstSan exts with _ | ext
  · rfl
  · have hplain := X509.Extension.plain_fields (length_fields_lt (firstSan_spec hsan).1 hshort)
    simp only [Option.map_some, Option.bind_eq_bind, Option.bind_some, elements_eq,
      Der.elements_encodeAll_self hplain, find_octets]

lemma sanHosts_eq {exts : List X509.Extension} (honce : (exts.map X509.Extension.extnID).Nodup)
    (hshort : (Der.encodeAll (exts.map X509.Extension.element)).length < 2 ^ 32) :
    sanHosts (Der.encodeAll (exts.map X509.Extension.element)) =
      some (exts.flatMap extensionHosts) := by
  unfold sanHosts
  rw [extensionValue_eq hshort, flatMap_hosts honce]
  rcases hsan : firstSan exts with _ | ext
  · rfl
  · obtain ⟨hmem, critical, names, rfl⟩ := firstSan_spec hsan
    have hvalue : (Der.encodeAll [(0x30, Der.encodeAll
        (names.map X509.GeneralName.element))]).length < 2 ^ 32 := by
      refine lt_of_le_of_lt ?_ (length_fields_lt hmem hshort)
      have hin : ((0x04, Der.encodeAll [(0x30, Der.encodeAll
          (names.map X509.GeneralName.element))]) : Element) ∈
          (X509.Extension.subjectAltName critical names).fields := by
        cases critical with
        | false => exact List.mem_cons_self
        | true => exact List.mem_cons_of_mem _ List.mem_cons_self
      exact Der.length_le_encodeAll hin
    have hnames : (Der.encodeAll (names.map X509.GeneralName.element)).length < 2 ^ 32 :=
      (Der.length_le_encodeAll (List.mem_singleton_self _)).trans_lt hvalue
    have hread : Der.read (X509.Extension.subjectAltName critical names).extnValue =
        some ((0x30, Der.encodeAll (names.map X509.GeneralName.element)), []) := by
      unfold X509.Extension.extnValue
      dsimp only
      rw [Der.encodeAll_singleton]
      exact Der.read_encode_self (by decide) hnames
    have hhosts : nameHost ∘ X509.GeneralName.element = generalNameHost := funext nameHost_element
    simp only [Option.map_some, Option.bind_eq_bind, Option.bind_some, derTlv_eq, hread,
      contentOf, if_true, elements_eq, Der.elements_encodeAll_self (X509.plain_generalNames hnames),
      List.filterMap_map, hhosts, Option.getD_some]
    rfl

/-! ## The common name -/

def valueText : X509.AnyValue → Option (List Char)
  | .low tag content _ => if tag = 0x0c ∨ tag = 0x13 ∨ tag = 0x16 then asciiText content else none
  | .high _ _ _ => none

/-- The first attribute of the subject that is a common name. -/
def nameAttribute (c : Certificate) : Option X509.Attribute :=
  c.subject.flatten.find? fun a => a.type = OID_COMMON_NAME

def commonName (c : Certificate) : Option (List Char) :=
  (nameAttribute c).bind fun a => valueText a.value

/-- What the search finds in the values of the attributes before it. -/
def misread (c : Certificate) : Option (List UInt8) :=
  (c.subject.flatten.takeWhile fun a => a.type ≠ OID_COMMON_NAME).findSome? fun a =>
    a.value.nested OID_COMMON_NAME

/-- What the search takes for the common name. -/
def foundName (c : Certificate) : Option (List Char) :=
  match misread c with
  | some value => textOf (Der.read value)
  | none => commonName c

lemma textOf_der {v : X509.AnyValue} (h : v.der.length < 2 ^ 32) :
    textOf (Der.read v.der) = valueText v := by
  cases v with
  | low tag content hlow =>
    have hcontent : content.length < 2 ^ 32 := (Der.length_content_lt (tag, content)).trans h
    have hread : Der.read (X509.AnyValue.low tag content hlow).der = some ((tag, content), []) :=
      Der.read_encode_self hlow hcontent
    rw [hread]
    rfl
  | high tag bytes hhigh =>
    have hread : Der.read (X509.AnyValue.high tag bytes hhigh).der = none := Der.read_high hhigh
    rw [hread]
    rfl

/-- The search finds something in a value before the first attribute of the type, or this attribute. -/
lemma findSome_led (oid : List UInt8) (attributes : List X509.Attribute) :
    attributes.findSome? (X509.Attribute.led oid) =
      (((attributes.takeWhile fun a => a.type ≠ oid).findSome? fun a => a.value.nested oid).or
        ((attributes.find? fun a => a.type = oid).map fun a => a.value.der)) := by
  induction attributes with
  | nil => rfl
  | cons a attributes ih =>
    rw [List.findSome?_cons]
    unfold X509.Attribute.led
    by_cases hsame : a.type = oid
    · rw [if_pos hsame, List.takeWhile_cons_of_neg (by simpa using hsame),
        List.find?_cons_of_pos (by simpa using hsame)]
      rfl
    · rw [if_neg hsame, List.takeWhile_cons_of_pos (by simpa using hsame),
        List.find?_cons_of_neg (by simpa using hsame), List.findSome?_cons]
      cases a.value.nested oid with
      | none => exact ih
      | some hit => rfl

lemma length_value_lt {n : X509.Name} {a : X509.Attribute}
    (hshort : (X509.nameContent n).length < 2 ^ 32) (h : a ∈ n.flatten) :
    a.value.der.length < 2 ^ 32 := by
  obtain ⟨attributes, hmem, ha⟩ := List.mem_flatten.mp h
  have hset : (Der.encodeAll (attributes.map X509.Attribute.element)).length < 2 ^ 32 :=
    (X509.plain_name hshort _ (List.mem_map_of_mem hmem)).2
  have hlength : (Der.encode (0x06, a.type) ++ a.value.der).length < 2 ^ 32 :=
    (X509.plain_attributes hset _ (List.mem_map_of_mem ha)).2
  rw [List.length_append] at hlength
  omega

lemma subjectCommonName_eq {c : Certificate}
    (hshort : (X509.nameContent c.subject).length < 2 ^ 32) :
    subjectCommonName (X509.nameContent c.subject) = some (foundName c) := by
  have hfound : Der.findLed OID_COMMON_NAME MAX_DER_DEPTH (X509.nameContent c.subject) =
      (misread c).or ((nameAttribute c).map fun a => a.value.der) :=
    (X509.findLed_name hshort).trans (findSome_led OID_COMMON_NAME c.subject.flatten)
  unfold subjectCommonName foundName commonName
  rw [findByLeadingOid_eq, hfound]
  cases misread c with
  | some value =>
    simp only [Option.some_or, Option.bind_eq_bind, Option.bind_some, derTlv_eq]
  | none =>
    rcases hfirst : nameAttribute c with _ | a
    · rfl
    · have hvalue := length_value_lt hshort (List.mem_of_find?_eq_some hfirst)
      simp only [Option.none_or, Option.map_some, Option.bind_eq_bind, Option.bind_some, derTlv_eq,
        textOf_der hvalue]

end Certificates

/-! ## The order of the hosts -/

section Offers

variable [Rustls]

/-- The hosts that can be dialled, the ones of the same machine last, in their order and once each. -/
def listed (hosts : List (List Char)) : List (List Char) :=
  ((hosts.filter Rustls.serverName).filter (fun host => !isLoopbackHost host) ++
    (hosts.filter Rustls.serverName).filter isLoopbackHost).eraseDups

omit [Rustls] in
lemma retainFresh_eq (seen hosts : List (List Char)) :
    retainFresh seen hosts = (hosts.filter fun host => host ∉ seen).eraseDups := by
  induction hosts generalizing seen with
  | nil => rfl
  | cons host hosts ih =>
    unfold retainFresh
    by_cases hseen : host ∈ seen
    · rw [if_pos (List.contains_iff_mem.mpr hseen), ih, List.filter_cons_of_neg (by simpa using hseen)]
    · rw [if_neg (mt List.contains_iff_mem.mp hseen), ih,
        List.filter_cons_of_pos (by simpa using hseen), List.eraseDups_cons,
        List.filter_filter]
      congr 2
      refine List.filter_congr fun other _ => ?_
      rw [Bool.eq_iff_iff]
      simp [and_comm]

omit [Rustls] in
lemma orderedInsert_append {α : Type} {r : α → α → Prop} [DecidableRel r] {a : α} {l l' : List α}
    (hbefore : ∀ x ∈ l, ¬ r a x) (hbehind : ∀ x ∈ l', r a x) :
    (l ++ l').orderedInsert r a = l ++ a :: l' := by
  induction l with
  | nil =>
    cases l' with
    | nil => rfl
    | cons x l' => exact List.orderedInsert_cons_of_le r _ (hbehind x List.mem_cons_self)
  | cons x l ih =>
    rw [List.cons_append, List.orderedInsert_of_not_le r _ (hbefore x List.mem_cons_self),
      ih fun y hy => hbefore y (List.mem_cons_of_mem _ hy)]
    rfl

omit [Rustls] in
lemma insertionSort_key {α : Type} (key : α → Bool) (l : List α) :
    l.insertionSort (fun x y => key x ≤ key y) =
      l.filter (fun x => !key x) ++ l.filter key := by
  induction l with
  | nil => rfl
  | cons a l ih =>
    rw [List.insertionSort_cons, ih]
    rcases hkey : key a with _ | _
    · rw [List.filter_cons_of_pos (by rw [hkey]; rfl), List.filter_cons_of_neg (by rw [hkey]; decide)]
      refine orderedInsert_append (l := []) (fun x hx => absurd hx List.not_mem_nil) fun x _ => ?_
      rw [hkey]
      exact Bool.false_le _
    · rw [List.filter_cons_of_neg (by rw [hkey]; decide), List.filter_cons_of_pos hkey]
      refine orderedInsert_append (fun x hx => ?_) fun x hx => ?_
      · have hx := List.of_mem_filter hx
        rw [Bool.not_eq_true'] at hx
        rw [hkey, hx]
        decide
      · rw [List.of_mem_filter hx]
        exact Bool.le_true _

lemma offered_eq (hosts : List (List Char)) : offered hosts = listed hosts := by
  unfold offered listed
  rw [retainFresh_eq, insertionSort_key]
  congr 1
  rw [List.filter_eq_self]
  intro host _
  simp

lemma listed_toList (host : Option (List Char)) :
    listed host.toList = (host.filter Rustls.serverName).toList := by
  cases host with
  | none => rfl
  | some host =>
    unfold listed
    rw [Option.toList_some]
    by_cases hpass : Rustls.serverName host = true
    · rw [List.filter_cons_of_pos hpass, Option.filter_some_pos hpass]
      rcases hloop : isLoopbackHost host with _ | _
      · simp [hloop, List.eraseDups_cons]
      · simp [hloop, List.eraseDups_cons]
    · rw [List.filter_cons_of_neg hpass, Option.filter_some_neg (by simpa using hpass)]
      rfl

/-! ## The offer -/

omit [Rustls] in
lemma tbsParts_total (b : List UInt8) : ∃ parts, tbsParts b = some parts := by
  unfold tbsParts
  simp only [derTlv_eq, elements_eq, Option.bind_eq_bind, Option.bind_some]
  cases contentOf 0x30 (Der.read b) with
  | none => exact ⟨_, rfl⟩
  | some certificate =>
    dsimp only
    cases contentOf 0x30 (Der.read certificate) with
    | none => exact ⟨_, rfl⟩
    | some tbs =>
      dsimp only
      split
      · exact ⟨_, rfl⟩
      · exact ⟨_, rfl⟩

omit [Rustls] in
lemma extensionValue_total (extensions oid : List UInt8) :
    ∃ value, extensionValue extensions oid = some value := by
  unfold extensionValue
  simp only [findByLeadingOid_eq, elements_eq, Option.bind_eq_bind, Option.bind_some]
  cases Der.findLed oid MAX_DER_DEPTH extensions with
  | none => exact ⟨_, rfl⟩
  | some rest => exact ⟨_, rfl⟩

omit [Rustls] in
lemma sanHosts_total (extensions : List UInt8) : ∃ hosts, sanHosts extensions = some hosts := by
  obtain ⟨value, hvalue⟩ := extensionValue_total extensions OID_SUBJECT_ALT_NAME
  unfold sanHosts
  rw [hvalue]
  cases value with
  | none => exact ⟨_, rfl⟩
  | some extnValue =>
    simp only [derTlv_eq, elements_eq, Option.bind_eq_bind, Option.bind_some]
    cases contentOf 0x30 (Der.read extnValue) with
    | none => exact ⟨_, rfl⟩
    | some names => exact ⟨_, rfl⟩

omit [Rustls] in
lemma subjectCommonName_total (subject : List UInt8) :
    ∃ name, subjectCommonName subject = some name := by
  unfold subjectCommonName
  simp only [findByLeadingOid_eq, derTlv_eq, Option.bind_eq_bind, Option.bind_some]
  cases Der.findLed OID_COMMON_NAME MAX_DER_DEPTH subject with
  | none => exact ⟨_, rfl⟩
  | some value => exact ⟨_, rfl⟩

lemma dialableHosts_total (b : List UInt8) : ∃ hosts, dialableHosts b = some hosts := by
  obtain ⟨parts, hparts⟩ := tbsParts_total b
  obtain ⟨hosts, hhosts⟩ := sanHosts_total (parts.getD ([], [])).2
  obtain ⟨name, hname⟩ := subjectCommonName_total (parts.getD ([], [])).1
  unfold dialableHosts
  rw [hparts]
  simp only [Option.bind_eq_bind, Option.bind_some, hhosts, hname]
  by_cases hempty : hosts = []
  · rw [if_pos hempty]
    exact ⟨_, rfl⟩
  · rw [if_neg hempty]
    exact ⟨_, rfl⟩

/-- What a certificate has to offer: its alternative names, or its common name if there are none. -/
def certificateHosts (c : Certificate) : List (List Char) :=
  if sanEntries c = [] then listed (commonName c).toList else listed (sanEntries c)

lemma dialableHosts_der {c : Certificate} (hshort : c.der.length < 2 ^ 32) :
    dialableHosts c.der = some
      (if sanEntries c = [] then listed (foundName c).toList else listed (sanEntries c)) := by
  obtain ⟨-, -, -, hplain⟩ := c.read_der hshort
  have hsan : sanHosts (extensionsContent c) = some (sanEntries c) :=
    sanHosts_eq c.once (length_extensionsContent_lt hplain)
  unfold dialableHosts
  rw [tbsParts_der hshort]
  simp only [Option.bind_eq_bind, Option.bind_some, Option.getD_some, hsan,
    subjectCommonName_eq (length_subject_lt hplain), offered_eq]
  split
  · rfl
  · rfl

/-- The app offers something for all bytes.  For a certificate it offers what the certificate has, unless
there is no alternative name, and something that is no common name of the subject, found in a value before
it, reads as another host. -/
theorem dialableHosts_exact :
    (∀ b, ∃ hosts, dialableHosts b = some hosts) ∧
    ∀ c : Certificate, c.der.length < 2 ^ 32 →
      (dialableHosts c.der = some (certificateHosts c) ↔
        sanEntries c ≠ [] ∨ ∀ value, misread c = some value →
          (textOf (Der.read value)).filter Rustls.serverName =
            (commonName c).filter Rustls.serverName) := by
  refine ⟨dialableHosts_total, fun c hshort => ?_⟩
  rw [dialableHosts_der hshort, Option.some.injEq]
  unfold certificateHosts
  by_cases hempty : sanEntries c = []
  · rw [if_pos hempty, if_pos hempty, listed_toList, listed_toList]
    unfold foundName
    rcases hmisread : misread c with _ | value
    · refine iff_of_true rfl (.inr fun value hvalue => ?_)
      exact absurd hvalue (Option.some_ne_none _).symm
    · refine ⟨fun hsame => .inr fun value' hvalue => ?_, fun h => ?_⟩
      · rw [Option.some.injEq] at hvalue
        rw [← hvalue]
        have hhead := congrArg List.head? hsame
        rwa [Option.head?_toList, Option.head?_toList] at hhead
      · rcases h with hsome | hsame
        · exact absurd hempty hsome
        · exact congrArg _ (hsame value rfl)
  · rw [if_neg hempty, if_neg hempty]
    exact iff_of_true rfl (.inl hempty)

end Offers

/-! ## Two certificates -/

section Issued

local instance : Rustls := ⟨fun _ => true, fun _ => true⟩

lemma utf8_low : ¬ Der.IsHigh 0x0c := by
  decide

lemma set_low : ¬ Der.IsHigh 0x31 := by
  decide

def textValue (s : String) : X509.AnyValue := .low 0x0c (ascii s) utf8_low

/-- The algorithm of the key and of the signature. -/
def ed25519 : List UInt8 := Der.encode (0x06, [0x2b, 0x65, 0x70])

def sanExtensions (names : List X509.GeneralName) : Option (List X509.Extension) :=
  if names = [] then none else some [.subjectAltName false names]

lemma sanExtensions_once (names : List X509.GeneralName) :
    (((sanExtensions names).getD []).map X509.Extension.extnID).Nodup := by
  unfold sanExtensions
  split
  · exact List.nodup_nil
  · exact List.nodup_singleton _

/-- A certificate for a subject, with alternative names or without. -/
def issued (subject : X509.Name) (names : List X509.GeneralName) : Certificate where
  version := some (Der.encode (0x02, [2]))
  serialNumber := [1]
  signature := ed25519
  issuer := [[⟨X509.idCommonName, textValue "issuer"⟩]]
  validity := Der.encodeAll [(0x17, ascii "260101000000Z"), (0x17, ascii "360101000000Z")]
  subject := subject
  subjectPublicKeyInfo := Der.encodeAll [(0x30, ed25519), (0x03, 0 :: List.replicate 32 9)]
  issuerUniqueID := none
  subjectUniqueID := none
  extensions := sanExtensions names
  signatureAlgorithm := ed25519
  signatureValue := 0 :: List.replicate 64 7
  once := sanExtensions_once names

/-- Of some other authority, a relative name with a common name in it. -/
def relativeName : X509.AnyValue :=
  .low 0x31 (Der.encodeAll [(0x30, Der.encodeAll [(0x06, X509.idCommonName),
    (0x0c, ascii "unit")])]) set_low

/-- An attribute with a relative name as its value stands before the common name. -/
def nestedSubject : X509.Name :=
  [[⟨[0x2b, 0x06, 0x01, 0x04, 0x01, 0x01], relativeName⟩], [⟨X509.idCommonName, textValue "host"⟩]]

/-- Alternative names are offered, the local one last. -/
theorem dialableHosts_exact_issued :
    dialableHosts (issued nestedSubject [⟨.dNSName, ascii "localhost"⟩,
      ⟨.iPAddress, [10, 0, 0, 2]⟩]).der = some ["10.0.0.2".toList, "localhost".toList] := by
  have hexact := (dialableHosts_exact.2 (issued nestedSubject [⟨.dNSName, ascii "localhost"⟩,
    ⟨.iPAddress, [10, 0, 0, 2]⟩]) (by decide +kernel)).mpr (.inl (by decide +kernel))
  rw [hexact]
  decide +kernel

/-- Without them, the relative name is offered in place of the host. -/
theorem dialableHosts_nestedName : (issued nestedSubject []).der.length < 2 ^ 32 ∧
    dialableHosts (issued nestedSubject []).der = some ["unit".toList] ∧
    certificateHosts (issued nestedSubject []) = ["host".toList] := by
  refine ⟨?_, ?_, ?_⟩
  · decide +kernel
  · decide +kernel
  · decide +kernel

end Issued

end PinnedHosts

end MaxSecu
