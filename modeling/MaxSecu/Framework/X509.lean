import MaxSecu.Framework.Der

/-!
# Certificates

The grammar of a certificate, as far as names are concerned: its fields in their order with the ones
that may be missing, the names of issuer and subject as lists of relative names, and the extensions, of
which none stands twice.  Values of attributes are of any type.  `Certificate.der` is its form in DER.

`findLed_name` says what a search for an identifier finds in a name, and `findLed_extensions` what it finds
among extensions.  In a name it may find more than types of attributes: it looks into their values.
-/

namespace X509

open Der

def idSubjectAltName : List UInt8 := [0x55, 0x1d, 0x11]

def idCommonName : List UInt8 := [0x55, 0x04, 0x03]

inductive NameKind
  | otherName
  | rfc822Name
  | dNSName
  | x400Address
  | directoryName
  | ediPartyName
  | uniformResourceIdentifier
  | iPAddress
  | registeredID

def NameKind.tag : NameKind → UInt8
  | otherName => 0xa0
  | rfc822Name => 0x81
  | dNSName => 0x82
  | x400Address => 0xa3
  | directoryName => 0xa4
  | ediPartyName => 0xa5
  | uniformResourceIdentifier => 0x86
  | iPAddress => 0x87
  | registeredID => 0x88

structure GeneralName where
  kind : NameKind
  content : List UInt8

def GeneralName.element (n : GeneralName) : Element := (n.kind.tag, n.content)

inductive Extension
  | subjectAltName (critical : Bool) (names : List GeneralName)
  | other (extnID : List UInt8) (critical : Bool) (extnValue : List UInt8)
      (hother : extnID ≠ idSubjectAltName)

namespace Extension

def extnID : Extension → List UInt8
  | subjectAltName _ _ => idSubjectAltName
  | other extnID _ _ _ => extnID

def critical : Extension → Bool
  | subjectAltName critical _ => critical
  | other _ critical _ _ => critical

def extnValue : Extension → List UInt8
  | subjectAltName _ names => encodeAll [(0x30, encodeAll (names.map GeneralName.element))]
  | other _ _ extnValue _ => extnValue

/-- An extension is not critical where it does not say so. -/
def fields (e : Extension) : List Element :=
  if e.critical then [(0x01, [0xff]), (0x04, e.extnValue)] else [(0x04, e.extnValue)]

def element (e : Extension) : Element := (0x30, encode (0x06, e.extnID) ++ encodeAll e.fields)

end Extension

inductive AnyValue
  | low (tag : UInt8) (content : List UInt8) (hlow : ¬ IsHigh tag)
  | high (tag : UInt8) (bytes : List UInt8) (hhigh : IsHigh tag)

def AnyValue.der : AnyValue → List UInt8
  | low tag content _ => encode (tag, content)
  | high tag bytes _ => tag :: bytes

structure Attribute where
  type : List UInt8
  value : AnyValue

def Attribute.element (a : Attribute) : Element := (0x30, encode (0x06, a.type) ++ a.value.der)

def rdnElement (attributes : List Attribute) : Element :=
  (0x31, encodeAll (attributes.map Attribute.element))

/-- Relative names, each of which is a set of attributes. -/
abbrev Name := List (List Attribute)

def nameContent (n : Name) : List UInt8 := encodeAll (n.map rdnElement)

structure Certificate where
  version : Option (List UInt8)
  serialNumber : List UInt8
  signature : List UInt8
  issuer : Name
  validity : List UInt8
  subject : Name
  subjectPublicKeyInfo : List UInt8
  issuerUniqueID : Option (List UInt8)
  subjectUniqueID : Option (List UInt8)
  extensions : Option (List Extension)
  signatureAlgorithm : List UInt8
  signatureValue : List UInt8
  once : ((extensions.getD []).map Extension.extnID).Nodup

namespace Certificate

def extensionsElement (exts : List Extension) : Element :=
  (0xa3, encodeAll [(0x30, encodeAll (exts.map Extension.element))])

def body (c : Certificate) : List Element :=
  [(0x02, c.serialNumber), (0x30, c.signature), (0x30, nameContent c.issuer), (0x30, c.validity),
    (0x30, nameContent c.subject), (0x30, c.subjectPublicKeyInfo)] ++
  ((c.issuerUniqueID.map fun bits => (0x81, bits)).toList ++
    ((c.subjectUniqueID.map fun bits => (0x82, bits)).toList ++
      (c.extensions.map extensionsElement).toList))

def tbsCertificate (c : Certificate) : List Element :=
  (c.version.map fun content => (0xa0, content)).toList ++ c.body

def der (c : Certificate) : List UInt8 :=
  encode (0x30, encodeAll [(0x30, encodeAll c.tbsCertificate), (0x30, c.signatureAlgorithm),
    (0x03, c.signatureValue)])

end Certificate

variable {oid : List UInt8}

/-! ## The tags -/

lemma NameKind.tag_low (k : NameKind) : ¬ IsHigh k.tag := by
  cases k <;> decide

lemma plain_generalNames {names : List GeneralName}
    (hshort : (encodeAll (names.map GeneralName.element)).length < 2 ^ 32) :
    Plain (names.map GeneralName.element) := by
  refine plain_of_short hshort fun e he => ?_
  obtain ⟨n, -, rfl⟩ := List.mem_map.mp he
  exact n.kind.tag_low

lemma plain_extensions {exts : List Extension}
    (hshort : (encodeAll (exts.map Extension.element)).length < 2 ^ 32) :
    Plain (exts.map Extension.element) := by
  refine plain_of_short hshort fun e he => ?_
  obtain ⟨ext, -, rfl⟩ := List.mem_map.mp he
  show ¬ IsHigh 0x30
  decide

lemma plain_attributes {attributes : List Attribute}
    (hshort : (encodeAll (attributes.map Attribute.element)).length < 2 ^ 32) :
    Plain (attributes.map Attribute.element) := by
  refine plain_of_short hshort fun e he => ?_
  obtain ⟨a, -, rfl⟩ := List.mem_map.mp he
  show ¬ IsHigh 0x30
  decide

lemma plain_name {n : Name} (hshort : (nameContent n).length < 2 ^ 32) :
    Plain (n.map rdnElement) := by
  refine plain_of_short hshort fun e he => ?_
  obtain ⟨attributes, -, rfl⟩ := List.mem_map.mp he
  show ¬ IsHigh 0x31
  decide

/-! ## Extensions -/

lemma Extension.tag_of_mem {ext : Extension} {e : Element} (he : e ∈ ext.fields) :
    e.1 = 0x01 ∨ e.1 = 0x04 := by
  unfold Extension.fields at he
  by_cases hcritical : ext.critical = true
  · rw [if_pos hcritical] at he
    rcases List.mem_pair.mp he with rfl | rfl
    · exact .inl rfl
    · exact .inr rfl
  · rw [if_neg hcritical] at he
    obtain rfl := List.mem_singleton.mp he
    exact .inr rfl

lemma Extension.plain_fields {ext : Extension} (h : (encodeAll ext.fields).length < 2 ^ 32) :
    Plain ext.fields := by
  refine plain_of_short h fun e he => ?_
  rcases Extension.tag_of_mem he with htag | htag
  · rw [htag]
    decide
  · rw [htag]
    decide

/-- Nothing in an extension is constructed. -/
lemma Extension.findLed_fields {ext : Extension} {depth : ℕ} (hid : ext.extnID.length < 2 ^ 32)
    (h : (encodeAll ext.fields).length < 2 ^ 32) :
    findLed oid depth (encode (0x06, ext.extnID) ++ encodeAll ext.fields) = none := by
  cases depth with
  | zero => rfl
  | succ depth =>
    unfold findLed
    rw [elements_encode (by decide) hid, elements_encodeAll_self (Extension.plain_fields h),
      List.findSome?_eq_none_iff]
    intro e he
    have hprimitive : e.1 &&& 0x20 = 0 := by
      rcases List.mem_cons.mp he with rfl | he
      · show (0x06 : UInt8) &&& 0x20 = 0
        decide
      · rcases Extension.tag_of_mem he with htag | htag
        · rw [htag]
          decide
        · rw [htag]
          decide
    rw [if_pos hprimitive]

/-- Among extensions, a search finds the first one of its identifier. -/
lemma findLed_extensions {exts : List Extension} {depth : ℕ}
    (hshort : (encodeAll (exts.map Extension.element)).length < 2 ^ 32) :
    findLed oid (depth + 1) (encodeAll (exts.map Extension.element)) =
      (exts.find? fun ext => ext.extnID = oid).map fun ext => encodeAll ext.fields := by
  have hplain := plain_extensions hshort
  unfold findLed
  rw [elements_encodeAll_self hplain]
  clear hshort
  induction exts with
  | nil => rfl
  | cons ext exts ih =>
    obtain ⟨-, hlength⟩ := hplain ext.element List.mem_cons_self
    have hparts : (encode (0x06, ext.extnID) ++ encodeAll ext.fields).length < 2 ^ 32 := hlength
    rw [List.length_append] at hparts
    have hid : ext.extnID.length < 2 ^ 32 :=
      (length_content_lt (0x06, ext.extnID)).trans (by omega)
    have hfirst : (if ext.element.1 &&& 0x20 = 0 then none
        else (behind oid ext.element.2).or (findLed oid depth ext.element.2)) =
        if ext.extnID = oid then some (encodeAll ext.fields) else none := by
      unfold Extension.element
      dsimp only
      rw [if_neg (by decide), behind_encode hid, Extension.findLed_fields hid (by omega),
        Option.or_none]
    rw [List.map_cons, List.findSome?_cons, hfirst, List.find?_cons,
      ih fun e he => hplain e (List.mem_cons_of_mem _ he)]
    by_cases hsame : ext.extnID = oid
    · rw [if_pos hsame, decide_eq_true hsame]
      rfl
    · rw [if_neg hsame, decide_eq_false hsame]

/-! ## Names -/

/-- What a search for an identifier finds inside a value. -/
def AnyValue.nested (oid : List UInt8) : AnyValue → Option (List UInt8)
  | low tag content _ =>
    if tag &&& 0x20 = 0 then none else (behind oid content).or (findLed oid 1 content)
  | high _ _ _ => none

/-- What it finds in an attribute: the value, if the type is the one that is looked for. -/
def Attribute.led (oid : List UInt8) (a : Attribute) : Option (List UInt8) :=
  if a.type = oid then some a.value.der else a.value.nested oid

lemma AnyValue.findLed_der {v : AnyValue} {id : List UInt8} (hid : id.length < 2 ^ 32)
    (h : v.der.length < 2 ^ 32) :
    findLed oid 2 (encode (0x06, id) ++ v.der) = v.nested oid := by
  unfold findLed
  rw [elements_encode (by decide) hid, List.findSome?_cons,
    if_pos (show (0x06 : UInt8) &&& 0x20 = 0 by decide)]
  dsimp only
  cases v with
  | low tag content hlow =>
    have hcontent : content.length < 2 ^ 32 := (length_content_lt (tag, content)).trans h
    have helements : elements (encode (tag, content)) = [(tag, content)] := by
      have hwhole := @elements_encode tag [] content hlow hcontent
      rwa [List.append_nil, elements_nil] at hwhole
    show (elements (encode (tag, content))).findSome? _ = _
    rw [helements, List.findSome?_singleton]
    rfl
  | high tag bytes hhigh =>
    show (elements (tag :: bytes)).findSome? _ = _
    rw [elements_of_none (read_high hhigh)]
    rfl

lemma findLed_attributes {attributes : List Attribute}
    (hshort : (encodeAll (attributes.map Attribute.element)).length < 2 ^ 32) :
    findLed oid 3 (encodeAll (attributes.map Attribute.element)) =
      attributes.findSome? (Attribute.led oid) := by
  have hplain := plain_attributes hshort
  unfold findLed
  rw [elements_encodeAll_self hplain]
  clear hshort
  induction attributes with
  | nil => rfl
  | cons a attributes ih =>
    obtain ⟨-, hlength⟩ := hplain a.element List.mem_cons_self
    have hparts : (encode (0x06, a.type) ++ a.value.der).length < 2 ^ 32 := hlength
    rw [List.length_append] at hparts
    have htype : a.type.length < 2 ^ 32 := (length_content_lt (0x06, a.type)).trans (by omega)
    have hfirst : (if a.element.1 &&& 0x20 = 0 then none
        else (behind oid a.element.2).or (findLed oid 2 a.element.2)) = a.led oid := by
      unfold Attribute.element Attribute.led
      dsimp only
      rw [if_neg (by decide), behind_encode htype, AnyValue.findLed_der htype (by omega)]
      by_cases hsame : a.type = oid
      · rw [if_pos hsame, if_pos hsame]
        rfl
      · rw [if_neg hsame, if_neg hsame, Option.none_or]
    rw [List.map_cons, List.findSome?_cons, hfirst, List.findSome?_cons,
      ih fun e he => hplain e (List.mem_cons_of_mem _ he)]

/-- A relative name is not led by an identifier. -/
lemma behind_attributes {attributes : List Attribute}
    (hplain : Plain (attributes.map Attribute.element)) :
    behind oid (encodeAll (attributes.map Attribute.element)) = none := by
  cases attributes with
  | nil => rfl
  | cons a attributes =>
    obtain ⟨-, hlength⟩ := hplain a.element List.mem_cons_self
    unfold encodeAll
    rw [List.map_cons, List.flatMap_cons]
    exact behind_of_tag (by decide) (by decide) hlength

/-- In a name, a search finds what it finds in the first of the attributes, in their order. -/
lemma findLed_name {n : Name} (hshort : (nameContent n).length < 2 ^ 32) :
    findLed oid 4 (nameContent n) = n.flatten.findSome? (Attribute.led oid) := by
  have hplain := plain_name hshort
  unfold findLed nameContent
  rw [elements_encodeAll_self hplain]
  clear hshort
  induction n with
  | nil => rfl
  | cons attributes n ih =>
    obtain ⟨-, hlength⟩ := hplain (rdnElement attributes) List.mem_cons_self
    have hshort : (encodeAll (attributes.map Attribute.element)).length < 2 ^ 32 := hlength
    have hfirst : (if (rdnElement attributes).1 &&& 0x20 = 0 then none
        else (behind oid (rdnElement attributes).2).or
          (findLed oid 3 (rdnElement attributes).2)) =
        attributes.findSome? (Attribute.led oid) := by
      unfold rdnElement
      dsimp only
      rw [if_neg (by decide), behind_attributes (plain_attributes hshort), Option.none_or,
        findLed_attributes hshort]
    rw [List.map_cons, List.findSome?_cons, hfirst, List.flatten_cons, List.findSome?_append,
      ih fun e he => hplain e (List.mem_cons_of_mem _ he)]
    cases attributes.findSome? (Attribute.led oid) with
    | none => rfl
    | some value => rfl

/-! ## Fields -/

namespace Certificate

variable {c : Certificate}

lemma optional_low {α : Type} {f : α → Element} (h : ∀ x, ¬ IsHigh (f x).1) (field : Option α) :
    ∀ e ∈ (field.map f).toList, ¬ IsHigh e.1 := by
  intro e he
  cases field with
  | none => exact absurd he List.not_mem_nil
  | some x =>
    obtain rfl := List.mem_singleton.mp he
    exact h x

/-- No field has a tag number of more bytes. -/
lemma tbsCertificate_low (c : Certificate) : ∀ e ∈ c.tbsCertificate, ¬ IsHigh e.1 := by
  intro e he
  unfold tbsCertificate body at he
  rcases List.mem_append.mp he with hversion | he
  · exact optional_low (fun _ => show ¬ IsHigh 0xa0 by decide) _ e hversion
  rcases List.mem_append.mp he with hfixed | he
  · have htag : e.1 = 0x02 ∨ e.1 = 0x30 := by
      simp only [List.mem_cons, List.not_mem_nil, or_false] at hfixed
      rcases hfixed with rfl | rfl | rfl | rfl | rfl | rfl
      · exact .inl rfl
      all_goals exact .inr rfl
    rcases htag with htag | htag
    · rw [htag]
      decide
    · rw [htag]
      decide
  rcases List.mem_append.mp he with hissuer | he
  · exact optional_low (fun _ => show ¬ IsHigh 0x81 by decide) _ e hissuer
  rcases List.mem_append.mp he with hsubject | hextensions
  · exact optional_low (fun _ => show ¬ IsHigh 0x82 by decide) _ e hsubject
  · exact optional_low (fun _ => show ¬ IsHigh 0xa3 by decide) _ e hextensions

/-- What is read of a short certificate: its fields. -/
lemma read_der (hshort : c.der.length < 2 ^ 32) :
    ∃ certificate, read c.der = some ((0x30, certificate), []) ∧
      (∃ rest, read certificate = some ((0x30, encodeAll c.tbsCertificate), rest)) ∧
      Plain c.tbsCertificate := by
  have hcontent := (length_content_lt (0x30, _)).trans hshort
  have htbs : (encodeAll c.tbsCertificate).length < 2 ^ 32 :=
    (length_le_encodeAll List.mem_cons_self).trans_lt hcontent
  refine ⟨_, read_encode_self (by decide) hcontent, ⟨encodeAll [(0x30, c.signatureAlgorithm),
    (0x03, c.signatureValue)], ?_⟩, plain_of_short htbs c.tbsCertificate_low⟩
  exact read_encode (by decide) htbs

end Certificate

end X509
