import MaxSecu.Crypto.Primitives
import MaxSecu.Framework.ExceptRules

/-!
# Directory delegations

The offline directory key authorizes the server's operational key by a short-lived certificate: a
body of fixed little-endian layout and a raw signature over it, 113 bytes in all.  A certificate is
not one of the canonical structures, yet it has one spelling (`serialize_of_parse`).
-/

namespace MaxSecu

open ExceptRules

structure DirectoryDelegation where
  version : UInt8
  operationalPub : Bytes 32
  validFrom : UInt64
  validUntil : UInt64
  signature : Bytes 64
  deriving DecidableEq

namespace Delegation

def DELEGATION_BODY_LEN : ℕ := 1 + 32 + 8 + 8

def DELEGATION_WIRE_LEN : ℕ := DELEGATION_BODY_LEN + 64

def DELEGATION_VERSION : UInt8 := 1

/-- How far the clocks of signer and server may be apart, in seconds. -/
def DELEGATION_CLOCK_SKEW_SECS : UInt64 := 24 * 3600

def toLeBytes (n : UInt64) : List UInt8 := (BigEndian.toBytes 8 n.toNat).reverse

def fromLeBytes (bytes : List UInt8) : UInt64 := UInt64.ofNat (BigEndian.ofBytes bytes.reverse)

def bodyBytes (operationalPub : Bytes 32) (validFrom validUntil : UInt64) : List UInt8 :=
  DELEGATION_VERSION :: (operationalPub.toList ++ (toLeBytes validFrom ++ toLeBytes validUntil))

def serialize (d : DirectoryDelegation) : List UInt8 :=
  bodyBytes d.operationalPub d.validFrom d.validUntil ++ d.signature.toList

def sign [Ed25519] (d5Secret : SigningKey) (operationalPub : Bytes 32)
    (validFrom validUntil : UInt64) : List UInt8 :=
  let body := bodyBytes operationalPub validFrom validUntil
  body ++ (d5Secret.signRaw (signingInput Label.directoryDelegation.text body)).toList

def slice (bytes : List UInt8) (start len : ℕ) (h : start + len ≤ bytes.length) : Bytes len :=
  ⟨(bytes.drop start).take len, by simp; omega⟩

/-- The length and the version are checked, the signature is not. -/
def parse (bytes : List UInt8) : Except CryptoError DirectoryDelegation :=
  if hlen : bytes.length = DELEGATION_WIRE_LEN then
    have hlen' : bytes.length = 113 := hlen
    let version := bytes.get ⟨0, by omega⟩
    if version ≠ DELEGATION_VERSION then
      .error .badLength
    else
      .ok
        { version
          operationalPub := slice bytes 1 32 (by omega)
          validFrom := fromLeBytes (slice bytes 33 8 (by omega)).toList
          validUntil := fromLeBytes (slice bytes 41 8 (by omega)).toList
          signature := slice bytes 49 64 (by omega) }
  else
    .error .badLength

/-- Verify a certificate under the directory key at a time, and return the key it authorizes. -/
def verify [Ed25519] (d5Pub : Bytes 32) (bytes : List UInt8) (now : UInt64) :
    Except CryptoError (Bytes 32) := do
  let cert ← parse bytes
  let vk ← VerifyingKey.fromBytes d5Pub
  let body := bodyBytes cert.operationalPub cert.validFrom cert.validUntil
  vk.verifyRaw (signingInput Label.directoryDelegation.text body) cert.signature
  if now < cert.validFrom ∨ cert.validUntil < now then
    throw .delegationExpired
  else
    pure cert.operationalPub

/-! ## One spelling -/

@[simp] lemma length_toLeBytes (n : UInt64) : (toLeBytes n).length = 8 := by
  simp [toLeBytes]

@[simp] lemma fromLeBytes_toLeBytes (n : UInt64) : fromLeBytes (toLeBytes n) = n := by
  unfold fromLeBytes toLeBytes
  rw [List.reverse_reverse, BigEndian.ofBytes_toBytes_of_lt n.toNat_lt]
  exact UInt64.ofNat_toNat

lemma toLeBytes_fromLeBytes {bytes : List UInt8} (h : bytes.length = 8) :
    toLeBytes (fromLeBytes bytes) = bytes := by
  have hlen : bytes.reverse.length = 8 := by rw [List.length_reverse, h]
  have hlt := BigEndian.ofBytes_lt bytes.reverse
  rw [hlen] at hlt
  have hbytes := BigEndian.toBytes_ofBytes bytes.reverse
  rw [hlen] at hbytes
  unfold fromLeBytes toLeBytes
  rw [UInt64.toNat_ofNat_of_lt' hlt, hbytes, List.reverse_reverse]

lemma toList_slice {bytes mid : List UInt8} {start len : ℕ} (before after : List UInt8)
    (hbytes : bytes = before ++ (mid ++ after)) (hstart : before.length = start)
    (hlen : mid.length = len) (h : start + len ≤ bytes.length) :
    (slice bytes start len h).toList = mid := by
  show (bytes.drop start).take len = mid
  rw [hbytes, List.drop_left' hstart, List.take_left' hlen]

/-- A certificate reads back. -/
theorem parse_serialize {d : DirectoryDelegation} (hversion : d.version = DELEGATION_VERSION) :
    parse (serialize d) = .ok d := by
  obtain ⟨version, operationalPub, validFrom, validUntil, signature⟩ := d
  obtain rfl : version = DELEGATION_VERSION := hversion
  have hop : operationalPub.toList.length = 32 := operationalPub.toList_length
  have hsig : signature.toList.length = 64 := signature.toList_length
  have hbytes : ∃ bytes, bytes = serialize ⟨DELEGATION_VERSION, operationalPub, validFrom,
      validUntil, signature⟩ ∧ bytes = DELEGATION_VERSION :: (operationalPub.toList ++
        (toLeBytes validFrom ++ (toLeBytes validUntil ++ signature.toList))) :=
    ⟨_, rfl, by simp [serialize, bodyBytes]⟩
  obtain ⟨bytes, hserialize, hbytes⟩ := hbytes
  have hlen : bytes.length = DELEGATION_WIRE_LEN := by
    rw [hbytes]
    simp [DELEGATION_WIRE_LEN, DELEGATION_BODY_LEN]
  have hversion : bytes.get ⟨0, by rw [hlen]; decide⟩ = DELEGATION_VERSION := by
    simp [hbytes]
  rw [← hserialize]
  unfold parse
  rw [dif_pos hlen]
  simp only [hversion, ne_eq, not_true_eq_false, if_false, Except.ok.injEq,
    DirectoryDelegation.mk.injEq, true_and]
  refine ⟨?_, ?_, ?_, ?_⟩
  · apply List.Vector.toList_injective
    exact toList_slice [DELEGATION_VERSION] _ hbytes rfl hop _
  · rw [toList_slice (DELEGATION_VERSION :: operationalPub.toList)
      (toLeBytes validUntil ++ signature.toList) (by simp [hbytes]) (by simp)
      (length_toLeBytes validFrom), fromLeBytes_toLeBytes]
  · rw [toList_slice (DELEGATION_VERSION :: (operationalPub.toList ++ toLeBytes validFrom))
      signature.toList (by simp [hbytes]) (by simp) (length_toLeBytes validUntil),
      fromLeBytes_toLeBytes]
  · apply List.Vector.toList_injective
    exact toList_slice (DELEGATION_VERSION :: (operationalPub.toList ++
      (toLeBytes validFrom ++ toLeBytes validUntil))) [] (by simp [hbytes]) (by simp) hsig _

theorem serialize_of_parse {bytes : List UInt8} {d : DirectoryDelegation}
    (h : parse bytes = .ok d) : d.version = DELEGATION_VERSION ∧ serialize d = bytes := by
  unfold parse at h
  by_cases hlen : bytes.length = DELEGATION_WIRE_LEN
  · rw [dif_pos hlen] at h
    have hlen' : bytes.length = 113 := hlen
    by_cases hversion : bytes.get ⟨0, by omega⟩ = DELEGATION_VERSION
    · simp only [hversion, ne_eq, not_true_eq_false, if_false, Except.ok.injEq] at h
      subst h
      refine ⟨rfl, ?_⟩
      have hhead : bytes = DELEGATION_VERSION :: bytes.drop 1 := by
        rw [← hversion, List.get_eq_getElem, List.getElem_cons_drop, List.drop_zero]
      have hrest : bytes.drop 1 = (bytes.drop 1).take 32 ++ ((bytes.drop 33).take 8 ++
          ((bytes.drop 41).take 8 ++ (bytes.drop 49).take 64)) := by
        have htake : (bytes.drop 49).take 64 = bytes.drop 49 :=
          List.take_of_length_le (by rw [List.length_drop]; omega)
        rw [htake]
        have hcut : ∀ start len, (bytes.drop start).take len ++ bytes.drop (start + len) =
            bytes.drop start := by
          intro start len
          rw [← List.drop_drop, List.take_append_drop]
        rw [hcut 41 8, hcut 33 8, hcut 1 32]
      have hle : ∀ start, start + 8 ≤ 113 →
          toLeBytes (fromLeBytes ((bytes.drop start).take 8)) = (bytes.drop start).take 8 := by
        intro start hstart
        exact toLeBytes_fromLeBytes (by rw [List.length_take, List.length_drop]; omega)
      conv_rhs => rw [hhead, hrest]
      simp only [serialize, bodyBytes, slice, List.Vector.toList_mk, List.cons_append,
        List.append_assoc]
      rw [hle 33 (by omega), hle 41 (by omega)]
    · simp only [hversion, ne_eq, not_false_eq_true, if_true] at h
      exact absurd h (by simp)
  · rw [dif_neg hlen] at h
    exact absurd h (by simp)

lemma verify_eq_ok [Ed25519] {d5Pub opPub : Bytes 32} {bytes : List UInt8} {now : UInt64}
    (h : verify d5Pub bytes now = .ok opPub) :
    ∃ d, parse bytes = .ok d ∧ d.operationalPub = opPub ∧ d.validFrom ≤ now ∧
      now ≤ d.validUntil := by
  unfold verify at h
  obtain ⟨d, hparse, h⟩ := bind_eq_ok.mp h
  obtain ⟨vk, _, h⟩ := bind_eq_ok.mp h
  obtain ⟨_, _, h⟩ := bind_eq_ok.mp h
  obtain ⟨hwindow, h⟩ := guard_eq_ok.mp h
  obtain ⟨hfrom, huntil⟩ := not_or.mp hwindow
  exact ⟨d, hparse, pure_eq_ok.mp h, UInt64.not_lt.mp hfrom, UInt64.not_lt.mp huntil⟩

/-- **A certificate verifies exactly as it was issued**: the bytes are the one spelling of a
delegation of this version, its signature is good under the directory key, and the time is in its
window.  Nothing else verifies, and what verifies authorizes the key it names. -/
theorem verify_eq_ok_iff [Ed25519] {d5Pub opPub : Bytes 32} {bytes : List UInt8} {now : UInt64} :
    verify d5Pub bytes now = .ok opPub ↔
      ∃ d vk, serialize d = bytes ∧ d.version = DELEGATION_VERSION ∧ d.operationalPub = opPub ∧
        VerifyingKey.fromBytes d5Pub = .ok vk ∧
        vk.verifyRaw (signingInput Label.directoryDelegation.text
          (bodyBytes d.operationalPub d.validFrom d.validUntil)) d.signature = .ok () ∧
        d.validFrom ≤ now ∧ now ≤ d.validUntil := by
  unfold verify
  simp only [bind_eq_ok, guard_eq_ok, pure_eq_ok, not_or, UInt64.not_lt]
  constructor
  · rintro ⟨d, hparse, vk, hkey, _, hsig, ⟨hfrom, huntil⟩, hpub⟩
    obtain ⟨hversion, hbytes⟩ := serialize_of_parse hparse
    exact ⟨d, vk, hbytes, hversion, hpub, hkey, hsig, hfrom, huntil⟩
  · rintro ⟨d, vk, rfl, hversion, hpub, hkey, hsig, hfrom, huntil⟩
    exact ⟨d, parse_serialize hversion, vk, hkey, (), hsig, ⟨hfrom, huntil⟩, hpub⟩

end Delegation

end MaxSecu
