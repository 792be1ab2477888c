import MaxSecu.Crypto.Primitives

/-!
# Fingerprints of pins

The certificate of the server and the key of the directory are hashed, and the hash is cut to twenty
bytes and written in base 32, so that a person can copy it.  The encoder shifts the bytes through a
buffer of 32 bits that it never masks; the characters are the digits of the bytes as one number
(`value_encodeFrom`), so different hashes are written differently (`base32NoPad_inj`).

A copy may change letter case and put in characters that are not in the alphabet (`CopiedAs`).
Normalizing takes both back (`normalizeFp_copied`).
-/

namespace MaxSecu

namespace PinFp

def DOMAIN_SEP : List UInt8 := "MAXSECU-PINS-v1".toList.map fun c => UInt8.ofNat c.toNat

def BASE32_ALPHABET : List Char := "ABCDEFGHIJKLMNOPQRSTUVWXYZ234567".toList

def symbol (x : UInt32) : Char := BASE32_ALPHABET.getD (x &&& 0x1f).toNat 'A'

/-- Write out five bits at a time while there are five, with the number of bits that remain. -/
def drain (buffer : UInt32) : ℕ → List Char × ℕ
  | bits + 5 => (symbol (buffer >>> UInt32.ofNat bits) :: (drain buffer bits).1, (drain buffer bits).2)
  | bits => ([], bits)

/-- Shift the bytes through the buffer, of which some bits are still to be written. -/
def encodeFrom (buffer : UInt32) (bits : ℕ) : List UInt8 → List Char
  | [] => if bits > 0 then [symbol (buffer <<< UInt32.ofNat (5 - bits))] else []
  | byte :: input =>
    let buffer := (buffer <<< 8) ||| byte.toUInt32
    (drain buffer (bits + 8)).1 ++ encodeFrom buffer (drain buffer (bits + 8)).2 input

def base32NoPad (input : List UInt8) : List Char := encodeFrom 0 0 input

example : base32NoPad ("hello".toList.map fun c => UInt8.ofNat c.toNat) = "NBSWY3DP".toList := by
  decide

/-- What is hashed: both pins, each with its length before it. -/
def preimage (certDer dirDer : List UInt8) : List UInt8 :=
  DOMAIN_SEP ++ (Writer.u32 (UInt32.ofNat certDer.length) ++ (certDer ++
    (Writer.u32 (UInt32.ofNat dirDer.length) ++ dirDer)))

def truncatedHash [Sha256] (x : List UInt8) : List UInt8 := (sha256 x).toList.take 20

def pinFingerprint [Sha256] (certDer dirDer : List UInt8) : List Char :=
  base32NoPad (truncatedHash (preimage certDer dirDer))

def isAsciiUppercase (c : Char) : Bool := 'A' ≤ c && c ≤ 'Z'

def inAlphabet (c : Char) : Bool := isAsciiUppercase c || ('2' ≤ c && c ≤ '7')

def normalizeFp (s : List Char) : List Char := (s.map Char.toUpper).filter inAlphabet

def isAsciiLowercase (c : Char) : Bool := 'a' ≤ c && c ≤ 'z'

/-- A copy of a text: letters may change their case, and characters that are no letters of ASCII and none
of the digits from 2 to 7 may be put in. -/
inductive CopiedAs : List Char → List Char → Prop
  | nil : CopiedAs [] []
  | keep {c d : Char} {s copy : List Char} (hsame : d.toUpper = c.toUpper) (hrest : CopiedAs s copy) :
      CopiedAs (c :: s) (d :: copy)
  | insert {d : Char} {s copy : List Char} (hletter : isAsciiLowercase d = false)
      (hout : inAlphabet d = false) (hrest : CopiedAs s copy) : CopiedAs s (d :: copy)

/-! ## Base 32 -/

/-- The number that characters spell behind the digits of another one. -/
def value (start : ℕ) (s : List Char) : ℕ :=
  s.foldl (fun acc c => 32 * acc + BASE32_ALPHABET.idxOf c) start

lemma idxOf_symbol (x : UInt32) : BASE32_ALPHABET.idxOf (symbol x) = x.toNat % 32 := by
  have hall : ∀ i < 32, BASE32_ALPHABET.idxOf (BASE32_ALPHABET.getD i 'A') = i := by decide
  have hmask : (x &&& 0x1f).toNat = x.toNat % 32 := by
    rw [UInt32.toNat_and]
    exact Nat.and_two_pow_sub_one_eq_mod x.toNat 5
  unfold symbol
  rw [hmask]
  exact hall _ (Nat.mod_lt _ (by norm_num))

lemma toNat_shiftRight {x : UInt32} {bits : ℕ} (h : bits < 32) :
    (x >>> UInt32.ofNat bits).toNat = x.toNat / 2 ^ bits := by
  rw [UInt32.toNat_shiftRight, UInt32.toNat_ofNat_of_lt' (by show bits < 2 ^ 32; omega),
    Nat.mod_eq_of_lt h, Nat.shiftRight_eq_div_pow]

lemma toNat_push {buffer : UInt32} {byte : UInt8} {n : ℕ} (h : buffer.toNat = n % 2 ^ 32) :
    ((buffer <<< 8) ||| byte.toUInt32).toNat = (n * 256 + byte.toNat) % 2 ^ 32 := by
  have hbyte : byte.toNat < 2 ^ 8 := byte.toNat_lt
  have hshift : (buffer <<< 8).toNat = (n % 2 ^ 24) <<< 8 := by
    rw [UInt32.toNat_shiftLeft, h, show (8 : UInt32).toNat % 32 = 8 from rfl, Nat.shiftLeft_eq,
      Nat.shiftLeft_eq]
    omega
  rw [UInt32.toNat_or, hshift, UInt8.toNat_toUInt32, ← Nat.shiftLeft_add_eq_or_of_lt hbyte,
    Nat.shiftLeft_eq]
  omega

lemma value_cons (start : ℕ) (c : Char) (s : List Char) :
    value start (c :: s) = value (32 * start + BASE32_ALPHABET.idxOf c) s := rfl

lemma value_append (start : ℕ) (s s' : List Char) :
    value start (s ++ s') = value (value start s) s' := List.foldl_append

lemma value_drain {buffer : UInt32} {n bits : ℕ} (hbuffer : buffer.toNat = n % 2 ^ 32)
    (hbits : bits ≤ 32) : value (n / 2 ^ bits) (drain buffer bits).1 = n / 2 ^ (bits % 5) ∧
      (drain buffer bits).2 = bits % 5 := by
  induction bits using Nat.strong_induction_on with
  | _ bits ih =>
    by_cases hfew : bits < 5
    · rw [Nat.mod_eq_of_lt hfew]
      interval_cases bits <;> exact ⟨rfl, rfl⟩
    · obtain ⟨rest, rfl⟩ := Nat.exists_eq_add_of_le' (not_lt.mp hfew)
      obtain ⟨hvalue, hleft⟩ := ih rest (by omega) (by omega)
      have hdigit : BASE32_ALPHABET.idxOf (symbol (buffer >>> UInt32.ofNat rest)) =
          n / 2 ^ rest % 32 := by
        rw [idxOf_symbol, toNat_shiftRight (by omega), hbuffer]
        have hsplit : 2 ^ 32 = 2 ^ rest * 2 ^ (32 - rest) := by
          rw [← pow_add]
          congr 1
          omega
        rw [hsplit, Nat.mod_mul_right_div_self]
        refine Nat.mod_mod_of_dvd _ ?_
        exact pow_dvd_pow 2 (show 5 ≤ 32 - rest by omega)
      have hhigh : 32 * (n / 2 ^ (rest + 5)) + n / 2 ^ rest % 32 = n / 2 ^ rest := by
        rw [pow_add, ← Nat.div_div_eq_div_mul]
        exact Nat.div_add_mod _ 32
      rw [Nat.add_mod_right]
      refine ⟨?_, hleft⟩
      show value (n / 2 ^ (rest + 5)) (symbol (buffer >>> UInt32.ofNat rest) ::
        (drain buffer rest).1) = n / 2 ^ (rest % 5)
      rw [value_cons, hdigit, hhigh]
      exact hvalue

lemma value_encodeFrom {buffer : UInt32} {n bits : ℕ} {input : List UInt8}
    (hbuffer : buffer.toNat = n % 2 ^ 32) (hbits : bits < 5)
    (hwhole : (bits + 8 * input.length) % 5 = 0) :
    value (n / 2 ^ bits) (encodeFrom buffer bits input) =
      input.foldl (fun acc b => acc * 256 + b.toNat) n := by
  induction input generalizing buffer n bits with
  | nil =>
    obtain rfl : bits = 0 := by
      rw [List.length_nil] at hwhole
      omega
    exact Nat.div_one n
  | cons byte input ih =>
    have hpush := @toNat_push buffer byte n hbuffer
    obtain ⟨hvalue, hleft⟩ := @value_drain _ _ (bits + 8) hpush (by omega)
    have hstart : (n * 256 + byte.toNat) / 2 ^ (bits + 8) = n / 2 ^ bits := by
      have hbyte : byte.toNat < 256 := byte.toNat_lt
      rw [pow_add, Nat.mul_comm (2 ^ bits), ← Nat.div_div_eq_div_mul]
      congr 1
      omega
    rw [List.length_cons] at hwhole
    have hrest := @ih _ (n * 256 + byte.toNat) ((bits + 8) % 5) hpush
      (Nat.mod_lt _ (by norm_num)) (by omega)
    unfold encodeFrom
    dsimp only
    rw [value_append, ← hstart, hvalue, hleft, hrest, List.foldl_cons]

lemma base32NoPad_inj {input input' : List UInt8} (hlength : input.length = input'.length)
    (hwhole : 8 * input.length % 5 = 0) (h : base32NoPad input = base32NoPad input') :
    input = input' := by
  have hvalue := @value_encodeFrom 0 0 0 input rfl (by norm_num) (by omega)
  have hvalue' := @value_encodeFrom 0 0 0 input' rfl (by norm_num) (by omega)
  have hsame : BigEndian.ofBytes input = BigEndian.ofBytes input' := by
    show input.foldl (fun acc b => acc * 256 + b.toNat) 0 =
      input'.foldl (fun acc b => acc * 256 + b.toNat) 0
    rw [← hvalue, ← hvalue']
    exact congrArg _ h
  rw [← BigEndian.toBytes_ofBytes input, ← BigEndian.toBytes_ofBytes input', hsame, hlength]

lemma inAlphabet_symbol (x : UInt32) : inAlphabet (symbol x) = true := by
  have hall : ∀ i < 32, inAlphabet (BASE32_ALPHABET.getD i 'A') = true := by decide
  have hmask : (x &&& 0x1f).toNat = x.toNat % 32 := by
    rw [UInt32.toNat_and]
    exact Nat.and_two_pow_sub_one_eq_mod x.toNat 5
  unfold symbol
  rw [hmask]
  exact hall _ (Nat.mod_lt _ (by norm_num))

lemma drain_spec (buffer : UInt32) (bits : ℕ) : (drain buffer bits).1.length = bits / 5 ∧
    (drain buffer bits).2 = bits % 5 ∧ ∀ c ∈ (drain buffer bits).1, inAlphabet c = true := by
  induction bits using Nat.strong_induction_on with
  | _ bits ih =>
    by_cases hfew : bits < 5
    · refine ⟨?_, ?_, ?_⟩
      · interval_cases bits <;> rfl
      · interval_cases bits <;> rfl
      · interval_cases bits <;> exact fun c hc => absurd hc List.not_mem_nil
    · obtain ⟨rest, rfl⟩ := Nat.exists_eq_add_of_le' (not_lt.mp hfew)
      obtain ⟨hlength, hleft, hmem⟩ := ih rest (by omega)
      refine ⟨?_, ?_, fun c hc => ?_⟩
      · show (drain buffer rest).1.length + 1 = (rest + 5) / 5
        omega
      · show (drain buffer rest).2 = (rest + 5) % 5
        omega
      · rcases List.mem_cons.mp hc with rfl | hc
        · exact inAlphabet_symbol _
        · exact hmem c hc

lemma encodeFrom_spec (buffer : UInt32) {bits : ℕ} {input : List UInt8} (hbits : bits < 5) :
    (encodeFrom buffer bits input).length = (bits + 8 * input.length + 4) / 5 ∧
      ∀ c ∈ encodeFrom buffer bits input, inAlphabet c = true := by
  induction input generalizing buffer bits with
  | nil =>
    unfold encodeFrom
    by_cases hleft : bits > 0
    · rw [if_pos hleft]
      refine ⟨?_, fun c hc => ?_⟩
      · rw [List.length_singleton, List.length_nil]
        omega
      · obtain rfl := List.mem_singleton.mp hc
        exact inAlphabet_symbol _
    · rw [if_neg hleft]
      refine ⟨?_, fun c hc => absurd hc List.not_mem_nil⟩
      rw [List.length_nil, List.length_nil]
      omega
  | cons byte input ih =>
    unfold encodeFrom
    dsimp only
    obtain ⟨hlength, hleft, hmem⟩ := drain_spec ((buffer <<< 8) ||| byte.toUInt32) (bits + 8)
    rw [hleft]
    obtain ⟨hlength', hmem'⟩ := @ih ((buffer <<< 8) ||| byte.toUInt32) ((bits + 8) % 5)
      (Nat.mod_lt _ (by norm_num))
    refine ⟨?_, fun c hc => ?_⟩
    · rw [List.length_append, hlength, hlength', List.length_cons]
      omega
    · rcases List.mem_append.mp hc with hc | hc
      · exact hmem c hc
      · exact hmem' c hc

/-! ## Fingerprints -/

section

variable [Sha256] {certDer dirDer certDer' dirDer' : List UInt8}

lemma length_truncatedHash (x : List UInt8) : (truncatedHash x).length = 20 := by
  unfold truncatedHash
  rw [List.length_take, (sha256 x).toList_length]
  rfl

lemma pinFingerprint_spec (certDer dirDer : List UInt8) :
    (pinFingerprint certDer dirDer).length = 32 ∧
      ∀ c ∈ pinFingerprint certDer dirDer, inAlphabet c = true := by
  obtain ⟨hlength, hmem⟩ := @encodeFrom_spec 0 0 (truncatedHash (preimage certDer dirDer))
    (by norm_num)
  refine ⟨?_, hmem⟩
  rw [length_truncatedHash] at hlength
  exact hlength

omit [Sha256] in
lemma preimage_inj (hcert : certDer.length < 2 ^ 32) (hcert' : certDer'.length < 2 ^ 32)
    (h : preimage certDer dirDer = preimage certDer' dirDer') :
    certDer = certDer' ∧ dirDer = dirDer' := by
  unfold preimage at h
  have hframed := List.append_cancel_left h
  obtain ⟨hlen, hrest⟩ := List.append_inj hframed (by rw [Writer.length_u32, Writer.length_u32])
  have hlength : certDer.length = certDer'.length := by
    have hread := congrArg UInt32.toNat (Writer.u32_inj hlen)
    rw [UInt32.toNat_ofNat_of_lt' hcert, UInt32.toNat_ofNat_of_lt' hcert'] at hread
    exact hread
  obtain ⟨hsame, hdir⟩ := List.append_inj hrest hlength
  obtain ⟨-, hdir⟩ := List.append_inj hdir (by rw [Writer.length_u32, Writer.length_u32])
  exact ⟨hsame, hdir⟩

lemma truncatedHash_of_pinFingerprint (h : pinFingerprint certDer dirDer =
    pinFingerprint certDer' dirDer') :
    truncatedHash (preimage certDer dirDer) = truncatedHash (preimage certDer' dirDer') := by
  refine base32NoPad_inj ?_ ?_ h
  · rw [length_truncatedHash, length_truncatedHash]
  · rw [length_truncatedHash]

end

/-! ## Copies -/

lemma toUpper_of_not_lower {c : Char} (h : isAsciiLowercase c = false) : c.toUpper = c := by
  have hnot : ¬ ('a'.val ≤ c.val ∧ c.val ≤ 'z'.val) := by
    intro hlower
    unfold isAsciiLowercase at h
    rw [Bool.and_eq_false_iff, decide_eq_false_iff_not, decide_eq_false_iff_not] at h
    rcases h with hlow | hhigh
    · exact hlow hlower.1
    · exact hhigh hlower.2
  unfold Char.toUpper
  rw [dif_neg hnot]

lemma not_lower_of_inAlphabet {c : Char} (h : inAlphabet c = true) : isAsciiLowercase c = false := by
  by_contra hlower
  rw [Bool.not_eq_false] at hlower
  unfold isAsciiLowercase at hlower
  unfold inAlphabet isAsciiUppercase at h
  simp only [Bool.or_eq_true, Bool.and_eq_true, decide_eq_true_eq, Char.le_def,
    UInt32.le_iff_toNat_le] at h hlower
  have ha : 'a'.val.toNat = 97 := rfl
  have hZ : 'Z'.val.toNat = 90 := rfl
  have hseven : '7'.val.toNat = 55 := rfl
  omega

lemma normalizeFp_cons_of_in {c : Char} {s : List Char} (h : inAlphabet c.toUpper = true) :
    normalizeFp (c :: s) = c.toUpper :: normalizeFp s := by
  unfold normalizeFp
  rw [List.map_cons, List.filter_cons_of_pos h]

lemma normalizeFp_cons_of_out {c : Char} {s : List Char} (h : ¬ inAlphabet c.toUpper = true) :
    normalizeFp (c :: s) = normalizeFp s := by
  unfold normalizeFp
  rw [List.map_cons, List.filter_cons_of_neg h]

lemma normalizeFp_append (s s' : List Char) :
    normalizeFp (s ++ s') = normalizeFp s ++ normalizeFp s' := by
  unfold normalizeFp
  rw [List.map_append, List.filter_append]

lemma normalizeFp_copied {s copy : List Char} (hs : ∀ c ∈ s, inAlphabet c = true)
    (h : CopiedAs s copy) : normalizeFp copy = s := by
  induction h with
  | nil => rfl
  | @keep c d s copy hsame _ ih =>
    have hin : inAlphabet c = true := hs c List.mem_cons_self
    have hupper : d.toUpper = c :=
      hsame.trans (toUpper_of_not_lower (not_lower_of_inAlphabet hin))
    rw [normalizeFp_cons_of_in (by rw [hupper]; exact hin), hupper,
      ih fun c hc => hs c (List.mem_cons_of_mem _ hc)]
  | insert hletter hout _ ih =>
    rw [normalizeFp_cons_of_out (by rw [toUpper_of_not_lower hletter, hout]; decide), ih hs]

end PinFp

end MaxSecu
