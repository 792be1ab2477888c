import MaxSecu.Framework.BigEndian
import Mathlib.Data.Nat.Log

/-!
# Elements of DER

An element is a tag of one byte, the octets of a length, and a content of this length.  Contents are
again elements where the tag says so, or bytes of their own.  A reader that takes lengths of at most four
octets reads back what is encoded (`read_encode`, `elements_encodeAll`), and stops where the tag number
does not fit into one byte.
-/

namespace Der

abbrev Element := UInt8 × List UInt8

/-- The number of the tag stands in the bytes behind the first one. -/
def IsHigh (tag : UInt8) : Prop := tag &&& 0x1f = 0x1f

instance (tag : UInt8) : Decidable (IsHigh tag) := inferInstanceAs (Decidable (_ = _))

/-- The octets of a length, as few as there can be. -/
def lengthOctets (n : ℕ) : List UInt8 :=
  if n < 128 then [UInt8.ofNat n]
  else UInt8.ofNat (128 + (Nat.log 256 n + 1)) :: BigEndian.toBytes (Nat.log 256 n + 1) n

def encode (e : Element) : List UInt8 := e.1 :: (lengthOctets e.2.length ++ e.2)

def encodeAll (es : List Element) : List UInt8 := es.flatMap encode

def readLength : List UInt8 → Option (ℕ × List UInt8)
  | [] => none
  | first :: bytes =>
    if first < 0x80 then some (first.toNat, bytes)
    else if (first &&& 0x7f).toNat = 0 ∨ 4 < (first &&& 0x7f).toNat ∨
        bytes.length < (first &&& 0x7f).toNat then none
    else some (BigEndian.ofBytes (bytes.take (first &&& 0x7f).toNat),
      bytes.drop (first &&& 0x7f).toNat)

/-- The first element, and what stands behind it. -/
def read : List UInt8 → Option (Element × List UInt8)
  | [] => none
  | tag :: bytes =>
    if IsHigh tag then none
    else (readLength bytes).bind fun (len, bytes) =>
      if bytes.length < len then none else some ((tag, bytes.take len), bytes.drop len)

variable {tag : UInt8} {b rest content oid : List UInt8} {e : Element} {es : List Element}

lemma readLength_length_lt {len : ℕ} (h : readLength b = some (len, rest)) :
    rest.length < b.length := by
  rcases b with _ | ⟨first, bytes⟩
  · exact absurd h (Option.some_ne_none _).symm
  unfold readLength at h
  dsimp only at h
  by_cases hshort : first < 0x80
  · rw [if_pos hshort, Option.some.injEq, Prod.mk.injEq] at h
    rw [← h.2, List.length_cons]
    omega
  · rw [if_neg hshort] at h
    split_ifs at h
    rw [Option.some.injEq, Prod.mk.injEq] at h
    rw [← h.2, List.length_drop, List.length_cons]
    omega

lemma read_length_lt (h : read b = some (e, rest)) : rest.length < b.length := by
  rcases b with _ | ⟨tag, bytes⟩
  · exact absurd h (Option.some_ne_none _).symm
  unfold read at h
  dsimp only at h
  by_cases hhigh : IsHigh tag
  · rw [if_pos hhigh] at h
    exact absurd h (Option.some_ne_none _).symm
  · rw [if_neg hhigh] at h
    obtain ⟨⟨len, behind⟩, hlen, h⟩ := Option.bind_eq_some_iff.mp h
    have hless := readLength_length_lt hlen
    dsimp only at h
    by_cases hfew : behind.length < len
    · rw [if_pos hfew] at h
      exact absurd h (Option.some_ne_none _).symm
    · rw [if_neg hfew, Option.some.injEq, Prod.mk.injEq] at h
      rw [← h.2, List.length_drop, List.length_cons]
      omega

def elements (b : List UInt8) : List Element :=
  match _ : read b with
  | none => []
  | some (e, rest) => e :: elements rest
termination_by b.length
decreasing_by exact read_length_lt ‹_›

lemma elements_of_none (h : read b = none) : elements b = [] := by
  rw [elements]
  split
  · rfl
  · rename_i hsome
    rw [h] at hsome
    exact absurd hsome (Option.some_ne_none _).symm

lemma elements_of_some (h : read b = some (e, rest)) : elements b = e :: elements rest := by
  rw [elements]
  split
  · rename_i hnone
    rw [h] at hnone
    exact absurd hnone (Option.some_ne_none _)
  · rename_i hsome
    rw [h, Option.some.injEq, Prod.mk.injEq] at hsome
    rw [hsome.1, hsome.2]

/-- What stands behind an object identifier that leads a content. -/
def behind (oid content : List UInt8) : Option (List UInt8) :=
  (read content).bind fun (e, rest) => if e.1 = 0x06 ∧ e.2 = oid then some rest else none

/-- The first element, down to a depth, that is constructed and led by an object identifier. -/
def findLed (oid : List UInt8) : ℕ → List UInt8 → Option (List UInt8)
  | 0, _ => none
  | depth + 1, b => (elements b).findSome? fun e =>
    if e.1 &&& 0x20 = 0 then none else (behind oid e.2).or (findLed oid depth e.2)

/-! ## Reading back -/

lemma readLength_octets {n : ℕ} (h : n < 2 ^ 32) :
    readLength (lengthOctets n ++ rest) = some (n, rest) := by
  unfold lengthOctets
  by_cases hshort : n < 128
  · have hval : (UInt8.ofNat n).toNat = n := UInt8.toNat_ofNat_of_lt' (by show n < 256; omega)
    have hlt : UInt8.ofNat n < 0x80 := by
      rw [UInt8.lt_iff_toNat_lt, hval]
      exact hshort
    rw [if_pos hshort, List.singleton_append]
    unfold readLength
    dsimp only
    rw [if_pos hlt, hval]
  · obtain ⟨w, hw⟩ : ∃ w, Nat.log 256 n = w := ⟨_, rfl⟩
    have hw4 : w < 4 := by
      rw [← hw]
      exact Nat.log_lt_of_lt_pow (by omega) (by norm_num; omega)
    have hfit : n < 256 ^ (w + 1) := by
      rw [← hw]
      exact Nat.lt_pow_succ_log_self (by norm_num) n
    rw [if_neg hshort, hw]
    have hnot : ¬ UInt8.ofNat (128 + (w + 1)) < 0x80 := by
      interval_cases w <;> decide
    have hcount : (UInt8.ofNat (128 + (w + 1)) &&& 0x7f).toNat = w + 1 := by
      interval_cases w <;> decide
    rw [List.cons_append]
    unfold readLength
    dsimp only
    rw [if_neg hnot, hcount, if_neg, List.take_left' (BigEndian.length_toBytes _ _),
      List.drop_left' (BigEndian.length_toBytes _ _), BigEndian.ofBytes_toBytes_of_lt hfit]
    rw [List.length_append, BigEndian.length_toBytes]
    omega

/-- An element is read back in front of any rest. -/
lemma read_encode (hlow : ¬ IsHigh tag) (h : content.length < 2 ^ 32) :
    read (encode (tag, content) ++ rest) = some ((tag, content), rest) := by
  unfold encode
  rw [List.cons_append, List.append_assoc]
  unfold read
  dsimp only
  rw [if_neg hlow, readLength_octets h, Option.bind_some]
  dsimp only
  rw [if_neg (by rw [List.length_append]; omega), List.take_left, List.drop_left]

lemma read_encode_self (hlow : ¬ IsHigh tag) (h : content.length < 2 ^ 32) :
    read (encode (tag, content)) = some ((tag, content), []) := by
  have hfront := @read_encode tag [] content hlow h
  rwa [List.append_nil] at hfront

lemma read_high (h : IsHigh tag) : read (tag :: b) = none := by
  unfold read
  dsimp only
  rw [if_pos h]

lemma elements_encode (hlow : ¬ IsHigh tag) (h : content.length < 2 ^ 32) :
    elements (encode (tag, content) ++ rest) = (tag, content) :: elements rest :=
  elements_of_some (read_encode hlow h)

/-- Each element fits into a length of four octets, and the number of its tag is in one byte. -/
def Plain (es : List Element) : Prop := ∀ e ∈ es, ¬ IsHigh e.1 ∧ e.2.length < 2 ^ 32

/-- Elements in a row are read back. -/
lemma elements_encodeAll (h : Plain es) : elements (encodeAll es ++ rest) = es ++ elements rest := by
  induction es with
  | nil => rfl
  | cons e es ih =>
    obtain ⟨hlow, hlength⟩ := h e List.mem_cons_self
    unfold encodeAll at ih ⊢
    rw [List.flatMap_cons, List.append_assoc, elements_encode hlow hlength,
      ih fun e he => h e (List.mem_cons_of_mem _ he), List.cons_append]

lemma elements_nil : elements [] = [] := elements_of_none rfl

lemma elements_encodeAll_self (h : Plain es) : elements (encodeAll es) = es := by
  have hwhole := @elements_encodeAll [] es h
  rwa [elements_nil, List.append_nil, List.append_nil] at hwhole

lemma encodeAll_singleton (e : Element) : encodeAll [e] = encode e := by
  unfold encodeAll
  rw [List.flatMap_cons, List.flatMap_nil, List.append_nil]

lemma length_content_lt (e : Element) : e.2.length < (encode e).length := by
  unfold encode
  rw [List.length_cons, List.length_append]
  omega

/-- What is in a row is no longer than the row. -/
lemma length_le_encodeAll (h : e ∈ es) : e.2.length ≤ (encodeAll es).length := by
  have hin : encode e <:+: encodeAll es := by
    unfold encodeAll
    rw [List.flatMap_def]
    exact List.infix_of_mem_flatten (List.mem_map_of_mem h)
  exact (length_content_lt e).le.trans hin.length_le

/-- In a short row, only the tags are asked for. -/
lemma plain_of_short (hshort : (encodeAll es).length < 2 ^ 32) (hlow : ∀ e ∈ es, ¬ IsHigh e.1) :
    Plain es :=
  fun e he => ⟨hlow e he, (length_le_encodeAll he).trans_lt hshort⟩

/-! ## Identifiers that lead -/

lemma behind_encode {id : List UInt8} (h : id.length < 2 ^ 32) :
    behind oid (encode (0x06, id) ++ rest) = if id = oid then some rest else none := by
  unfold behind
  rw [read_encode (by decide) h, Option.bind_some]
  dsimp only
  by_cases hsame : id = oid
  · rw [if_pos ⟨rfl, hsame⟩, if_pos hsame]
  · rw [if_neg fun hboth => hsame hboth.2, if_neg hsame]

lemma behind_of_tag (hlow : ¬ IsHigh tag) (htag : tag ≠ 0x06) (h : content.length < 2 ^ 32) :
    behind oid (encode (tag, content) ++ rest) = none := by
  unfold behind
  rw [read_encode hlow h, Option.bind_some]
  dsimp only
  rw [if_neg fun hboth => htag hboth.1]

end Der
