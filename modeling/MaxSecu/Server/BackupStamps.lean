import MaxSecu.Framework.Decimals
import MaxSecu.Framework.Gregorian
import MaxSecu.Server.BackupSealing

/-!
# Stamps of backups

A bundle is stamped with the time its run began, and the stamps are sorted as texts to tell the old
bundles from the new ones.  `utcStamp_ordered` says that the stamp is the date and the time of day, and
that the order of the texts is the order of the times, until the year 9999.

The days are turned into a date by counting years from March: an era of 400 years falls into centuries,
spans of four years and years (`exists_yearParts`), and the day of such a year has its month and day by
two divisions.
-/

namespace MaxSecu

namespace Bundles

open Gregorian Decimals
open DropboxTier (sortNames sortNames_perm sortNames_pairwise)

/-- A signed number, padded with zeros to a width. -/
def formatPadded (width : ℕ) (n : ℤ) : List Char :=
  if n < 0 then '-' :: padded (width - 1) n.natAbs else padded width n.toNat

/-- The year, the month and the day of a number of days since 1970. -/
def civilFromDays (days : ℤ) : ℤ × ℤ × ℤ :=
  let z := days + 719468
  let era := (if z ≥ 0 then z else z - 146096).tdiv 146097
  let doe := z - era * 146097
  let yoe := (doe - doe.tdiv 1460 + doe.tdiv 36524 - doe.tdiv 146096).tdiv 365
  let y := yoe + era * 400
  let doy := doe - (365 * yoe + yoe.tdiv 4 - yoe.tdiv 100)
  let mp := (5 * doy + 2).tdiv 153
  let d := doy - (153 * mp + 2).tdiv 5 + 1
  let m := if mp < 10 then mp + 3 else mp - 9
  (if m ≤ 2 then y + 1 else y, m, d)

/-- The stamp of a time in seconds since 1970. -/
def utcStamp (unixSecs : UInt64) : String :=
  let days : ℤ := (unixSecs / 86400).toNat
  let sod : ℤ := (unixSecs % 86400).toNat
  let (year, m, d) := civilFromDays days
  String.ofList (formatPadded 4 year ++ (formatPadded 2 m ++ (formatPadded 2 d ++ ('T' ::
    (formatPadded 2 (sod.tdiv 3600) ++ (formatPadded 2 ((sod.tmod 3600).tdiv 60) ++
      (formatPadded 2 (sod.tmod 60) ++ ['Z'])))))))

example : utcStamp 1784205296 = "20260716T123456Z" := by decide +kernel

/-- What the listing of the bundles is sorted by. -/
structure BackupSummary where
  stamp : String
  createdAt : UInt64

def BackupSummary.precedes (a b : BackupSummary) : Bool :=
  a.createdAt < b.createdAt || (a.createdAt == b.createdAt && decide (a.stamp ≤ b.stamp))

def sortSummaries (summaries : List BackupSummary) : List BackupSummary :=
  summaries.mergeSort BackupSummary.precedes

/-- What the bundle of a run is listed as.  It is stamped in seconds and created in milliseconds. -/
def summaryOf (now : UInt64) : BackupSummary :=
  ⟨utcStamp now, if now.toNat * 1000 < 2 ^ 64 then now * 1000 else 0xffffffffffffffff⟩

/-! ## The parts of an era -/

/-- An era is cut into centuries, spans of four years and years, of which the last are a day longer. -/
lemma exists_yearParts {doe : ℤ} (hpos : 0 ≤ doe) (hlt : doe < 146097) :
    ∃ c q k doy : ℤ, doe = 36524 * c + (1461 * q + (365 * k + doy)) ∧ (0 ≤ c ∧ c ≤ 3) ∧
      (0 ≤ q ∧ q ≤ 24) ∧ (0 ≤ k ∧ k ≤ 3) ∧ (0 ≤ doy ∧ doy ≤ 365) ∧
      (doy = 365 → k = 3 ∧ (q = 24 → c = 3)) := by
  by_cases hlast : doe = 146096
  · exact ⟨3, 24, 3, 365, by omega⟩
  · have hcentury : 0 ≤ doe / 36524 ∧ doe / 36524 ≤ 3 := by omega
    have hdivide := Int.emod_add_mul_ediv doe 36524
    have hrest : 0 ≤ doe % 36524 ∧ doe % 36524 < 36524 := by omega
    generalize doe / 36524 = c at *
    generalize doe % 36524 = r at *
    have hspan : 0 ≤ r / 1461 ∧ r / 1461 ≤ 24 := by omega
    have hdivide' := Int.emod_add_mul_ediv r 1461
    have hrest' : 0 ≤ r % 1461 ∧ r % 1461 < 1461 := by omega
    generalize r / 1461 = q at *
    generalize r % 1461 = s at *
    by_cases hleap : s = 1460
    · exact ⟨c, q, 3, 365, by omega⟩
    · exact ⟨c, q, s / 365, s % 365, by omega⟩

lemma yearOfEra_eq {doe c q k doy : ℤ} (hdoe : doe = 36524 * c + (1461 * q + (365 * k + doy)))
    (hc : 0 ≤ c ∧ c ≤ 3) (hq : 0 ≤ q ∧ q ≤ 24) (hk : 0 ≤ k ∧ k ≤ 3) (hdoy : 0 ≤ doy ∧ doy ≤ 365)
    (hleap : doy = 365 → k = 3 ∧ (q = 24 → c = 3)) :
    (doe - doe / 1460 + doe / 36524 - doe / 146096) / 365 = 100 * c + 4 * q + k := by
  have hcentury : doe / 36524 - doe / 146096 = c := by
    have hrest : 0 ≤ 1461 * q + (365 * k + doy) ∧ 1461 * q + (365 * k + doy) ≤ 36524 ∧
        (1461 * q + (365 * k + doy) = 36524 → c = 3) := by omega
    generalize 1461 * q + (365 * k + doy) = r at *
    obtain ⟨hlow, hhigh⟩ := hc
    interval_cases c <;> omega
  have hday : 0 ≤ 365 * k + doy ∧ 365 * k + doy ≤ 1460 := by omega
  have hspan : doe / 1460 = 25 * c + q + (24 * c + q + (365 * k + doy)) / 1460 := by
    generalize 365 * k + doy = s at *
    omega
  -- the division by 1460 takes a day off in the last days of a span of four years only
  have hcarry : (24 * c + q + (365 * k + doy)) / 1460 = 0 ∧ 24 * c + q + (365 * k + doy) < 1460 ∨
      (24 * c + q + (365 * k + doy)) / 1460 = 1 ∧ 1460 ≤ 24 * c + q + (365 * k + doy) := by
    generalize 365 * k + doy = s at *
    omega
  have hnumerator : doe - doe / 1460 + doe / 36524 - doe / 146096 =
      365 * k + doy - (24 * c + q + (365 * k + doy)) / 1460 + 365 * (100 * c + 4 * q) := by
    clear hcarry
    omega
  rw [hnumerator, Int.add_mul_ediv_left _ _ (by norm_num)]
  rcases hcarry with ⟨hzero, hbelow⟩ | ⟨hone, habove⟩
  · rw [hzero]
    omega
  · rw [hone]
    omega

lemma exists_marchDay {n era doe c q k doy : ℕ} (hn : n = 146097 * era + doe)
    (hdoe : doe = 36524 * c + (1461 * q + (365 * k + doy))) (hc : c ≤ 3) (hq : q ≤ 24) (hk : k ≤ 3)
    (hdoy : doy ≤ 365) (hleap : doy = 365 → k = 3 ∧ (q = 24 → c = 3)) :
    n = marchStart (400 * era + 100 * c + 4 * q + k) + doy ∧
      doy < daysInYear (400 * era + 100 * c + 4 * q + k + 1) := by
  have hmarch := marchStart_add (400 * era + 100 * c + 4 * q + k)
  have hfour : (400 * era + 100 * c + 4 * q + k) / 4 = 100 * era + 25 * c + q := by omega
  have hhundred : (400 * era + 100 * c + 4 * q + k) / 100 = 4 * era + c := by omega
  have hfourHundred : (400 * era + 100 * c + 4 * q + k) / 400 = era := by omega
  rw [hfour, hhundred, hfourHundred] at hmarch
  refine ⟨by omega, ?_⟩
  unfold daysInYear
  by_cases hyear : IsLeap (400 * era + 100 * c + 4 * q + k + 1)
  · rw [if_pos hyear]
    omega
  · rw [if_neg hyear]
    have hlast : doy ≠ 365 := by
      intro heq
      obtain ⟨hk, hq⟩ := hleap heq
      refine hyear ⟨by omega, ?_⟩
      by_cases hend : q = 24
      · have hc := hq hend
        exact .inr (by omega)
      · exact .inl (by omega)
    omega

lemma exists_dayOfEra {doe : ℤ} (hpos : 0 ≤ doe) (hlt : doe < 146097) : ∃ c q k doy : ℕ,
    doe = 36524 * c + (1461 * q + (365 * k + doy)) ∧ c ≤ 3 ∧ q ≤ 24 ∧ k ≤ 3 ∧ doy ≤ 365 ∧
      (doy = 365 → k = 3 ∧ (q = 24 → c = 3)) ∧
      (doe - doe.tdiv 1460 + doe.tdiv 36524 - doe.tdiv 146096).tdiv 365 = 100 * c + 4 * q + k ∧
      doe - (365 * (100 * c + 4 * q + k) + (100 * c + 4 * q + k : ℤ).tdiv 4 -
        (100 * c + 4 * q + k : ℤ).tdiv 100) = doy := by
  obtain ⟨c, q, k, doy, hparts, hc, hq, hk, hdoy, hleap⟩ := exists_yearParts hpos hlt
  have hyoe := yearOfEra_eq hparts hc hq hk hdoy hleap
  have hnumerator : 0 ≤ doe - doe / 1460 + doe / 36524 - doe / 146096 := by
    clear hyoe hparts hleap
    omega
  have hyear : 0 ≤ 100 * c + 4 * q + k := by omega
  have hfour : (100 * c + 4 * q + k) / 4 = 25 * c + q := by
    clear hyoe hnumerator hparts hleap
    omega
  have hhundred : (100 * c + 4 * q + k) / 100 = c := by
    clear hyoe hnumerator hparts hleap
    omega
  refine ⟨c.toNat, q.toNat, k.toNat, doy.toNat, ?_⟩
  rw [Int.toNat_of_nonneg hc.1, Int.toNat_of_nonneg hq.1, Int.toNat_of_nonneg hk.1,
    Int.toNat_of_nonneg hdoy.1]
  rw [Int.tdiv_eq_ediv_of_nonneg hpos, Int.tdiv_eq_ediv_of_nonneg hpos,
    Int.tdiv_eq_ediv_of_nonneg hpos, Int.tdiv_eq_ediv_of_nonneg hnumerator, hyoe,
    Int.tdiv_eq_ediv_of_nonneg hyear, Int.tdiv_eq_ediv_of_nonneg hyear, hfour, hhundred]
  clear hyoe hnumerator hfour hhundred
  exact ⟨hparts, by omega, by omega, by omega, by omega, by omega, rfl, by omega⟩

lemma exists_era (n : ℕ) : ∃ era doe : ℕ, n = 146097 * era + doe ∧ doe < 146097 ∧
    (if (n : ℤ) ≥ 0 then (n : ℤ) else n - 146096).tdiv 146097 = era ∧
    (n : ℤ) - era * 146097 = doe := by
  refine ⟨n / 146097, n % 146097, ?_, ?_, ?_, ?_⟩
  · exact (Nat.div_add_mod n 146097).symm
  · exact Nat.mod_lt n (by norm_num)
  · rw [if_pos (Int.natCast_nonneg n), Int.tdiv_eq_ediv_of_nonneg (Int.natCast_nonneg n)]
    rfl
  · omega

lemma tdiv_marchMonth (doy : ℕ) : (5 * (doy : ℤ) + 2).tdiv 153 = marchMonth doy ∧
    (153 * (marchMonth doy : ℤ) + 2).tdiv 5 = ((153 * marchMonth doy + 2) / 5 : ℕ) := by
  rw [Int.tdiv_eq_ediv_of_nonneg (by omega), Int.tdiv_eq_ediv_of_nonneg (by omega)]
  exact ⟨rfl, rfl⟩

lemma exists_civilFromDays (days : ℕ) : ∃ date : Date, date.number = days + 719528 ∧
    civilFromDays days = ((date.year : ℤ), (date.month : ℤ), (date.day : ℤ)) := by
  obtain ⟨era, doe, hn, hdoe, hera, hrest⟩ := exists_era (days + 719468)
  rw [Nat.cast_add, Nat.cast_ofNat] at hera hrest
  obtain ⟨c, q, k, doy, hparts, hc, hq, hk, hdoy, hleap, hyoe, hdayOfYear⟩ :=
    exists_dayOfEra (Int.natCast_nonneg doe) (Int.ofNat_lt.mpr hdoe)
  obtain ⟨hmarch, hyear⟩ := exists_marchDay hn (by exact_mod_cast hparts) hc hq hk hdoy hleap
  obtain ⟨hmonth, hdays⟩ := tdiv_marchMonth doy
  unfold civilFromDays
  dsimp only
  rw [hera, hrest, hyoe, hdayOfYear, hmonth, hdays]
  clear hera hrest hyoe hdayOfYear hmonth hdays hparts hn hleap
  by_cases hearly : marchMonth doy < 10
  · obtain ⟨date, hnumber, hy, hm, hd⟩ :=
      @exists_date_early (400 * era + 100 * c + 4 * q + k) doy hearly
    refine ⟨date, by omega, ?_⟩
    rw [if_pos (show (marchMonth doy : ℤ) < 10 by omega),
      if_neg (show ¬ (marchMonth doy : ℤ) + 3 ≤ 2 by omega)]
    refine Prod.ext ?_ (Prod.ext ?_ ?_)
    · show (100 * c + 4 * q + k : ℤ) + era * 400 = date.year
      omega
    · show (marchMonth doy : ℤ) + 3 = date.month
      omega
    · show (doy : ℤ) - ((153 * marchMonth doy + 2) / 5 : ℕ) + 1 = date.day
      omega
  · obtain ⟨date, hnumber, hy, hm, hd⟩ :=
      @exists_date_late (400 * era + 100 * c + 4 * q + k) doy hyear (not_lt.mp hearly)
    have hbound : marchMonth doy ≤ 11 := by
      unfold marchMonth
      omega
    refine ⟨date, by omega, ?_⟩
    rw [if_neg (show ¬ (marchMonth doy : ℤ) < 10 by omega),
      if_pos (show (marchMonth doy : ℤ) - 9 ≤ 2 by omega)]
    refine Prod.ext ?_ (Prod.ext ?_ ?_)
    · show (100 * c + 4 * q + k : ℤ) + era * 400 + 1 = date.year
      omega
    · show (marchMonth doy : ℤ) - 9 = date.month
      omega
    · show (doy : ℤ) - ((153 * marchMonth doy + 2) / 5 : ℕ) + 1 = date.day
      omega

/-! ## The text of a time -/

/-- The fields of a time, and what stands between them. -/
def stampOf (time : Time) : List Char :=
  padded 4 time.date.year ++ (padded 2 time.date.month ++ (padded 2 time.date.day ++ ('T' ::
    (padded 2 time.hour ++ (padded 2 time.minute ++ (padded 2 time.second ++ ['Z']))))))

/-- The time that many seconds after the beginning of 1970. -/
def IsTimeOf (time : Time) (unixSecs : UInt64) : Prop :=
  time.seconds = 86400 * 719528 + unixSecs.toNat

/-- The beginning of 1970. -/
example : daysBeforeYear 1970 = 719528 := by decide +kernel

variable {time time' : Time} {unixSecs t t' : UInt64}

lemma formatPadded_natCast (width n : ℕ) : formatPadded width n = padded width n := by
  unfold formatPadded
  rw [if_neg (by omega), Int.toNat_natCast]

lemma exists_utcStamp (unixSecs : UInt64) :
    ∃ time, IsTimeOf time unixSecs ∧ utcStamp unixSecs = String.ofList (stampOf time) := by
  obtain ⟨date, hnumber, hdate⟩ := exists_civilFromDays (unixSecs / 86400).toNat
  have hdays : (unixSecs / 86400).toNat = unixSecs.toNat / 86400 := UInt64.toNat_div _ _
  have hsod : (unixSecs % 86400).toNat = unixSecs.toNat % 86400 := UInt64.toNat_mod _ _
  have hlt : (unixSecs % 86400).toNat < 86400 := by omega
  have hhour : ((unixSecs % 86400).toNat : ℤ).tdiv 3600 = ((unixSecs % 86400).toNat / 3600 : ℕ) :=
    Int.tdiv_eq_ediv_of_nonneg (Int.natCast_nonneg _)
  have hminute : (((unixSecs % 86400).toNat : ℤ).tmod 3600).tdiv 60 =
      ((unixSecs % 86400).toNat % 3600 / 60 : ℕ) := by
    rw [Int.tmod_eq_emod_of_nonneg (Int.natCast_nonneg _),
      Int.tdiv_eq_ediv_of_nonneg (by omega)]
    rfl
  have hsecond : ((unixSecs % 86400).toNat : ℤ).tmod 60 = ((unixSecs % 86400).toNat % 60 : ℕ) :=
    Int.tmod_eq_emod_of_nonneg (Int.natCast_nonneg _)
  refine ⟨⟨date, (unixSecs % 86400).toNat / 3600, (unixSecs % 86400).toNat % 3600 / 60,
    (unixSecs % 86400).toNat % 60, by omega, by omega, by omega⟩, ?_, ?_⟩
  · show 86400 * date.number + 3600 * ((unixSecs % 86400).toNat / 3600) +
      60 * ((unixSecs % 86400).toNat % 3600 / 60) + (unixSecs % 86400).toNat % 60 =
        86400 * 719528 + unixSecs.toNat
    omega
  · unfold utcStamp stampOf
    dsimp only
    rw [hdate, hhour, hminute, hsecond]
    dsimp only
    rw [formatPadded_natCast, formatPadded_natCast, formatPadded_natCast, formatPadded_natCast,
      formatPadded_natCast, formatPadded_natCast]

lemma day_lt (date : Date) : date.day < 10 ^ 2 := by
  have hle := date.day_le
  unfold daysInMonth at hle
  split_ifs at hle <;> omega

lemma month_lt (date : Date) : date.month < 10 ^ 2 := by
  have hle := date.month_le
  omega

lemma stampOf_lt (hyear : time'.date.year < 10 ^ 4) (h : time.seconds < time'.seconds) :
    stampOf time < stampOf time' := by
  have hhour := time'.hour_lt
  have hminute := time'.minute_lt
  have hsecond := time'.second_lt
  unfold stampOf
  rcases Time.lt_cases h with hdate | ⟨hdate, htime⟩
  · rcases Prod.Lex.toLex_lt_toLex.mp hdate with hyears | ⟨hyears, hrest⟩
    · exact padded_append_lt (by norm_num) hyear hyears
    · rw [show time.date.year = time'.date.year from hyears]
      refine append_lt_append_left ?_
      rcases Prod.Lex.toLex_lt_toLex.mp hrest with hmonths | ⟨hmonths, hdays⟩
      · exact padded_append_lt (by norm_num) (month_lt _) hmonths
      · rw [show time.date.month = time'.date.month from hmonths]
        exact append_lt_append_left (padded_append_lt (by norm_num) (day_lt _) hdays)
  · rw [hdate]
    refine append_lt_append_left (append_lt_append_left (append_lt_append_left ?_))
    refine List.cons_lt_cons_iff.mpr (.inr ⟨rfl, ?_⟩)
    rcases htime with hhours | ⟨hhours, htime⟩
    · exact padded_append_lt (by norm_num) (by omega) hhours
    · rw [hhours]
      refine append_lt_append_left ?_
      rcases htime with hminutes | ⟨hminutes, hseconds⟩
      · exact padded_append_lt (by norm_num) (by omega) hminutes
      · rw [hminutes]
        exact append_lt_append_left (padded_append_lt (by norm_num) (by omega) hseconds)

lemma utf8ByteSize_ofList {l : List Char} (h : ∀ c ∈ l, c.utf8Size = 1) :
    (String.ofList l).utf8ByteSize = l.length := by
  induction l with
  | nil => rfl
  | cons c l ih =>
    rw [String.ofList_cons, String.utf8ByteSize_append, String.utf8ByteSize_singleton,
      h c List.mem_cons_self, ih fun d hd => h d (List.mem_cons_of_mem _ hd), List.length_cons,
      Nat.add_comm]

lemma utf8Size_of_isDigit {c : Char} (h : c.isDigit = true) : c.utf8Size = 1 := by
  have hle : c.val ≤ 57 := (Char.isDigit_iff_toNat.mp h).2
  have hsmall : c.val ≤ 127 := UInt32.le_trans hle (by decide)
  unfold Char.utf8Size
  exact if_pos hsmall

lemma mem_stampOf (hyear : time.date.year < 10 ^ 4) {c : Char} (h : c ∈ stampOf time) :
    c.isDigit = true ∨ c = 'T' ∨ c = 'Z' := by
  have hhour := time.hour_lt
  have hminute := time.minute_lt
  have hsecond := time.second_lt
  have hfield : ∀ {w n : ℕ}, 0 < w → n < 10 ^ w → c ∈ padded w n →
      c.isDigit = true ∨ c = 'T' ∨ c = 'Z' :=
    fun hw hn hc => .inl (isDigit_of_mem_padded hw hn hc)
  unfold stampOf at h
  rcases List.mem_append.mp h with h | h
  · exact hfield (by norm_num) hyear h
  rcases List.mem_append.mp h with h | h
  · exact hfield (by norm_num) (month_lt _) h
  rcases List.mem_append.mp h with h | h
  · exact hfield (by norm_num) (day_lt _) h
  rcases List.mem_cons.mp h with h | h
  · exact .inr (.inl h)
  rcases List.mem_append.mp h with h | h
  · exact hfield (by norm_num) (by omega) h
  rcases List.mem_append.mp h with h | h
  · exact hfield (by norm_num) (by omega) h
  rcases List.mem_append.mp h with h | h
  · exact hfield (by norm_num) (by omega) h
  · exact .inr (.inr (List.mem_singleton.mp h))

lemma length_padded {w n : ℕ} (hw : 0 < w) (h : n < 10 ^ w) : (padded w n).length = w := by
  rw [padded_eq_digits hw h, length_digits]

lemma length_stampOf (hyear : time.date.year < 10 ^ 4) : (stampOf time).length = 16 := by
  have hhour := time.hour_lt
  have hminute := time.minute_lt
  have hsecond := time.second_lt
  unfold stampOf
  simp only [List.length_append, List.length_cons, List.length_nil]
  rw [length_padded (by norm_num) hyear, length_padded (by norm_num) (month_lt _),
    length_padded (by norm_num) (day_lt _), length_padded (by norm_num) (by omega),
    length_padded (by norm_num) (by omega), length_padded (by norm_num) (by omega)]

lemma validateStamp_stampOf (hyear : time.date.year < 10 ^ 4) :
    validateStamp (String.ofList (stampOf time)) = .ok () := by
  have hlength := length_stampOf hyear
  have hchars : ∀ c ∈ stampOf time, isStampChar c = true ∧ c.utf8Size = 1 := by
    intro c hc
    rcases mem_stampOf hyear hc with hdigit | rfl | rfl
    · refine ⟨?_, utf8Size_of_isDigit hdigit⟩
      unfold isStampChar Char.isAlphanum
      rw [hdigit, Bool.or_true, Bool.true_or]
    · exact ⟨by decide, by decide⟩
    · exact ⟨by decide, by decide⟩
  have hsize : (String.ofList (stampOf time)).utf8ByteSize = 16 := by
    rw [utf8ByteSize_ofList fun c hc => (hchars c hc).2, hlength]
  unfold validateStamp
  rw [if_pos]
  · rfl
  · refine ⟨fun hempty => ?_, by omega, ?_⟩
    · rw [hempty] at hsize
      exact absurd hsize (by decide)
    · rw [String.toList_ofList]
      exact List.all_eq_true.mpr fun c hc => (hchars c hc).1

/-! ## The order of the stamps -/

/-- The run began in the year 9999 at the latest. -/
def HasFourDigits (unixSecs : UInt64) : Prop := ∀ time, IsTimeOf time unixSecs → time.date.year ≤ 9999

lemma utcStamp_lt (hyear : HasFourDigits t') (h : t < t') : utcStamp t < utcStamp t' := by
  obtain ⟨time, htime, hstamp⟩ := exists_utcStamp t
  obtain ⟨time', htime', hstamp'⟩ := exists_utcStamp t'
  have hfour := hyear time' htime'
  have hlt : t.toNat < t'.toNat := h
  rw [hstamp, hstamp', String.lt_iff, String.toList_ofList, String.toList_ofList]
  refine stampOf_lt (by omega) ?_
  unfold IsTimeOf at htime htime'
  omega

lemma utcStamp_le (hyear : HasFourDigits t') (h : t ≤ t') : utcStamp t ≤ utcStamp t' := by
  rcases UInt64.le_iff_lt_or_eq.mp h with hlt | heq
  · exact String.not_lt.mp (String.lt_asymm (utcStamp_lt hyear hlt))
  · rw [heq]

lemma eq_of_sorted {names names' : List String} (hsorted : names.Pairwise (· ≤ ·))
    (hsorted' : names'.Pairwise (· ≤ ·)) (hperm : names.Perm names') : names = names' :=
  List.Perm.eq_of_pairwise (fun _ _ _ _ => String.le_antisymm) hsorted hsorted' hperm

def sortTimes (times : List UInt64) : List UInt64 := times.mergeSort fun a b => decide (a ≤ b)

lemma sortTimes_perm (times : List UInt64) : (sortTimes times).Perm times :=
  List.mergeSort_perm times _

lemma sortTimes_pairwise (times : List UInt64) : (sortTimes times).Pairwise (· ≤ ·) := by
  have hsorted : (sortTimes times).Pairwise fun a b => decide (a ≤ b) = true := by
    refine List.pairwise_mergeSort ?_ ?_ times
    · intro a b c hab hbc
      simp only [decide_eq_true_eq] at hab hbc ⊢
      exact UInt64.le_trans hab hbc
    · intro a b
      simpa using UInt64.le_total a b
  exact hsorted.imp of_decide_eq_true

lemma sortNames_utcStamp {times : List UInt64} (hyear : ∀ t ∈ times, HasFourDigits t) :
    sortNames (times.map utcStamp) = (sortTimes times).map utcStamp := by
  refine eq_of_sorted (sortNames_pairwise _) (List.pairwise_map.mpr ?_)
    ((sortNames_perm _).trans ((sortTimes_perm times).map utcStamp).symm)
  refine (sortTimes_pairwise times).imp_of_mem fun {a b} _ hb hab => ?_
  exact utcStamp_le (hyear b ((sortTimes_perm times).mem_iff.mp hb)) hab

lemma toNat_lt_of_hasFourDigits (h : HasFourDigits t) : t.toNat < 253402300800 := by
  obtain ⟨time, htime, -⟩ := exists_utcStamp t
  have hyear := h time htime
  have hbefore := time.date.number_lt_daysBeforeYear
  have hend : daysBeforeYear (time.date.year + 1) ≤ daysBeforeYear 10000 :=
    daysBeforeYear_mono (by omega)
  have hlast := daysBeforeYear_eq 10000
  have hhour := time.hour_lt
  have hminute := time.minute_lt
  have hsecond := time.second_lt
  unfold IsTimeOf Time.seconds at htime
  omega

lemma precedes_iff {a b : BackupSummary} : a.precedes b = true ↔
    a.createdAt < b.createdAt ∨ a.createdAt = b.createdAt ∧ a.stamp ≤ b.stamp := by
  unfold BackupSummary.precedes
  rw [Bool.or_eq_true, Bool.and_eq_true, decide_eq_true_eq, beq_iff_eq, decide_eq_true_eq]

lemma sortSummaries_pairwise (summaries : List BackupSummary) :
    (sortSummaries summaries).Pairwise fun a b => a.precedes b = true := by
  refine List.pairwise_mergeSort ?_ ?_ summaries
  · intro a b c hab hbc
    rw [precedes_iff] at hab hbc ⊢
    rcases hab with hab | ⟨hab, hstamp⟩
    · rcases hbc with hbc | ⟨hbc, -⟩
      · exact .inl (UInt64.lt_trans hab hbc)
      · exact .inl (hbc ▸ hab)
    · rcases hbc with hbc | ⟨hbc, hstamp'⟩
      · exact .inl (hab ▸ hbc)
      · exact .inr ⟨hab.trans hbc, String.le_trans hstamp hstamp'⟩
  · intro a b
    rw [Bool.or_eq_true, precedes_iff, precedes_iff]
    rcases Nat.lt_trichotomy a.createdAt.toNat b.createdAt.toNat with hlt | heq | hgt
    · exact .inl (.inl hlt)
    · have heq : a.createdAt = b.createdAt := UInt64.toNat_inj.mp heq
      rcases String.le_total a.stamp b.stamp with hle | hle
      · exact .inl (.inr ⟨heq, hle⟩)
      · exact .inr (.inr ⟨heq.symm, hle⟩)
    · exact .inr (.inl hgt)

lemma toNat_createdAt (h : HasFourDigits t) : (summaryOf t).createdAt.toNat = t.toNat * 1000 := by
  have hlt := toNat_lt_of_hasFourDigits h
  unfold summaryOf
  dsimp only
  rw [if_pos (by omega), UInt64.toNat_mul]
  show t.toNat * 1000 % 2 ^ 64 = t.toNat * 1000
  exact Nat.mod_eq_of_lt (by omega)

lemma sortSummaries_summaryOf {times : List UInt64} (hyear : ∀ t ∈ times, HasFourDigits t) :
    (sortSummaries (times.map summaryOf)).map (·.stamp) = sortNames (times.map utcStamp) := by
  have hperm : (sortSummaries (times.map summaryOf)).Perm (times.map summaryOf) :=
    List.mergeSort_perm _ _
  refine eq_of_sorted (List.pairwise_map.mpr ?_) (sortNames_pairwise _) ?_
  · refine (sortSummaries_pairwise _).imp_of_mem fun {a b} ha hb hab => ?_
    obtain ⟨t, ht, rfl⟩ := List.mem_map.mp (hperm.mem_iff.mp ha)
    obtain ⟨t', ht', rfl⟩ := List.mem_map.mp (hperm.mem_iff.mp hb)
    rcases precedes_iff.mp hab with hlt | ⟨-, hstamp⟩
    · have hlt : (summaryOf t).createdAt.toNat < (summaryOf t').createdAt.toNat := hlt
      rw [toNat_createdAt (hyear t ht), toNat_createdAt (hyear t' ht')] at hlt
      refine utcStamp_le (hyear t' ht') (UInt64.le_iff_toNat_le.mpr ?_)
      omega
    · exact hstamp
  · refine (hperm.map _).trans ?_
    rw [List.map_map]
    exact (sortNames_perm _).symm

/-- **Stamps are ordered like times.**  A stamp is the date and the time of day of its run and passes the
check of stamps, a later run has a greater one, and the two orders that bundles are sorted in, by
stamp for the pruning and by creation for the listing, are the order of the runs. -/
theorem utcStamp_ordered :
    (∀ t, ∃ time, IsTimeOf time t ∧ utcStamp t = String.ofList (stampOf time) ∧
      (HasFourDigits t → validateStamp (utcStamp t) = .ok ())) ∧
    (∀ t t', t < t' → HasFourDigits t' → utcStamp t < utcStamp t') ∧
    ∀ times : List UInt64, (∀ t ∈ times, HasFourDigits t) →
      sortNames (times.map utcStamp) = (sortTimes times).map utcStamp ∧
      (sortSummaries (times.map summaryOf)).map (·.stamp) = (sortTimes times).map utcStamp := by
  refine ⟨fun t => ?_, fun t t' hlt hyear => utcStamp_lt hyear hlt, fun times hyear => ?_⟩
  · obtain ⟨time, htime, hstamp⟩ := exists_utcStamp t
    refine ⟨time, htime, hstamp, fun hyear => ?_⟩
    have hfour := hyear time htime
    rw [hstamp]
    exact validateStamp_stampOf (by omega)
  · refine ⟨sortNames_utcStamp hyear, ?_⟩
    rw [sortSummaries_summaryOf hyear]
    exact sortNames_utcStamp hyear

end Bundles

end MaxSecu
