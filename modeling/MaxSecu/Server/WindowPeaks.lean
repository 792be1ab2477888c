import MaxSecu.Framework.SlidingWindow
import MaxSecu.Server.Detect

/-!
# The peaks that the detection finds

The two pointers of the sweep, the left one at each time in turn and the right one never reset, find
the fullest window of all (`sweep_eq_peak`), unless a right edge does not fit (`sweep_eq_none`).  The
spike and fan-out alerts follow: `analyze_peaks`.
-/

namespace MaxSecu

open SlidingWindow AscendingList

namespace Detect

/-! ## The sweep -/

/-- The right edges that the sweep forms fit in 64 bits: all of them do, or one that does lies beyond
every time, after which the pointer stays at the end and no other edge is formed. -/
def SweepFits (times : List UInt64) (window : UInt64) : Prop :=
  (∀ s ∈ times, s.toNat + window.toNat < 2 ^ 64) ∨
    ∃ a ∈ times, a.toNat + window.toNat < 2 ^ 64 ∧
      ∀ s ∈ times, s.toNat < a.toNat + window.toNat

section Sweep

variable {times l : List UInt64} {window leftTime : UInt64} {left right p : ℕ}

/-- How many of the times lie before the right edge of the window at `leftTime`. -/
abbrev countBefore (leftTime window : UInt64) (l : List UInt64) : ℕ :=
  l.countP fun s => s.toNat < leftTime.toNat + window.toNat

lemma advanceRight_eq (hroom : leftTime.toNat + window.toNat < 2 ^ 64)
    (hsorted : l.Pairwise fun a b => a.toNat ≤ b.toNat) (right : ℕ) :
    advanceRight leftTime window l right = some (right + countBefore leftTime window l) := by
  induction l generalizing right with
  | nil => rfl
  | cons next rest ih =>
    obtain ⟨hnext, hrest⟩ := List.pairwise_cons.mp hsorted
    have hedge : checkedAdd leftTime window = some (leftTime + window) := by
      rw [checkedAdd, if_pos hroom]
    have hnat : (leftTime + window).toNat = leftTime.toNat + window.toNat :=
      checkedAdd_eq_some.mp hedge
    show ((checkedAdd leftTime window).bind fun edge =>
      if next < edge then advanceRight leftTime window rest (right + 1) else some right) = _
    rw [hedge, Option.bind_some]
    by_cases hlt : next < leftTime + window
    · have hin : next.toNat < leftTime.toNat + window.toNat := hnat ▸ UInt64.lt_iff_toNat_lt.mp hlt
      have hcount : countBefore leftTime window (next :: rest) =
          countBefore leftTime window rest + 1 :=
        List.countP_cons_of_pos (decide_eq_true hin)
      rw [if_pos hlt, ih hrest, hcount]
      congr 1
      omega
    · have hout : leftTime.toNat + window.toNat ≤ next.toNat := by
        rw [← hnat]
        exact Nat.le_of_not_lt fun h => hlt (UInt64.lt_iff_toNat_lt.mpr h)
      have hnone : countBefore leftTime window (next :: rest) = 0 := by
        refine List.countP_eq_zero.mpr fun s hs => ?_
        rcases List.mem_cons.mp hs with rfl | hs
        · simpa using hout
        · simpa using hout.trans (hnext s hs)
      rw [if_neg hlt, hnone]
      rfl

lemma take_before {edge : ℕ} (hsorted : l.Pairwise fun a b => a.toNat ≤ b.toNat) :
    ∀ s ∈ l.take (l.countP fun s => s.toNat < edge), s.toNat < edge := by
  induction l with
  | nil => simp
  | cons a l ih =>
    obtain ⟨ha, hl⟩ := List.pairwise_cons.mp hsorted
    intro s hs
    by_cases hlt : a.toNat < edge
    · rw [List.countP_cons_of_pos (by simpa using hlt), List.take_succ_cons] at hs
      rcases List.mem_cons.mp hs with rfl | hs
      · exact hlt
      · exact ih hl s hs
    · have hnone : ((a :: l).countP fun s => s.toNat < edge) = 0 := by
        refine List.countP_eq_zero.mpr fun s hs => ?_
        rcases List.mem_cons.mp hs with rfl | hs
        · simpa using hlt
        · have := ha s hs
          simp only [decide_eq_true_eq]
          omega
      rw [hnone] at hs
      exact absurd hs (by simp)

lemma sweepFits_cons (hsorted : (leftTime :: l).Pairwise fun a b => a.toNat ≤ b.toNat) :
    SweepFits (leftTime :: l) window ↔
      leftTime.toNat + window.toNat < 2 ^ 64 ∧
        ((∀ s ∈ leftTime :: l, s.toNat < leftTime.toNat + window.toNat) ∨ SweepFits l window) := by
  have hfirst := (List.pairwise_cons.mp hsorted).1
  constructor
  · rintro (hall | ⟨a, ha, hroom, hbeyond⟩)
    · exact ⟨hall _ List.mem_cons_self, Or.inr (Or.inl fun s hs => hall s (List.mem_cons_of_mem _ hs))⟩
    · rcases List.mem_cons.mp ha with rfl | ha
      · exact ⟨hroom, Or.inl hbeyond⟩
      · have hle := hfirst a ha
        exact ⟨by omega, Or.inr (Or.inr ⟨a, ha, hroom, fun s hs =>
          hbeyond s (List.mem_cons_of_mem _ hs)⟩)⟩
  · rintro ⟨hroom, hbeyond | hall | ⟨a, ha, hroom', hbeyond⟩⟩
    · exact Or.inr ⟨leftTime, List.mem_cons_self, hroom, hbeyond⟩
    · refine Or.inl fun s hs => ?_
      rcases List.mem_cons.mp hs with rfl | hs
      · exact hroom
      · exact hall s hs
    · refine Or.inr ⟨a, List.mem_cons_of_mem _ ha, hroom', fun s hs => ?_⟩
      rcases List.mem_cons.mp hs with rfl | hs
      · have := hfirst a ha
        have := hbeyond a ha
        omega
      · exact hbeyond s hs

/-- What the loop knows at the left edge `left`, where the times from it on are `l`: the right
pointer is in range, and the times that it has passed lie before the next right edge. -/
structure Passed (times l : List UInt64) (window : UInt64) (left right : ℕ) : Prop where
  rest : times.drop left = l
  sorted : l.Pairwise fun a b => a.toNat ≤ b.toNat
  inRange : right ≤ times.length
  passed : ∀ s ∈ l.take (right - left), ∀ t ∈ l.head?, s.toNat < t.toNat + window.toNat

/-- The right pointer comes to rest behind all times before the edge, and the invariant holds at the
next left edge. -/
lemma Passed.next (h : Passed times (leftTime :: l) window left right) :
    Passed times l window (left + 1) (left + countBefore leftTime window (leftTime :: l)) := by
  obtain ⟨hrest, hsorted, -, -⟩ := h
  have hlen : times.length = left + (l.length + 1) := by
    have := congrArg List.length hrest
    rw [List.length_drop, List.length_cons] at this
    omega
  refine ⟨?_, (List.pairwise_cons.mp hsorted).2, ?_, ?_⟩
  · rw [← List.drop_drop, hrest]
    rfl
  · have hle : countBefore leftTime window (leftTime :: l) ≤ (leftTime :: l).length :=
      List.countP_le_length
    rw [List.length_cons] at hle
    omega
  · intro s hs t ht
    have hlater : leftTime.toNat ≤ t.toNat :=
      (List.pairwise_cons.mp hsorted).1 t (List.mem_of_mem_head? ht)
    have hcount : s ∈ (leftTime :: l).take (countBefore leftTime window (leftTime :: l)) := by
      generalize countBefore leftTime window (leftTime :: l) = n at hs
      obtain _ | n := n
      · rw [show left + 0 - (left + 1) = 0 by omega] at hs
        exact absurd hs (by simp)
      · rw [show left + (n + 1) - (left + 1) = n by omega] at hs
        exact List.mem_cons_of_mem _ hs
    have := take_before hsorted s hcount
    omega

lemma Passed.advanceRight_eq (h : Passed times (leftTime :: l) window left right)
    (hroom : leftTime.toNat + window.toNat < 2 ^ 64 ∨ l.length + 1 ≤ right - left) :
    advanceRight leftTime window (times.drop (if right < left then left else right))
        (if right < left then left else right) =
      some (left + countBefore leftTime window (leftTime :: l)) := by
  obtain ⟨hrest, hsorted, hrange, hpassed⟩ := h
  have hstart : (if right < left then left else right) = left + (right - left) := by
    split <;> omega
  have hlen : times.length = left + (l.length + 1) := by
    have := congrArg List.length hrest
    rw [List.length_drop, List.length_cons] at this
    omega
  rw [hstart, ← List.drop_drop, hrest]
  have htake : countBefore leftTime window ((leftTime :: l).take (right - left)) =
      right - left := by
    have hall : ∀ s ∈ (leftTime :: l).take (right - left),
        decide (s.toNat < leftTime.toNat + window.toNat) = true := fun s hs =>
      decide_eq_true (hpassed s hs leftTime rfl)
    rw [countBefore, List.countP_eq_length.mpr hall, List.length_take, List.length_cons]
    omega
  have hsplit : countBefore leftTime window (leftTime :: l) =
      right - left + countBefore leftTime window ((leftTime :: l).drop (right - left)) := by
    calc countBefore leftTime window (leftTime :: l)
        = countBefore leftTime window
            ((leftTime :: l).take (right - left) ++ (leftTime :: l).drop (right - left)) := by
          rw [List.take_append_drop]
      _ = countBefore leftTime window ((leftTime :: l).take (right - left)) +
            countBefore leftTime window ((leftTime :: l).drop (right - left)) :=
          List.countP_append
      _ = right - left + countBefore leftTime window ((leftTime :: l).drop (right - left)) := by
          rw [htake]
  rcases hroom with hroom | hend
  · rw [Detect.advanceRight_eq hroom (hsorted.sublist (List.drop_sublist _ _)), hsplit, Nat.add_assoc]
  · rw [hsplit, List.drop_of_length_le (by rw [List.length_cons]; exact hend)]
    rfl

lemma Passed.sweepFrom_eq (h : Passed times l window left right)
    (hfits : l.length ≤ right - left ∨ SweepFits l window) :
    sweepFrom times window l left right p =
      some (max p (peak (l.map UInt64.toNat) window.toNat)) := by
  induction l generalizing left right p with
  | nil =>
    rw [List.map_nil, peak_nil, Nat.max_zero]
    rfl
  | cons leftTime l ih =>
    have hsorted := h.sorted
    have hroom : leftTime.toNat + window.toNat < 2 ^ 64 ∨ l.length + 1 ≤ right - left := by
      rcases hfits with hend | hfits
      · exact Or.inr hend
      · exact Or.inl ((sweepFits_cons hsorted).mp hfits).1
    have hall : (∀ s ∈ leftTime :: l, s.toNat < leftTime.toNat + window.toNat) ∨
        SweepFits l window := by
      rcases hfits with hend | hfits
      · refine Or.inl fun s hs => h.passed s ?_ leftTime rfl
        rwa [List.take_of_length_le hend]
      · exact ((sweepFits_cons hsorted).mp hfits).2
    have hnext : l.length ≤ left + countBefore leftTime window (leftTime :: l) - (left + 1) ∨
        SweepFits l window := by
      refine hall.imp_left fun hall => ?_
      have hcount : countBefore leftTime window (leftTime :: l) = l.length + 1 :=
        List.countP_eq_length.mpr fun s hs => decide_eq_true (hall s hs)
      omega
    have hpeak := @peak_cons (l.map UInt64.toNat) window.toNat leftTime.toNat
      (List.pairwise_map.mpr hsorted)
    have hcount : ((leftTime.toNat :: l.map UInt64.toNat).countP
        fun s => s < leftTime.toNat + window.toNat) = countBefore leftTime window (leftTime :: l) := by
      rw [← List.map_cons, List.countP_map]
      rfl
    show ((advanceRight leftTime window (times.drop (if right < left then left else right))
      (if right < left then left else right)).bind fun right =>
        sweepFrom times window l (left + 1) right (max p (right - left))) = _
    rw [h.advanceRight_eq hroom, Option.bind_some, ih h.next hnext, List.map_cons, hpeak, hcount]
    congr 1
    rw [Nat.add_sub_cancel_left, Nat.max_assoc]

lemma Passed.sweepFrom_eq_none (h : Passed times l window left right)
    (hfits : ¬(l.length ≤ right - left ∨ SweepFits l window)) :
    sweepFrom times window l left right p = none := by
  induction l generalizing left right p with
  | nil => exact absurd (Or.inl (Nat.zero_le _)) hfits
  | cons leftTime l ih =>
    obtain ⟨hend, hfits⟩ := not_or.mp hfits
    show ((advanceRight leftTime window (times.drop (if right < left then left else right))
      (if right < left then left else right)).bind fun right =>
        sweepFrom times window l (left + 1) right (max p (right - left))) = none
    by_cases hroom : leftTime.toNat + window.toNat < 2 ^ 64
    · rw [h.advanceRight_eq (Or.inl hroom), Option.bind_some]
      refine ih h.next fun hnext => hfits ((sweepFits_cons h.sorted).mpr ⟨hroom, ?_⟩)
      refine hnext.imp_left fun hnext => ?_
      have hle : countBefore leftTime window (leftTime :: l) ≤ l.length + 1 := List.countP_le_length
      rcases l with _ | ⟨next, l⟩
      · exact absurd (Or.inl fun s hs => by
          rw [List.mem_singleton.mp hs]; exact hroom) hfits
      · have hcount : countBefore leftTime window (leftTime :: next :: l) =
            (leftTime :: next :: l).length := by
          simp only [List.length_cons] at hnext hle ⊢
          omega
        intro s hs
        simpa using List.countP_eq_length.mp hcount s hs
    · have hedge : checkedAdd leftTime window = none := by
        rw [checkedAdd, if_neg hroom]
      have hstart : (if right < left then left else right) = left + (right - left) := by
        split <;> omega
      rw [hstart, ← List.drop_drop, h.rest]
      cases hdrop : (leftTime :: l).drop (right - left) with
      | nil => exact absurd (List.drop_eq_nil_iff.mp hdrop) hend
      | cons next rest =>
        show (((checkedAdd leftTime window).bind fun edge => if next < edge then
          advanceRight leftTime window rest (left + (right - left) + 1)
            else some (left + (right - left))).bind fun right =>
              sweepFrom times window l (left + 1) right (max p (right - left))) = none
        rw [hedge]
        rfl

/-- The two pointers find the fullest window. -/
theorem sweep_eq_peak (hfits : SweepFits times window) :
    sweep times window = some (peak (times.map UInt64.toNat) window.toNat) := by
  have hperm : (sortBy UInt64.toNat times).Perm times := List.mergeSort_perm _ _
  have hstart : Passed (sortBy UInt64.toNat times) (sortBy UInt64.toNat times) window 0 0 :=
    ⟨rfl, sortBy_pairwise _ _, Nat.zero_le _, by simp⟩
  have hsorted : SweepFits (sortBy UInt64.toNat times) window := by
    simpa only [SweepFits, mem_sortBy] using hfits
  rw [sweep, hstart.sweepFrom_eq (Or.inr hsorted), Nat.zero_max, peak_perm (hperm.map _)]

theorem sweep_eq_none (hfits : ¬SweepFits times window) : sweep times window = none := by
  have hstart : Passed (sortBy UInt64.toNat times) (sortBy UInt64.toNat times) window 0 0 :=
    ⟨rfl, sortBy_pairwise _ _, Nat.zero_le _, by simp⟩
  have hsorted : ¬SweepFits (sortBy UInt64.toNat times) window := by
    simpa only [SweepFits, mem_sortBy] using hfits
  refine hstart.sweepFrom_eq_none ?_
  rintro (hend | hfits)
  · have hnil : sortBy UInt64.toNat times = [] := List.length_eq_zero_iff.mp (Nat.le_zero.mp hend)
    rw [hnil] at hsorted
    exact hsorted (Or.inl (by simp))
  · exact hsorted hfits

end Sweep

/-! ## The re-shares of each granter -/

/-- When the granter re-shared, if the event says so. -/
def AuditEvent.resharedAt (granter : Id) : AuditEvent → Option UInt64
  | .grant grantedBy _ .reshare _ atMs => if grantedBy = granter then some atMs else none
  | _ => none

abbrev deniedTimes (events : List AuditEvent) : List UInt64 :=
  events.filterMap AuditEvent.deniedAt

abbrev reshareTimes (events : List AuditEvent) (granter : Id) : List UInt64 :=
  events.filterMap (AuditEvent.resharedAt granter)

/-- What a list of times is after some more of them were pushed: none is there before the first. -/
def pushAll (times : Option (List UInt64)) (more : List UInt64) : Option (List UInt64) :=
  if more = [] then times else some (times.getD [] ++ more)

lemma lookup_pushReshare (m : AList fun _ : Id => List UInt64) (e : AuditEvent) (granter : Id) :
    (pushReshare m e).lookup granter =
      pushAll (m.lookup granter) (AuditEvent.resharedAt granter e).toList := by
  rcases e with _ | ⟨grantedBy, recipientId, action, fileId, atMs⟩ | _ | _ | _ | _
  case grant =>
    cases action with
    | author => rfl
    | softRevoke => rfl
    | reshare =>
      show (m.insert grantedBy _).lookup granter = _
      by_cases hgranter : grantedBy = granter
      · subst hgranter
        rw [AList.lookup_insert, AuditEvent.resharedAt, if_pos rfl]
        rfl
      · rw [AList.lookup_insert_ne (Ne.symm hgranter), AuditEvent.resharedAt, if_neg hgranter]
        rfl
  all_goals rfl

lemma pushAll_append (times : Option (List UInt64)) (more more' : List UInt64) :
    pushAll (pushAll times more) more' = pushAll times (more ++ more') := by
  unfold pushAll
  by_cases hmore : more = []
  · simp [hmore]
  · by_cases hmore' : more' = []
    · simp [hmore, hmore']
    · simp [hmore, hmore']

lemma lookup_foldl_pushReshare (events : List AuditEvent) (m : AList fun _ : Id => List UInt64)
    (granter : Id) :
    (events.foldl pushReshare m).lookup granter =
      pushAll (m.lookup granter) (reshareTimes events granter) := by
  induction events generalizing m with
  | nil => rfl
  | cons e events ih =>
    have hcons : reshareTimes (e :: events) granter =
        (AuditEvent.resharedAt granter e).toList ++ reshareTimes events granter := by
      rw [reshareTimes, List.filterMap_cons]
      cases AuditEvent.resharedAt granter e <;> rfl
    rw [List.foldl_cons, ih, lookup_pushReshare, pushAll_append, hcons]

lemma mem_byGranter {events : List AuditEvent} {granter : Id} {times : List UInt64} :
    (⟨granter, times⟩ : (_ : Id) × List UInt64) ∈ (events.foldl pushReshare ∅).entries ↔
      times = reshareTimes events granter ∧ times ≠ [] := by
  rw [← AList.mem_lookup_iff, Option.mem_def, lookup_foldl_pushReshare]
  by_cases hnil : reshareTimes events granter = []
  · rw [pushAll, if_pos hnil, hnil]
    constructor
    · intro h
      exact absurd h (by simp)
    · rintro ⟨h, hne⟩
      exact absurd h hne
  · rw [pushAll, if_neg hnil, Option.some_inj]
    show reshareTimes events granter = times ↔ _
    constructor
    · rintro rfl
      exact ⟨rfl, hnil⟩
    · rintro ⟨h, -⟩
      exact h.symm

lemma mapM_eq_some {β γ : Type} {f : β → Option γ} {g : β → γ} {l : List β}
    (h : ∀ b ∈ l, f b = some (g b)) : l.mapM f = some (l.map g) := by
  induction l with
  | nil => rfl
  | cons b l ih =>
    rw [List.mapM_cons, h b List.mem_cons_self, ih fun b hb => h b (List.mem_cons_of_mem _ hb)]
    rfl

lemma mapM_eq_none {β γ : Type} {f : β → Option γ} {l : List β} {b : β} (hb : b ∈ l)
    (h : f b = none) : l.mapM f = none := by
  induction l with
  | nil => exact absurd hb (by simp)
  | cons a l ih =>
    rw [List.mapM_cons]
    rcases List.mem_cons.mp hb with rfl | hb
    · rw [h]
      rfl
    · rw [ih hb]
      cases f a <;> rfl

/-- The granters whose re-shares peak above the threshold, each with the peak. -/
def fanoutHits (events : List AuditEvent) (t : Thresholds) : List (Id × ℕ) :=
  (sortBy (fun hit => hit.1.sortKey) ((events.foldl pushReshare ∅).entries.filterMap
    fun e => ((fanoutHit t e.1 e.2).getD none)))

lemma highReshareFanout_eq {events : List AuditEvent} {t : Thresholds}
    (hfits : ∀ granter, SweepFits (reshareTimes events granter) t.reshareWindowMs) :
    highReshareFanout events t = some ((fanoutHits events t).map fun hit =>
      .highReshareFanout hit.1 hit.2 t.reshareWindowMs) := by
  have hits : (events.foldl pushReshare ∅).entries.mapM (fun e => fanoutHit t e.1 e.2) =
      some ((events.foldl pushReshare ∅).entries.map
        fun e => (fanoutHit t e.1 e.2).getD none) := by
    refine mapM_eq_some fun e he => ?_
    obtain ⟨granter, times⟩ := e
    obtain ⟨rfl, -⟩ := mem_byGranter.mp he
    rw [fanoutHit, sweep_eq_peak (hfits granter)]
    rfl
  rw [highReshareFanout, hits, fanoutHits]
  show some _ = some _
  rw [List.filterMap_map]
  rfl

lemma highReshareFanout_eq_none {events : List AuditEvent} {t : Thresholds} {granter : Id}
    (hfits : ¬SweepFits (reshareTimes events granter) t.reshareWindowMs) :
    highReshareFanout events t = none := by
  have hne : reshareTimes events granter ≠ [] := by
    intro hnil
    rw [hnil] at hfits
    exact hfits (Or.inl (by simp))
  have hits : (events.foldl pushReshare ∅).entries.mapM (fun e => fanoutHit t e.1 e.2) = none := by
    refine mapM_eq_none (mem_byGranter.mpr ⟨rfl, hne⟩) ?_
    show fanoutHit t granter (reshareTimes events granter) = none
    rw [fanoutHit, sweep_eq_none hfits]
    rfl
  rw [highReshareFanout, hits]
  rfl

lemma mem_fanoutHits {events : List AuditEvent} {t : Thresholds}
    (hfits : ∀ granter, SweepFits (reshareTimes events granter) t.reshareWindowMs)
    {granter : Id} {count : ℕ} :
    (granter, count) ∈ fanoutHits events t ↔
      count = peak ((reshareTimes events granter).map UInt64.toNat) t.reshareWindowMs.toNat ∧
        t.reshareFanoutPerWindow.toNat < count := by
  have hhit : ∀ g, fanoutHit t g (reshareTimes events g) =
      some (if t.reshareFanoutPerWindow.toNat < peak ((reshareTimes events g).map UInt64.toNat)
        t.reshareWindowMs.toNat then some (g, peak ((reshareTimes events g).map UInt64.toNat)
          t.reshareWindowMs.toNat) else none) := by
    intro g
    rw [fanoutHit, sweep_eq_peak (hfits g)]
    rfl
  rw [fanoutHits, mem_sortBy, List.mem_filterMap]
  constructor
  · rintro ⟨⟨g, times⟩, he, hsome⟩
    obtain ⟨rfl, -⟩ := mem_byGranter.mp he
    rw [hhit, Option.getD_some] at hsome
    split at hsome
    · obtain ⟨rfl, rfl⟩ := Prod.mk.inj (Option.some.inj hsome)
      exact ⟨rfl, ‹_›⟩
    · exact absurd hsome (by simp)
  · rintro ⟨rfl, hlt⟩
    have hne : reshareTimes events granter ≠ [] := by
      intro hnil
      rw [hnil, List.map_nil, peak_nil] at hlt
      exact absurd hlt (Nat.not_lt_zero _)
    refine ⟨⟨granter, reshareTimes events granter⟩, mem_byGranter.mpr ⟨rfl, hne⟩, ?_⟩
    rw [hhit, Option.getD_some, if_pos hlt]

lemma fanoutHits_ascending (events : List AuditEvent) (t : Thresholds) :
    Ascending (fun hit : Id × ℕ => hit.1.sortKey) (fanoutHits events t) := by
  have hkeys : ((events.foldl pushReshare ∅).entries.filterMap
      fun e => (fanoutHit t e.1 e.2).getD none).Pairwise fun a b => a.1 ≠ b.1 := by
    have hnodup : (events.foldl pushReshare ∅).entries.Pairwise fun a b => a.1 ≠ b.1 :=
      List.pairwise_map.mp (events.foldl pushReshare ∅).nodupKeys
    have hkey : ∀ (e : (_ : Id) × List UInt64) (hit : Id × ℕ),
        (fanoutHit t e.1 e.2).getD none = some hit → hit.1 = e.1 := by
      intro e hit h
      unfold fanoutHit at h
      cases hsweep : sweep e.2 t.reshareWindowMs with
      | none =>
        rw [hsweep] at h
        exact absurd h (by simp)
      | some n =>
        rw [hsweep] at h
        change (if t.reshareFanoutPerWindow.toNat < n then some (e.1, n) else none) = some hit at h
        split at h
        · exact (congrArg Prod.fst (Option.some.inj h)).symm
        · exact absurd h (by simp)
    rw [List.pairwise_filterMap]
    refine hnodup.imp ?_
    intro e e' hne hit hhit hit' hhit'
    rw [hkey e hit hhit, hkey e' hit' hhit']
    exact hne
  have hperm : (fanoutHits events t).Pairwise fun a b => a.1 ≠ b.1 :=
    (List.Perm.pairwise_iff (fun h => Ne.symm h) (List.mergeSort_perm _ _)).mpr hkeys
  refine List.Pairwise.imp₂ ?_ (sortBy_pairwise _ _) hperm
  intro a b hle hne
  exact lt_of_le_of_ne hle fun heq => hne (Id.sortKey_inj heq)

variable {events : List AuditEvent} {t : Thresholds}

/-! ## The analysis -/

/-- No window that the analysis forms lies beyond the 64 bits. -/
def Fits (events : List AuditEvent) (t : Thresholds) : Prop :=
  SweepFits (deniedTimes events) t.authWindowMs ∧
    ∀ granter, SweepFits (reshareTimes events granter) t.reshareWindowMs

lemma authFailureSpike_eq (hfits : SweepFits (deniedTimes events) t.authWindowMs) :
    authFailureSpike events t =
      some (if t.authFailuresPerWindow.toNat <
          peak ((deniedTimes events).map UInt64.toNat) t.authWindowMs.toNat then
        [.authFailureSpike (peak ((deniedTimes events).map UInt64.toNat) t.authWindowMs.toNat)
          t.authWindowMs]
      else []) := by
  rw [authFailureSpike, sweep_eq_peak hfits]
  show (if _ then some _ else some _) = _
  split <;> rfl

lemma exists_analyze_iff : (∃ alerts, analyze events t = some alerts) ↔ Fits events t := by
  constructor
  · intro h
    obtain ⟨alerts, h⟩ := h
    obtain ⟨spikes, fanouts, hspikes, hfanouts, -⟩ := analyze_eq_some h
    constructor
    · by_contra hfits
      rw [authFailureSpike, sweep_eq_none hfits] at hspikes
      exact absurd hspikes (by simp)
    · intro granter
      by_contra hfits
      rw [highReshareFanout_eq_none hfits] at hfanouts
      exact absurd hfanouts (by simp)
  · intro hfits
    unfold analyze
    rw [authFailureSpike_eq hfits.1, highReshareFanout_eq hfits.2]
    exact ⟨_, rfl⟩

/-! ## The two sweeping rules -/

/-- The spike that the events hold: the fullest window, if it exceeds the threshold. -/
noncomputable def trueSpike (events : List AuditEvent) (t : Thresholds) : List (ℕ × UInt64) :=
  if t.authFailuresPerWindow.toNat <
      peak ((deniedTimes events).map UInt64.toNat) t.authWindowMs.toNat then
    [(peak ((deniedTimes events).map UInt64.toNat) t.authWindowMs.toNat, t.authWindowMs)]
  else []

lemma spike_of_analyze {alerts : List Alert} (h : analyze events t = some alerts) :
    alerts.filterMap Alert.spike = trueSpike events t := by
  have hfits := exists_analyze_iff.mp ⟨alerts, h⟩
  obtain ⟨spikes, fanouts, hspikes, -, hkind, -, -⟩ := analyze_eq_some h
  rw [authFailureSpike_eq hfits.1] at hspikes
  obtain rfl := Option.some.inj hspikes
  rw [hkind, trueSpike]
  split <;> rfl

lemma fanout_of_analyze {alerts : List Alert} (h : analyze events t = some alerts) :
    alerts.filterMap Alert.fanout =
      (fanoutHits events t).map fun hit => (hit.1, hit.2, t.reshareWindowMs) := by
  have hfits := exists_analyze_iff.mp ⟨alerts, h⟩
  obtain ⟨spikes, fanouts, -, hfanouts, -, hkind, -⟩ := analyze_eq_some h
  rw [highReshareFanout_eq hfits.2] at hfanouts
  obtain rfl := Option.some.inj hfanouts
  rw [hkind, List.filterMap_map]
  exact congrFun List.filterMap_eq_map _

lemma trueSpike_perm {events' : List AuditEvent} (h : events'.Perm events) :
    trueSpike events' t = trueSpike events t := by
  have hpeak : peak ((deniedTimes events').map UInt64.toNat) t.authWindowMs.toNat =
      peak ((deniedTimes events).map UInt64.toNat) t.authWindowMs.toNat :=
    peak_perm ((h.filterMap _).map _)
  rw [trueSpike, trueSpike, hpeak]

lemma Fits.perm {events' : List AuditEvent} (h : events'.Perm events) (hfits : Fits events t) :
    Fits events' t := by
  have hdenied : ∀ s, s ∈ deniedTimes events' ↔ s ∈ deniedTimes events := fun s =>
    (h.filterMap _).mem_iff
  have hreshare : ∀ granter s, s ∈ reshareTimes events' granter ↔ s ∈ reshareTimes events granter :=
    fun granter s => (h.filterMap _).mem_iff
  simpa only [Fits, SweepFits, hdenied, hreshare] using hfits

lemma fanoutHits_perm {events' : List AuditEvent} (h : events'.Perm events)
    (hfits : Fits events t) : fanoutHits events' t = fanoutHits events t := by
  refine List.Perm.eq_of_pairwise ?_ (fanoutHits_ascending events' t) (fanoutHits_ascending events t)
    ?_
  · intro a b _ _ hab hba
    exact absurd hab (not_lt_of_gt hba)
  · have hnodup : ∀ events, (fanoutHits events t).Nodup := fun events =>
      (fanoutHits_ascending events t).imp fun hlt heq => hlt.ne (by rw [heq])
    refine (List.perm_ext_iff_of_nodup (hnodup _) (hnodup _)).mpr fun hit => ?_
    obtain ⟨granter, count⟩ := hit
    rw [mem_fanoutHits (hfits.perm h).2, mem_fanoutHits hfits.2,
      peak_perm ((h.filterMap (AuditEvent.resharedAt granter)).map UInt64.toNat)]

end Detect

open Detect in
/-- The two rules find the true peaks, whatever the order of the events: the spike alert carries the
largest number of denials in a window, and the fan-out alerts name, in ascending order, exactly the
granters with too many re-shares in a window. -/
theorem analyze_peaks (events : List AuditEvent) (t : Thresholds)
    (hdenied : ∀ s ∈ deniedTimes events, s.toNat + t.authWindowMs.toNat < 2 ^ 64)
    (hreshare : ∀ granter, ∀ s ∈ reshareTimes events granter,
      s.toNat + t.reshareWindowMs.toNat < 2 ^ 64) :
    ∃ alerts, analyze events t = some alerts ∧
      alerts.filterMap Alert.spike = trueSpike events t ∧
      Ascending (fun hit => hit.1.sortKey) (alerts.filterMap Alert.fanout) ∧
      (∀ granter count window, (granter, count, window) ∈ alerts.filterMap Alert.fanout ↔
        window = t.reshareWindowMs ∧
          count = peak ((reshareTimes events granter).map UInt64.toNat) t.reshareWindowMs.toNat ∧
          t.reshareFanoutPerWindow.toNat < count) ∧
      ∀ events', events'.Perm events → ∃ alerts', analyze events' t = some alerts' ∧
        alerts'.filterMap Alert.spike = alerts.filterMap Alert.spike ∧
        alerts'.filterMap Alert.fanout = alerts.filterMap Alert.fanout := by
  have hfits : Fits events t := ⟨Or.inl hdenied, fun granter => Or.inl (hreshare granter)⟩
  obtain ⟨alerts, halerts⟩ := exists_analyze_iff.mpr hfits
  refine ⟨alerts, halerts, spike_of_analyze halerts, ?_, ?_, ?_⟩
  · rw [fanout_of_analyze halerts]
    exact List.pairwise_map.mpr (fanoutHits_ascending events t)
  · intro granter count window
    rw [fanout_of_analyze halerts, List.mem_map, ← mem_fanoutHits hfits.2]
    constructor
    · rintro ⟨hit, hhit, heq⟩
      simp only [Prod.mk.injEq] at heq
      obtain ⟨rfl, rfl, rfl⟩ := heq
      exact ⟨rfl, hhit⟩
    · rintro ⟨rfl, hhit⟩
      exact ⟨_, hhit, rfl⟩
  · intro events' hperm
    obtain ⟨alerts', halerts'⟩ := exists_analyze_iff.mpr (hfits.perm hperm)
    refine ⟨alerts', halerts', ?_, ?_⟩
    · rw [spike_of_analyze halerts', spike_of_analyze halerts, trueSpike_perm hperm]
    · rw [fanout_of_analyze halerts', fanout_of_analyze halerts, fanoutHits_perm hperm hfits]

namespace Detect

/-- Two denials and a re-share within a second, out of order. -/
def burst : List AuditEvent :=
  [.authDenied ⟨List.Vector.replicate 16 1⟩ 5000,
    .grant ⟨List.Vector.replicate 16 2⟩ ⟨List.Vector.replicate 16 1⟩ .reshare
      ⟨List.Vector.replicate 16 3⟩ 4500,
    .authDenied ⟨List.Vector.replicate 16 1⟩ 4200]

end Detect

open Detect in
theorem analyze_peaks_burst :
    ∃ alerts, analyze burst .default = some alerts ∧
      alerts.filterMap Alert.spike = trueSpike burst .default := by
  have hreshare : ∀ granter, ∀ s ∈ reshareTimes burst granter,
      s.toNat + Thresholds.default.reshareWindowMs.toNat < 2 ^ 64 := by
    intro granter s hs
    obtain ⟨e, he, hat⟩ := List.mem_filterMap.mp hs
    unfold AuditEvent.resharedAt at hat
    split at hat
    · split at hat
      · obtain rfl := Option.some.inj hat
        simp only [burst, List.mem_cons, AuditEvent.grant.injEq, reduceCtorEq, List.not_mem_nil,
          or_false, false_or] at he
        obtain ⟨-, -, -, -, rfl⟩ := he
        decide
      · exact absurd hat (by simp)
    · exact absurd hat (by simp)
  have hdenied : ∀ s ∈ deniedTimes burst,
      s.toNat + Thresholds.default.authWindowMs.toNat < 2 ^ 64 := by
    intro s hs
    have htimes : deniedTimes burst = [5000, 4200] := rfl
    rw [htimes] at hs
    obtain rfl | rfl : s = 5000 ∨ s = 4200 := by simpa using hs
    · decide
    · decide
  obtain ⟨alerts, halerts, hspike, -⟩ := analyze_peaks burst .default hdenied hreshare
  exact ⟨alerts, halerts, hspike⟩

end MaxSecu
