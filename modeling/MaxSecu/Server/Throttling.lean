import Mathlib.Data.List.TakeWhile
import MaxSecu.Framework.Machine
import MaxSecu.Server.Auth

/-!
# What the rate limiter makes of its history

A run of calls leaves a history: the calls with their answers.  From it one reads when challenges were
issued to a username (`issued`) and how its proofs went (`recorded`), and what the limiter should say
next.  The limiter itself keeps less: a queue that is pruned when a challenge is asked for, and a
counter with the end of the wait.  `Tracks` relates the two, and every call keeps it as long as no
addition overflows.

* `admitChallenge_of_tracks`, `admitChallenge_later`: the cap on challenges and the retry time.
* `admitProof_of_tracks`: the wait after failures.
* `account_run_filter`: the calls for other usernames do not matter.
-/

namespace MaxSecu

namespace LimiterCall

def username : LimiterCall → String
  | admitChallenge username _ => username
  | admitProof username _ => username
  | recordProof username _ _ => username

def nowMs : LimiterCall → UInt64
  | admitChallenge _ nowMs => nowMs
  | admitProof _ nowMs => nowMs
  | recordProof _ nowMs _ => nowMs

/-- A call and its answer, or none if it panicked. -/
abbrev Answered : Type := (c : LimiterCall) × Option c.Output

end LimiterCall

open LimiterCall

namespace RateLimiter

/-- The limiter as a machine that keeps its history. -/
def machine (cfg : RateLimitConfig) : Machine RateLimiter LimiterCall Answered where
  init := new cfg
  step l c := ((c.apply l).2, [⟨c, (c.apply l).1⟩])

/-! ## Reading the history -/

/-- When a challenge was issued to the username, if one was. -/
def issuedAt (username : String) : Answered → Option UInt64
  | ⟨.admitChallenge claimed nowMs, some (.ok ())⟩ =>
    if claimed = username then some nowMs else none
  | _ => none

def issued (username : String) (history : List Answered) : List UInt64 :=
  history.filterMap (issuedAt username)

/-- How a proof of the username went, and when. -/
def recordedAt (username : String) : Answered → Option (UInt64 × Bool)
  | ⟨.recordProof claimed nowMs success, _⟩ =>
    if claimed = username then some (nowMs, success) else none
  | _ => none

def recorded (username : String) (history : List Answered) : List (UInt64 × Bool) :=
  history.filterMap (recordedAt username)

/-- The failures since the last success. -/
def trailingFailures (proofs : List (UInt64 × Bool)) : ℕ :=
  (proofs.reverse.takeWhile fun p => !p.2).length

/-- How many challenges were issued to the username in `(now - window, now]`. -/
def issuedInWindow (cfg : RateLimitConfig) (username : String) (history : List Answered)
    (now : ℕ) : ℕ :=
  (issued username history).countP fun s => now < s.toNat + cfg.challengeWindowMs.toNat ∧ s.toNat ≤ now

/-- The wait after the `n`-th failure in a row. -/
def backoff (cfg : RateLimitConfig) (n : ℕ) : ℕ :=
  min (cfg.backoffBaseMs.toNat * 2 ^ (n - 1)) cfg.backoffCapMs.toNat

/-- The username's last proof failed and its wait is not over. -/
def Waiting (cfg : RateLimitConfig) (username : String) (history : List Answered) (now : ℕ) : Prop :=
  ∃ t, (recorded username history).getLast? = some (t, false) ∧
    now < t.toNat + backoff cfg (trailingFailures (recorded username history))

/-- The additions of a call fit in 64 bits: the end of the window of a challenge, and the end of the
wait after a failure. -/
def Room (cfg : RateLimitConfig) (history : List Answered) : LimiterCall → Prop
  | .admitChallenge _ nowMs => nowMs.toNat + cfg.challengeWindowMs.toNat < 2 ^ 64
  | .admitProof _ _ => True
  | .recordProof username nowMs success => success = false →
    nowMs.toNat + backoff cfg (trailingFailures (recorded username history) + 1) < 2 ^ 64

/-! ## Arithmetic -/

lemma toNat_min (a b : UInt64) : (min a b).toNat = min a.toNat b.toNat := by
  have hmin : min a b = if a ≤ b then a else b := rfl
  by_cases hle : a ≤ b
  · rw [hmin, if_pos hle, min_eq_left (UInt64.le_iff_toNat_le.mp hle)]
  · have hlt : b.toNat < a.toNat := Nat.lt_of_not_le fun h => hle (UInt64.le_iff_toNat_le.mpr h)
    rw [hmin, if_neg hle, min_eq_right hlt.le]

lemma toNat_shiftedOne {n : UInt32} (h : n < 64) : (shiftedOne n).toNat = 2 ^ n.toNat := by
  have hn : n.toNat < 64 := UInt32.lt_iff_toNat_lt.mp h
  rw [shiftedOne, if_pos h, UInt64.toNat_shiftLeft]
  have hmod : n.toUInt64.toNat % 64 = n.toNat := by
    rw [UInt32.toNat_toUInt64]
    exact Nat.mod_eq_of_lt hn
  rw [hmod, UInt64.toNat_one, Nat.one_shiftLeft]
  exact Nat.mod_eq_of_lt (Nat.pow_lt_pow_right (by norm_num) hn)

lemma toNat_backoffStep (cfg : RateLimitConfig) {failCount : UInt32} {n : ℕ} (hpos : 1 ≤ n)
    (hcount : failCount.toNat = min n (2 ^ 32 - 1)) :
    (backoffStep cfg failCount).toNat = backoff cfg n := by
  have hcap : cfg.backoffCapMs.toNat < 2 ^ 64 := cfg.backoffCapMs.toNat_lt
  have hpred : (failCount - 1).toNat = failCount.toNat - 1 := by
    refine UInt32.toNat_sub_of_le _ _ (UInt32.le_iff_toNat_le.mpr ?_)
    rw [UInt32.toNat_one, hcount]
    omega
  have hlt : min (cfg.backoffBaseMs.toNat * (shiftedOne (failCount - 1)).toNat) (2 ^ 64 - 1) <
      2 ^ 64 := lt_of_le_of_lt (min_le_right _ _) (by norm_num)
  have hstep : (backoffStep cfg failCount).toNat =
      min (min (cfg.backoffBaseMs.toNat * (shiftedOne (failCount - 1)).toNat) (2 ^ 64 - 1))
        cfg.backoffCapMs.toNat := by
    rw [backoffStep, toNat_min, UInt64.toNat_ofNat_of_lt' hlt]
  rw [hstep, backoff]
  by_cases hsmall : n - 1 < 64
  · have hshift : failCount - 1 < 64 := by
      refine UInt32.lt_iff_toNat_lt.mpr ?_
      rw [hpred, hcount]
      show min n (2 ^ 32 - 1) - 1 < 64
      omega
    have hexp : (failCount - 1).toNat = n - 1 := by
      rw [hpred, hcount]
      omega
    rw [toNat_shiftedOne hshift, hexp]
    omega
  · have hshift : ¬failCount - 1 < 64 := by
      intro h
      have h := UInt32.lt_iff_toNat_lt.mp h
      rw [hpred, hcount] at h
      change min n (2 ^ 32 - 1) - 1 < 64 at h
      omega
    have hmax : (shiftedOne (failCount - 1)).toNat = 2 ^ 64 - 1 := by
      rw [shiftedOne, if_neg hshift]
      exact UInt64.toNat_ofNat_of_lt' (by norm_num)
    rw [hmax]
    rcases Nat.eq_zero_or_pos cfg.backoffBaseMs.toNat with hzero | hbase
    · have hnone : ∀ a b c d : ℕ, min (min (0 * a) b) c = min (0 * d) c := by
        intro a b c d
        simp
      rw [hzero]
      exact hnone _ _ _ _
    · have hpow : 2 ^ 64 ≤ 2 ^ (n - 1) := Nat.pow_le_pow_right (by norm_num) (by omega)
      have hcapped : cfg.backoffCapMs.toNat ≤ 2 ^ 64 - 1 := Nat.le_sub_one_of_lt hcap
      have hright : cfg.backoffCapMs.toNat ≤ cfg.backoffBaseMs.toNat * 2 ^ (n - 1) :=
        (hcap.le.trans hpow).trans (Nat.le_mul_of_pos_left _ hbase)
      rw [min_eq_right (Nat.le_mul_of_pos_left _ hbase), min_eq_right hcapped, min_eq_right hright]

lemma secsUntil_le_iff {now until' : UInt64} (hlt : now < until') (k : ℕ) :
    (secsUntil now until').toNat ≤ k ↔ until'.toNat ≤ now.toNat + 1000 * k := by
  have hnat : now.toNat < until'.toNat := UInt64.lt_iff_toNat_lt.mp hlt
  have hnot : ¬until' ≤ now := fun h => absurd (UInt64.le_iff_toNat_le.mp h) (by omega)
  have hsub : (until' - now).toNat = until'.toNat - now.toNat :=
    UInt64.toNat_sub_of_le _ _ (UInt64.le_iff_toNat_le.mpr hnat.le)
  have hbound := until'.toNat_lt
  have hdiv : ((until' - now) / 1000).toNat = (until'.toNat - now.toNat) / 1000 := by
    rw [UInt64.toNat_div, hsub]
    rfl
  have hmod : (until' - now) % 1000 = 0 ↔ (until'.toNat - now.toNat) % 1000 = 0 := by
    rw [← UInt64.toNat_inj, UInt64.toNat_mod, hsub]
    rfl
  rw [secsUntil, if_neg hnot]
  by_cases hexact : (until' - now) % 1000 = 0
  · rw [if_pos hexact, UInt64.add_zero, hdiv]
    have := hmod.mp hexact
    omega
  · rw [if_neg hexact, UInt64.toNat_add, hdiv, UInt64.toNat_one, Nat.mod_eq_of_lt (by omega)]
    have : (until'.toNat - now.toNat) % 1000 ≠ 0 := fun h => hexact (hmod.mpr h)
    omega

/-! ## One account -/

lemma dropAged_eq {window now : UInt64} {queue : List UInt64}
    (hroom : ∀ s ∈ queue, s.toNat + window.toNat < 2 ^ 64) :
    dropAged window now queue =
      some (queue.dropWhile fun s => s.toNat + window.toNat ≤ now.toNat) := by
  induction queue with
  | nil => rfl
  | cons front rest ih =>
    have hfront := hroom front List.mem_cons_self
    have hedge : checkedAdd front window = some (front + window) := by
      rw [checkedAdd, if_pos hfront]
    have hnat : (front + window).toNat = front.toNat + window.toNat := checkedAdd_eq_some.mp hedge
    show ((checkedAdd front window).bind fun agesAt => if agesAt ≤ now then
      dropAged window now rest else some (front :: rest)) = _
    rw [hedge, Option.bind_some]
    by_cases haged : front.toNat + window.toNat ≤ now.toNat
    · rw [if_pos (UInt64.le_iff_toNat_le.mpr (hnat ▸ haged)),
        ih fun s hs => hroom s (List.mem_cons_of_mem _ hs), List.dropWhile_cons_of_pos]
      exact decide_eq_true haged
    · rw [if_neg fun h => haged (hnat ▸ UInt64.le_iff_toNat_le.mp h), List.dropWhile_cons_of_neg]
      simpa using haged

/-- What is known of an account after the challenges `issues` and the proofs `proofs`: the queue holds
the last issues, and the others have left the window. -/
structure Tracks (cfg : RateLimitConfig) (issues : List UInt64)
    (proofs : List (UInt64 × Bool)) (clock : ℕ) (a : Account) : Prop where
  queue : ∃ gone, issues = gone ++ a.challenges ∧
    ∀ s ∈ gone, s.toNat + cfg.challengeWindowMs.toNat ≤ clock
  ascending : issues.Pairwise fun s t => s.toNat ≤ t.toNat
  past : ∀ s ∈ issues, s.toNat ≤ clock
  short : a.challenges.length ≤ cfg.challengeMaxPerWindow.toNat
  room : ∀ s ∈ issues, s.toNat + cfg.challengeWindowMs.toNat < 2 ^ 64
  count : a.failCount.toNat = min (trailingFailures proofs) (2 ^ 32 - 1)
  blocked : ∀ now : ℕ, now < a.blockedUntilMs.toNat ↔ ∃ t, proofs.getLast? = some (t, false) ∧
    now < t.toNat + backoff cfg (trailingFailures proofs)

section Account

variable {cfg : RateLimitConfig} {issues : List UInt64} {proofs : List (UInt64 × Bool)}
  {clock : ℕ} {a : Account} {now : UInt64}

lemma Tracks.later (h : Tracks cfg issues proofs clock a) {clock' : ℕ}
    (hle : clock ≤ clock') : Tracks cfg issues proofs clock' a := by
  obtain ⟨gone, hsplit, hgone⟩ := h.queue
  exact { h with
    queue := ⟨gone, hsplit, fun s hs => (hgone s hs).trans hle⟩
    past := fun s hs => (h.past s hs).trans hle }

lemma Tracks.pruned (h : Tracks cfg issues proofs now.toNat a) :
    ∃ queue, dropAged cfg.challengeWindowMs now a.challenges = some queue ∧
      Tracks cfg issues proofs now.toNat { a with challenges := queue } ∧
      (∀ s ∈ queue, now.toNat < s.toNat + cfg.challengeWindowMs.toNat) ∧
      queue.length = issues.countP fun s =>
        now.toNat < s.toNat + cfg.challengeWindowMs.toNat ∧ s.toNat ≤ now.toNat := by
  obtain ⟨gone, hsplit, hgone⟩ := h.queue
  have hroom : ∀ s ∈ a.challenges, s.toNat + cfg.challengeWindowMs.toNat < 2 ^ 64 := fun s hs =>
    h.room s (by rw [hsplit]; exact List.mem_append_right _ hs)
  let aged : UInt64 → Bool := fun s => s.toNat + cfg.challengeWindowMs.toNat ≤ now.toNat
  have hascending : a.challenges.Pairwise fun s t => s.toNat ≤ t.toNat := by
    have := h.ascending
    rw [hsplit] at this
    exact (List.pairwise_append.mp this).2.1
  -- In ascending order nothing behind the front that stays is aged.
  have hstays : ∀ s ∈ a.challenges.dropWhile aged,
      now.toNat < s.toNat + cfg.challengeWindowMs.toNat := by
    generalize a.challenges = queue at hascending
    induction queue with
    | nil => simp
    | cons front rest ih =>
      obtain ⟨hfront, hrest⟩ := List.pairwise_cons.mp hascending
      intro s hs
      by_cases haged : aged front = true
      · rw [List.dropWhile_cons_of_pos haged] at hs
        exact ih hrest s hs
      · rw [List.dropWhile_cons_of_neg haged] at hs
        have hout : now.toNat < front.toNat + cfg.challengeWindowMs.toNat :=
          Nat.lt_of_not_le fun hle => haged (decide_eq_true hle)
        rcases List.mem_cons.mp hs with rfl | hs
        · exact hout
        · have := hfront s hs
          omega
  have hdropped : ∀ s ∈ a.challenges.takeWhile aged,
      s.toNat + cfg.challengeWindowMs.toNat ≤ now.toNat := by
    intro s hs
    have haged : aged s = true := List.mem_takeWhile_imp hs
    exact of_decide_eq_true haged
  have hissues : issues = (gone ++ a.challenges.takeWhile aged) ++ a.challenges.dropWhile aged := by
    rw [List.append_assoc, List.takeWhile_append_dropWhile, hsplit]
  have hleft : ∀ s ∈ gone ++ a.challenges.takeWhile aged,
      s.toNat + cfg.challengeWindowMs.toNat ≤ now.toNat := by
    intro s hs
    rcases List.mem_append.mp hs with hs | hs
    · exact hgone s hs
    · exact hdropped s hs
  refine ⟨a.challenges.dropWhile aged, dropAged_eq hroom, ?_, hstays, ?_⟩
  · exact { h with
      queue := ⟨_, hissues, hleft⟩
      short := (List.dropWhile_sublist _).length_le.trans h.short }
  · have hnone : ((gone ++ a.challenges.takeWhile aged).countP fun s =>
        now.toNat < s.toNat + cfg.challengeWindowMs.toNat ∧ s.toNat ≤ now.toNat) = 0 := by
      refine List.countP_eq_zero.mpr fun s hs => ?_
      have := hleft s hs
      simp only [decide_eq_true_eq]
      omega
    have hall : ((a.challenges.dropWhile aged).countP fun s =>
        now.toNat < s.toNat + cfg.challengeWindowMs.toNat ∧ s.toNat ≤ now.toNat) =
          (a.challenges.dropWhile aged).length := by
      refine List.countP_eq_length.mpr fun s hs => ?_
      have hpast := h.past s (by rw [hissues]; exact List.mem_append_right _ hs)
      exact decide_eq_true ⟨hstays s hs, hpast⟩
    conv_rhs => rw [hissues]
    rw [List.countP_append, hnone, hall, Nat.zero_add]

lemma Tracks.admitIssuance (h : Tracks cfg issues proofs now.toNat a)
    (hmax : 1 ≤ cfg.challengeMaxPerWindow.toNat) :
    ∃ queue : List UInt64,
      Tracks cfg issues proofs now.toNat { a with challenges := queue } ∧
      (∀ s ∈ queue, now.toNat < s.toNat + cfg.challengeWindowMs.toNat) ∧
      queue.length = (issues.countP fun s =>
        now.toNat < s.toNat + cfg.challengeWindowMs.toNat ∧ s.toNat ≤ now.toNat) ∧
      ((queue.length < cfg.challengeMaxPerWindow.toNat ∧
          RateLimiter.admitIssuance cfg a now =
            some (.ok (), { a with challenges := queue ++ [now] })) ∨
        (queue.length = cfg.challengeMaxPerWindow.toNat ∧
          ∃ oldest rest, queue = oldest :: rest ∧ RateLimiter.admitIssuance cfg a now =
            some (.error (secsUntil now (oldest + cfg.challengeWindowMs)),
              { a with challenges := queue }))) := by
  obtain ⟨queue, hqueue, htracks, hstays, hlength⟩ := h.pruned
  have hshort : queue.length ≤ cfg.challengeMaxPerWindow.toNat := htracks.short
  have hmaxLt := cfg.challengeMaxPerWindow.toNat_lt
  have hcast : (UInt32.ofNat queue.length).toNat = queue.length :=
    UInt32.toNat_ofNat_of_lt' (by show queue.length < 2 ^ 32; omega)
  have hcompare : cfg.challengeMaxPerWindow ≤ UInt32.ofNat queue.length ↔
      cfg.challengeMaxPerWindow.toNat ≤ queue.length := by
    rw [UInt32.le_iff_toNat_le, hcast]
  refine ⟨queue, htracks, hstays, hlength, ?_⟩
  by_cases hfull : cfg.challengeMaxPerWindow.toNat ≤ queue.length
  · right
    refine ⟨by omega, ?_⟩
    cases hcons : queue with
    | nil =>
      rw [hcons, List.length_nil] at hfull
      omega
    | cons oldest rest =>
      refine ⟨oldest, rest, rfl, ?_⟩
      have hroom : oldest.toNat + cfg.challengeWindowMs.toNat < 2 ^ 64 := by
        obtain ⟨gone, hsplit, -⟩ := htracks.queue
        refine h.room oldest ?_
        rw [hsplit]
        refine List.mem_append_right _ ?_
        show oldest ∈ queue
        rw [hcons]
        exact List.mem_cons_self
      have hedge : checkedAdd oldest cfg.challengeWindowMs =
          some (oldest + cfg.challengeWindowMs) := by
        rw [checkedAdd, if_pos hroom]
      unfold RateLimiter.admitIssuance
      rw [hqueue, Option.bind_eq_bind, Option.bind_some, if_pos (hcompare.mpr hfull), hcons]
      simp only [List.head?_cons, Option.bind_eq_bind, Option.bind_some, hedge]
  · left
    refine ⟨by omega, ?_⟩
    unfold RateLimiter.admitIssuance
    rw [hqueue, Option.bind_eq_bind, Option.bind_some, if_neg fun h => hfull (hcompare.mp h)]

end Account

/-! ## The calls -/

lemma trailingFailures_concat_failure (proofs : List (UInt64 × Bool)) (t : UInt64) :
    trailingFailures (proofs ++ [(t, false)]) = trailingFailures proofs + 1 := by
  rw [trailingFailures, List.reverse_append]
  rfl

lemma trailingFailures_concat_success (proofs : List (UInt64 × Bool)) (t : UInt64) :
    trailingFailures (proofs ++ [(t, true)]) = 0 := by
  rw [trailingFailures, List.reverse_append]
  rfl

/-- The account of one username after a run. -/
abbrev Follows (cfg : RateLimitConfig) (history : List Answered) (clock : ℕ) (l : RateLimiter)
    (username : String) : Prop :=
  Tracks cfg (issued username history) (recorded username history) clock (l.account username)

/-- The limiter after a run: it has not panicked, and every account follows the history. -/
structure Sound (cfg : RateLimitConfig) (history : List Answered) (clock : ℕ) (l : RateLimiter) :
    Prop where
  config : l.cfg = cfg
  alive : l.poisoned = false
  follows : ∀ username, Follows cfg history clock l username

section Calls

variable {cfg : RateLimitConfig} {history : List Answered} {clock : ℕ} {l : RateLimiter}

lemma account_insert (l : RateLimiter) (username other : String) (a : Account) :
    ({ l with accounts := l.accounts.insert username a } : RateLimiter).account other =
      if other = username then a else l.account other := by
  unfold account
  by_cases hother : other = username
  · subst hother
    rw [if_pos rfl, AList.lookup_insert]
    rfl
  · rw [if_neg hother, AList.lookup_insert_ne hother]

lemma account_insert_self (l : RateLimiter) (username : String) (a : Account) :
    ({ l with accounts := l.accounts.insert username a } : RateLimiter).account username = a := by
  rw [account_insert, if_pos rfl]

lemma account_insert_ne (l : RateLimiter) {username other : String} (hne : username ≠ other)
    (a : Account) :
    ({ l with accounts := l.accounts.insert username a } : RateLimiter).account other =
      l.account other := by
  rw [account_insert, if_neg (Ne.symm hne)]

lemma admitChallenge_eq (l : RateLimiter) (username : String) (now : UInt64)
    (halive : l.poisoned = false) :
    l.admitChallenge username now =
      ((RateLimiter.admitIssuance l.cfg (l.account username) now).map Prod.fst,
        (RateLimiter.admitIssuance l.cfg (l.account username) now).elim { l with poisoned := true }
          fun r => { l with accounts := l.accounts.insert username r.2 }) := by
  unfold RateLimiter.admitChallenge
  rw [halive, if_neg (by simp)]
  cases RateLimiter.admitIssuance l.cfg (l.account username) now <;> rfl

lemma admitProof_eq (l : RateLimiter) (username : String) (now : UInt64)
    (halive : l.poisoned = false) :
    l.admitProof username now =
      (some (if now < (l.account username).blockedUntilMs then
        .error (secsUntil now (l.account username).blockedUntilMs) else .ok ()), l) := by
  unfold admitProof account
  rw [halive, if_neg (by simp)]
  cases hlookup : l.accounts.lookup username with
  | none =>
    have hzero : ¬now < (0 : UInt64) := fun h => absurd (UInt64.lt_iff_toNat_lt.mp h) (by simp)
    show (some (Except.ok ()), l) = (some (if now < 0 then _ else _), l)
    rw [if_neg hzero]
  | some a =>
    show (if now < a.blockedUntilMs then _ else _) = (some (if now < a.blockedUntilMs then _ else _), l)
    split <;> rfl

lemma Sound.admitChallenge (h : Sound cfg history clock l)
    (hmax : 1 ≤ cfg.challengeMaxPerWindow.toNat) (username : String) (now : UInt64)
    (hclock : clock ≤ now.toNat) :
    ∃ queue : List UInt64,
      Tracks cfg (issued username history) (recorded username history) now.toNat
        { l.account username with challenges := queue } ∧
      (∀ s ∈ queue, now.toNat < s.toNat + cfg.challengeWindowMs.toNat) ∧
      queue.length = issuedInWindow cfg username history now.toNat ∧
      ((queue.length < cfg.challengeMaxPerWindow.toNat ∧ l.admitChallenge username now =
          (some (.ok ()), { l with accounts := (l.accounts.insert username
            { l.account username with challenges := queue ++ [now] }) })) ∨
        (queue.length = cfg.challengeMaxPerWindow.toNat ∧
          ∃ oldest rest, queue = oldest :: rest ∧ l.admitChallenge username now =
            (some (.error (secsUntil now (oldest + cfg.challengeWindowMs))),
              { l with accounts := (l.accounts.insert username
                { l.account username with challenges := queue }) }))) := by
  obtain ⟨queue, htracks, hstays, hlength, hverdict⟩ :=
    ((h.follows username).later hclock).admitIssuance hmax
  refine ⟨queue, htracks, hstays, hlength, ?_⟩
  rw [admitChallenge_eq l username now h.alive, h.config]
  rcases hverdict with ⟨hlt, hverdict⟩ | ⟨hfull, oldest, rest, hcons, hverdict⟩
  · left
    rw [hverdict]
    exact ⟨hlt, rfl⟩
  · right
    rw [hverdict]
    exact ⟨hfull, oldest, rest, hcons, rfl⟩

lemma issued_concat (username : String) (history : List Answered) (e : Answered) :
    issued username (history ++ [e]) = issued username history ++ (issuedAt username e).toList := by
  unfold issued
  rw [List.filterMap_append]
  cases he : issuedAt username e <;> simp [he]

lemma recorded_concat (username : String) (history : List Answered) (e : Answered) :
    recorded username (history ++ [e]) =
      recorded username history ++ (recordedAt username e).toList := by
  unfold recorded
  rw [List.filterMap_append]
  cases he : recordedAt username e <;> simp [he]

lemma Sound.insert (h : Sound cfg history clock l) {clock' : ℕ} (hle : clock ≤ clock')
    {e : Answered} {username : String} {a : Account}
    (hissued : ∀ other, other ≠ username → issuedAt other e = none)
    (hrecorded : ∀ other, other ≠ username → recordedAt other e = none)
    (ha : Tracks cfg (issued username (history ++ [e])) (recorded username (history ++ [e])) clock'
      a) :
    Sound cfg (history ++ [e]) clock' { l with accounts := l.accounts.insert username a } := by
  refine ⟨h.config, h.alive, fun other => ?_⟩
  unfold Follows
  rw [account_insert]
  by_cases hother : other = username
  · subst hother
    rw [if_pos rfl]
    exact ha
  · have hsame := (h.follows other).later hle
    rw [if_neg hother, issued_concat, recorded_concat, hissued other hother,
      hrecorded other hother]
    simpa using hsame

/-- Every call with room keeps the limiter sound. -/
theorem Sound.step (h : Sound cfg history clock l) (hmax : 1 ≤ cfg.challengeMaxPerWindow.toNat)
    (c : LimiterCall) (hclock : clock ≤ c.nowMs.toNat) (hroom : Room cfg history c) :
    Sound cfg (history ++ [⟨c, (c.apply l).1⟩]) c.nowMs.toNat (c.apply l).2 := by
  cases c with
  | admitChallenge username now =>
    obtain ⟨queue, htracks, -, -, hverdict⟩ := h.admitChallenge hmax username now hclock
    show Sound cfg (history ++
      [⟨.admitChallenge username now, (l.admitChallenge username now).1⟩]) now.toNat
      (l.admitChallenge username now).2
    rcases hverdict with ⟨hlt, hcall⟩ | ⟨hfull, oldest, rest, -, hcall⟩
    · rw [hcall]
      refine h.insert hclock (fun other hother => if_neg (Ne.symm hother)) (fun _ _ => rfl) ?_
      have hissued : issued username (history ++ [⟨.admitChallenge username now, some (.ok ())⟩]) =
          issued username history ++ [now] := by
        rw [issued_concat, issuedAt, if_pos rfl]
        rfl
      have hrecorded : recorded username
          (history ++ [⟨.admitChallenge username now, some (.ok ())⟩]) =
            recorded username history := by
        rw [recorded_concat]
        exact List.append_nil _
      rw [hissued, hrecorded]
      obtain ⟨gone, hsplit, hgone⟩ := htracks.queue
      refine ⟨⟨gone, ?_, hgone⟩, ?_, ?_, ?_, ?_, htracks.count, htracks.blocked⟩
      · rw [hsplit, List.append_assoc]
      · refine List.pairwise_append.mpr ⟨htracks.ascending, List.pairwise_singleton _ _, ?_⟩
        intro s hs t ht
        rw [List.mem_singleton.mp ht]
        exact htracks.past s hs
      · intro s hs
        rcases List.mem_append.mp hs with hs | hs
        · exact htracks.past s hs
        · rw [List.mem_singleton.mp hs]
          exact le_rfl
      · rw [List.length_append]
        exact hlt
      · intro s hs
        rcases List.mem_append.mp hs with hs | hs
        · exact htracks.room s hs
        · rw [List.mem_singleton.mp hs]
          exact hroom
    · rw [hcall]
      refine h.insert hclock (fun _ _ => rfl) (fun _ _ => rfl) ?_
      rw [issued_concat, recorded_concat]
      simpa [issuedAt, recordedAt, LimiterCall.nowMs] using htracks
  | admitProof username now =>
    show Sound cfg (history ++
      [⟨.admitProof username now, (l.admitProof username now).1⟩]) now.toNat
      (l.admitProof username now).2
    rw [admitProof_eq l username now h.alive]
    refine ⟨h.config, h.alive, fun other => ?_⟩
    have hsame : Tracks cfg (issued other history) (recorded other history) now.toNat
        (l.account other) := (h.follows other).later hclock
    unfold Follows
    rw [issued_concat, recorded_concat]
    simpa [issuedAt, recordedAt] using hsame
  | recordProof username now success =>
    have htracks : Tracks cfg (issued username history) (recorded username history) now.toNat
        (l.account username) := (h.follows username).later hclock
    show Sound cfg (history ++
      [⟨.recordProof username now success, (l.recordProof username now success).1⟩]) now.toNat
      (l.recordProof username now success).2
    have hother : ∀ other, other ≠ username → ∀ r : Option Unit,
        recordedAt other ⟨.recordProof username now success, r⟩ = none := fun other hother r =>
      if_neg (Ne.symm hother)
    have hissued : ∀ r : Option Unit, issued username
        (history ++ [⟨.recordProof username now success, r⟩]) = issued username history := by
      intro r
      rw [issued_concat]
      exact List.append_nil _
    have hrecorded : ∀ r : Option Unit, recorded username
        (history ++ [⟨.recordProof username now success, r⟩]) =
          recorded username history ++ [(now, success)] := by
      intro r
      rw [recorded_concat, recordedAt, if_pos rfl]
      rfl
    have halive : ¬l.poisoned = true := by
      rw [h.alive]
      simp
    unfold RateLimiter.recordProof
    rw [if_neg halive]
    cases success with
    | true =>
      simp only [if_true]
      refine h.insert hclock (fun _ _ => rfl) (fun other hne => hother other hne _) ?_
      rw [hissued, hrecorded]
      refine { htracks with count := ?_, blocked := ?_ }
      · rw [trailingFailures_concat_success]
        rfl
      · intro t
        constructor
        · intro hlt
          exact absurd hlt (Nat.not_lt_zero t)
        · rintro ⟨s, hlast, -⟩
          rw [List.getLast?_concat] at hlast
          exact absurd hlast (by simp)
    | false =>
      have hcount : (UInt32.ofNat (min ((l.account username).failCount.toNat + 1)
          (2 ^ 32 - 1))).toNat =
            min (trailingFailures (recorded username history) + 1) (2 ^ 32 - 1) := by
        rw [UInt32.toNat_ofNat_of_lt' (lt_of_le_of_lt (min_le_right _ _) (by decide)),
          htracks.count]
        omega
      have hstep := toNat_backoffStep cfg (Nat.succ_pos _) hcount
      have hfits := hroom rfl
      have hedge : checkedAdd now (backoffStep l.cfg (UInt32.ofNat
          (min ((l.account username).failCount.toNat + 1) (2 ^ 32 - 1)))) =
          some (now + backoffStep cfg (UInt32.ofNat
            (min ((l.account username).failCount.toNat + 1) (2 ^ 32 - 1)))) := by
        rw [h.config, checkedAdd, if_pos (by rw [hstep]; exact hfits)]
      have hblocked := checkedAdd_eq_some.mp (h.config ▸ hedge)
      simp only [Bool.false_eq_true, if_false, hedge]
      refine h.insert hclock (fun _ _ => rfl) (fun other hne => hother other hne _) ?_
      rw [hissued, hrecorded]
      refine { htracks with count := ?_, blocked := ?_ }
      · rw [trailingFailures_concat_failure]
        exact hcount
      · intro t
        rw [trailingFailures_concat_failure, List.getLast?_concat]
        show t < (now + backoffStep cfg _).toNat ↔ _
        rw [hblocked, hstep]
        constructor
        · intro hlt
          exact ⟨now, rfl, hlt⟩
        · rintro ⟨s, hlast, hlt⟩
          obtain ⟨rfl, -⟩ := Prod.mk.inj (Option.some.inj hlast)
          exact hlt

lemma sound_new (cfg : RateLimitConfig) : Sound cfg [] 0 (new cfg) := by
  refine ⟨rfl, rfl, fun username => ?_⟩
  refine ⟨⟨[], rfl, by simp⟩, List.Pairwise.nil, by simp [issued], Nat.zero_le _, by simp [issued],
    rfl, fun now => ?_⟩
  constructor
  · intro h
    exact absurd h (Nat.not_lt_zero now)
  · rintro ⟨t, ht, -⟩
    exact absurd ht (by simp [recorded])

def RunRoom (cfg : RateLimitConfig) (calls : List LimiterCall) : Prop :=
  ∀ done c, done ++ [c] <+: calls → Room cfg ((machine cfg).run done).2 c

lemma runRoom_nil (cfg : RateLimitConfig) : RunRoom cfg [] := by
  intro done c h
  exact absurd (List.prefix_nil.mp h) (by simp)

lemma RunRoom.concat {calls : List LimiterCall} (h : RunRoom cfg calls) {c : LimiterCall}
    (hroom : Room cfg ((machine cfg).run calls).2 c) : RunRoom cfg (calls ++ [c]) := by
  intro done c' hprefix
  rcases List.prefix_concat_iff.mp hprefix with heq | hprefix
  · obtain ⟨rfl, hlast⟩ := List.append_inj' heq rfl
    obtain rfl := (List.cons.inj hlast).1
    exact hroom
  · exact h done c' hprefix

def clockOf (calls : List LimiterCall) : ℕ := (calls.getLast?.map fun c => c.nowMs.toNat).getD 0

/-- After every run with room the limiter is sound. -/
theorem sound_run (hmax : 1 ≤ cfg.challengeMaxPerWindow.toNat) {calls : List LimiterCall}
    (hclock : calls.Pairwise fun a b => a.nowMs.toNat ≤ b.nowMs.toNat)
    (hroom : RunRoom cfg calls) :
    Sound cfg ((machine cfg).run calls).2 (clockOf calls) ((machine cfg).run calls).1 := by
  induction calls using List.reverseRecOn with
  | nil => exact sound_new cfg
  | append_singleton calls c ih =>
    obtain ⟨hbefore, -, hlast⟩ := List.pairwise_append.mp hclock
    have hprev := ih hbefore fun done c' h => hroom done c' (h.trans (List.prefix_append _ _))
    have hle : clockOf calls ≤ c.nowMs.toNat := by
      unfold clockOf
      cases hgetLast : calls.getLast? with
      | none => exact Nat.zero_le _
      | some c' => exact hlast c' (List.mem_of_getLast? hgetLast) c List.mem_cons_self
    rw [Machine.run_append_singleton]
    have hnow : clockOf (calls ++ [c]) = c.nowMs.toNat := by
      rw [clockOf, List.getLast?_concat]
      rfl
    rw [hnow]
    exact hprev.step hmax c hle (hroom calls c (List.prefix_refl _))

/-! ## Other usernames -/

structure Agree (username : String) (l l' : RateLimiter) : Prop where
  config : l.cfg = l'.cfg
  alive : l.poisoned = false
  alive' : l'.poisoned = false
  account : l.account username = l'.account username

lemma Agree.apply {username : String} {l l' : RateLimiter} (h : Agree username l l')
    {c : LimiterCall} (hc : c.username = username) :
    (c.apply l).1 = (c.apply l').1 ∧
      ((c.apply l).2.poisoned = false → Agree username (c.apply l).2 (c.apply l').2) := by
  have hl : ¬l.poisoned = true := by
    rw [h.alive]
    simp
  have hl' : ¬l'.poisoned = true := by
    rw [h.alive']
    simp
  subst hc
  cases c with
  | admitChallenge username now =>
    show (l.admitChallenge username now).1 = (l'.admitChallenge username now).1 ∧
      ((l.admitChallenge username now).2.poisoned = false →
        Agree username (l.admitChallenge username now).2 (l'.admitChallenge username now).2)
    have hsame : l.account username = l'.account username := h.account
    rw [admitChallenge_eq l username now h.alive, admitChallenge_eq l' username now h.alive', ← h.config, ← hsame]
    refine ⟨rfl, fun halive => ?_⟩
    cases hverdict : RateLimiter.admitIssuance l.cfg (l.account username) now with
    | none =>
      rw [hverdict] at halive
      exact absurd halive (by simp)
    | some r =>
      exact ⟨rfl, h.alive, h.alive',
        (account_insert_self l username r.2).trans (account_insert_self _ username r.2).symm⟩
  | admitProof username now =>
    have hsame : l.account username = l'.account username := h.account
    show (l.admitProof username now).1 = (l'.admitProof username now).1 ∧
      ((l.admitProof username now).2.poisoned = false →
        Agree username (l.admitProof username now).2 (l'.admitProof username now).2)
    rw [admitProof_eq l username now h.alive, admitProof_eq l' username now h.alive', ← hsame]
    exact ⟨rfl, fun _ => h⟩
  | recordProof username now success =>
    have hsame : l.account username = l'.account username := h.account
    show (l.recordProof username now success).1 = (l'.recordProof username now success).1 ∧
      ((l.recordProof username now success).2.poisoned = false →
        Agree username (l.recordProof username now success).2
          (l'.recordProof username now success).2)
    unfold RateLimiter.recordProof
    rw [if_neg hl, if_neg hl']
    cases success with
    | true =>
      simp only [if_true]
      refine ⟨trivial, fun _ => ⟨h.config, h.alive, h.alive', ?_⟩⟩
      rw [account_insert_self, account_insert_self, hsame]
    | false =>
      simp only [Bool.false_eq_true, if_false]
      rw [← h.config, ← hsame]
      cases hedge : checkedAdd now (backoffStep l.cfg (UInt32.ofNat
          (min ((l.account username).failCount.toNat + 1) (2 ^ 32 - 1)))) with
      | none => exact ⟨rfl, fun halive => absurd halive (by simp)⟩
      | some blockedUntilMs =>
        exact ⟨rfl, fun _ => ⟨rfl, h.alive, h.alive',
          (account_insert_self l username _).trans (account_insert_self _ username _).symm⟩⟩

lemma account_apply_of_ne {username : String} {l : RateLimiter} {c : LimiterCall}
    (hc : c.username ≠ username) : (c.apply l).2.account username = l.account username := by
  cases c with
  | admitChallenge claimed now =>
    show (l.admitChallenge claimed now).2.account username = _
    unfold RateLimiter.admitChallenge
    split
    · rfl
    · split
      · exact account_insert_ne l hc _
      · rfl
  | admitProof claimed now =>
    show (l.admitProof claimed now).2.account username = _
    unfold RateLimiter.admitProof
    split
    · rfl
    · split
      · split <;> rfl
      · rfl
  | recordProof claimed now success =>
    show (l.recordProof claimed now success).2.account username = _
    unfold RateLimiter.recordProof
    split
    · rfl
    · dsimp only
      split
      · exact account_insert_ne l hc _
      · split
        · exact account_insert_ne l hc _
        · rfl

lemma cfg_apply (l : RateLimiter) (c : LimiterCall) : (c.apply l).2.cfg = l.cfg := by
  cases c with
  | admitChallenge claimed now =>
    show (l.admitChallenge claimed now).2.cfg = _
    unfold RateLimiter.admitChallenge
    split
    · rfl
    · split <;> rfl
  | admitProof claimed now =>
    show (l.admitProof claimed now).2.cfg = _
    unfold RateLimiter.admitProof
    split
    · rfl
    · split
      · split <;> rfl
      · rfl
  | recordProof claimed now success =>
    show (l.recordProof claimed now success).2.cfg = _
    unfold RateLimiter.recordProof
    split
    · rfl
    · dsimp only
      split
      · rfl
      · split <;> rfl

/-- The run of the calls for one username ends in agreement with the run of all calls. -/
theorem agree_run_filter (hmax : 1 ≤ cfg.challengeMaxPerWindow.toNat) {calls : List LimiterCall}
    (hclock : calls.Pairwise fun a b => a.nowMs.toNat ≤ b.nowMs.toNat) (hroom : RunRoom cfg calls)
    (username : String) :
    Agree username ((machine cfg).run calls).1
      ((machine cfg).run (calls.filter fun c => c.username = username)).1 := by
  induction calls using List.reverseRecOn with
  | nil => exact ⟨rfl, rfl, rfl, rfl⟩
  | append_singleton calls c ih =>
    have halive := (sound_run hmax hclock hroom).alive
    have hprev := ih (List.pairwise_append.mp hclock).1 fun done c' h =>
      hroom done c' (h.trans (List.prefix_append _ _))
    rw [Machine.run_append_singleton] at halive ⊢
    rw [List.filter_append]
    by_cases hc : c.username = username
    · have hkept : [c].filter (fun c => c.username = username) = [c] := by
        simp [hc]
      rw [hkept, Machine.run_append_singleton]
      exact (hprev.apply hc).2 halive
    · have hdropped : [c].filter (fun c => c.username = username) = [] := by
        simp [hc]
      rw [hdropped, List.append_nil]
      exact ⟨(cfg_apply _ c).trans hprev.config, halive, hprev.alive',
        (account_apply_of_ne hc).trans hprev.account⟩

/-! ## The answers -/

lemma Tracks.admitIssuance_later {issues : List UInt64} {proofs : List (UInt64 × Bool)}
    {a : Account} {now later oldest : UInt64} {rest : List UInt64}
    (h : Tracks cfg issues proofs now.toNat { a with challenges := oldest :: rest })
    (hmax : 1 ≤ cfg.challengeMaxPerWindow.toNat)
    (hfull : (oldest :: rest).length = cfg.challengeMaxPerWindow.toNat)
    (hle : now.toNat ≤ later.toNat) :
    (RateLimiter.admitIssuance cfg { a with challenges := oldest :: rest } later).map Prod.fst =
        some (.ok ()) ↔
      oldest.toNat + cfg.challengeWindowMs.toNat ≤ later.toNat := by
  obtain ⟨gone, hsplit, hgone⟩ := h.queue
  have hascending : (oldest :: rest).Pairwise fun s t => s.toNat ≤ t.toNat := by
    have hissues := h.ascending
    rw [hsplit] at hissues
    exact (List.pairwise_append.mp hissues).2.1
  obtain ⟨queue, -, -, hlength, hverdict⟩ := (h.later hle).admitIssuance hmax
  -- Only the queue counts, for the others have left the window before.
  have hcount : queue.length = (oldest :: rest).countP fun s =>
      later.toNat < s.toNat + cfg.challengeWindowMs.toNat ∧ s.toNat ≤ later.toNat := by
    have hnone : (gone.countP fun s =>
        later.toNat < s.toNat + cfg.challengeWindowMs.toNat ∧ s.toNat ≤ later.toNat) = 0 := by
      refine List.countP_eq_zero.mpr fun s hs => ?_
      have := hgone s hs
      simp only [decide_eq_true_eq]
      omega
    rw [hlength, hsplit, List.countP_append, hnone, Nat.zero_add]
  constructor
  · intro hok
    by_contra hlt
    have hall : ((oldest :: rest).countP fun s =>
        later.toNat < s.toNat + cfg.challengeWindowMs.toNat ∧ s.toNat ≤ later.toNat) =
          (oldest :: rest).length := by
      refine List.countP_eq_length.mpr fun s hs => decide_eq_true ⟨?_, ?_⟩
      · have hfirst : oldest.toNat ≤ s.toNat := by
          rcases List.mem_cons.mp hs with rfl | hs
          · exact le_rfl
          · exact (List.pairwise_cons.mp hascending).1 s hs
        omega
      · have hpast := h.past s (by rw [hsplit]; exact List.mem_append_right _ hs)
        omega
    rcases hverdict with ⟨hshort, -⟩ | ⟨-, oldest', rest', -, hrefused⟩
    · omega
    · rw [hrefused] at hok
      exact absurd (Option.some.inj hok) (by simp)
  · intro haged
    have hfew : ((oldest :: rest).countP fun s =>
        later.toNat < s.toNat + cfg.challengeWindowMs.toNat ∧ s.toNat ≤ later.toNat) ≤
          rest.length := by
      rw [List.countP_cons_of_neg (by simp only [decide_eq_true_eq]; omega)]
      exact List.countP_le_length
    rw [List.length_cons] at hfull
    rcases hverdict with ⟨-, hadmitted⟩ | ⟨hlong, -⟩
    · rw [hadmitted]
      rfl
    · omega

lemma Sound.challenge_exact (h : Sound cfg history clock l)
    (hmax : 1 ≤ cfg.challengeMaxPerWindow.toNat) (username : String) (now : UInt64)
    (hclock : clock ≤ now.toNat) :
    (issuedInWindow cfg username history now.toNat < cfg.challengeMaxPerWindow.toNat →
        (l.admitChallenge username now).1 = some (.ok ())) ∧
      (cfg.challengeMaxPerWindow.toNat ≤ issuedInWindow cfg username history now.toNat →
        ∃ wait, (l.admitChallenge username now).1 = some (.error wait) ∧
          ∀ (later : UInt64) (k : ℕ), later.toNat = now.toNat + 1000 * k →
            (((l.admitChallenge username now).2.admitChallenge username later).1 =
              some (.ok ()) ↔ wait.toNat ≤ k)) := by
  obtain ⟨queue, htracks, hstays, hlength, hverdict⟩ := h.admitChallenge hmax username now hclock
  rcases hverdict with ⟨hlt, hcall⟩ | ⟨hfull, oldest, rest, rfl, hcall⟩
  · rw [hcall]
    exact ⟨fun _ => rfl, fun hge => absurd hlt (by omega)⟩
  · refine ⟨fun hlt => absurd hfull (by omega), fun _ => ?_⟩
    rw [hcall]
    refine ⟨_, rfl, fun later k hlater => ?_⟩
    have hroom : oldest.toNat + cfg.challengeWindowMs.toNat < 2 ^ 64 := by
      obtain ⟨gone, hsplit, -⟩ := htracks.queue
      refine htracks.room oldest ?_
      rw [hsplit]
      exact List.mem_append_right _ List.mem_cons_self
    have hedge : (oldest + cfg.challengeWindowMs).toNat =
        oldest.toNat + cfg.challengeWindowMs.toNat := by
      rw [UInt64.toNat_add]
      exact Nat.mod_eq_of_lt hroom
    have hlate : now < oldest + cfg.challengeWindowMs := by
      refine UInt64.lt_iff_toNat_lt.mpr ?_
      rw [hedge]
      exact hstays oldest List.mem_cons_self
    rw [secsUntil_le_iff hlate, hedge, ← hlater]
    have hafter := admitChallenge_eq { l with accounts := (l.accounts.insert username
      { l.account username with challenges := oldest :: rest }) } username later h.alive
    dsimp only
    rw [hafter, account_insert_self]
    show (RateLimiter.admitIssuance l.cfg _ later).map Prod.fst = some (.ok ()) ↔ _
    rw [h.config]
    exact htracks.admitIssuance_later hmax hfull (by omega)

lemma Sound.proof_exact (h : Sound cfg history clock l) (username : String) (now : UInt64) :
    (Waiting cfg username history now.toNat →
        ∃ wait, (l.admitProof username now).1 = some (.error wait)) ∧
      (¬Waiting cfg username history now.toNat →
        (l.admitProof username now).1 = some (.ok ())) := by
  have hblocked := (h.follows username).blocked now.toNat
  rw [admitProof_eq l username now h.alive]
  constructor
  · intro hwaiting
    rw [if_pos (UInt64.lt_iff_toNat_lt.mpr (hblocked.mpr hwaiting))]
    exact ⟨_, rfl⟩
  · intro hfree
    rw [if_neg fun hlt => hfree (hblocked.mp (UInt64.lt_iff_toNat_lt.mp hlt))]

end Calls

end RateLimiter

open RateLimiter in
/-- After every run with a clock that does not go back and additions that fit, the limiter answers
every next call as its history says, and only the calls for the same username matter. -/
theorem rateLimiter_exact (cfg : RateLimitConfig) (calls : List LimiterCall)
    (hmax : 1 ≤ cfg.challengeMaxPerWindow.toNat)
    (hclock : calls.Pairwise fun a b => a.nowMs.toNat ≤ b.nowMs.toNat)
    (hroom : RunRoom cfg calls) :
    (∀ username (now : UInt64), (∀ c ∈ calls, c.nowMs.toNat ≤ now.toNat) →
      (issuedInWindow cfg username ((machine cfg).run calls).2 now.toNat <
          cfg.challengeMaxPerWindow.toNat →
        (((machine cfg).run calls).1.admitChallenge username now).1 = some (.ok ())) ∧
      (cfg.challengeMaxPerWindow.toNat ≤
          issuedInWindow cfg username ((machine cfg).run calls).2 now.toNat →
        ∃ wait, (((machine cfg).run calls).1.admitChallenge username now).1 =
            some (.error wait) ∧
          ∀ (later : UInt64) (k : ℕ), later.toNat = now.toNat + 1000 * k →
            (((((machine cfg).run calls).1.admitChallenge username now).2.admitChallenge
              username later).1 = some (.ok ()) ↔ wait.toNat ≤ k))) ∧
      (∀ username (now : UInt64),
        (Waiting cfg username ((machine cfg).run calls).2 now.toNat →
          ∃ wait, (((machine cfg).run calls).1.admitProof username now).1 = some (.error wait)) ∧
        (¬Waiting cfg username ((machine cfg).run calls).2 now.toNat →
          (((machine cfg).run calls).1.admitProof username now).1 = some (.ok ()))) ∧
      ∀ c : LimiterCall, (c.apply ((machine cfg).run calls).1).1 =
        (c.apply ((machine cfg).run (calls.filter fun c' => c'.username = c.username)).1).1 := by
  have hsound := sound_run hmax hclock hroom
  refine ⟨fun username now hnow => ?_, fun username now => hsound.proof_exact username now,
    fun c => ((agree_run_filter hmax hclock hroom c.username).apply rfl).1⟩
  refine hsound.challenge_exact hmax username now ?_
  unfold clockOf
  cases hlast : calls.getLast? with
  | none => exact Nat.zero_le _
  | some c => exact hnow c (List.mem_of_getLast? hlast)

open RateLimiter in
/-- A failed proof and a challenge one second later, and another one after that. -/
theorem rateLimiter_exact_bob :
    (((machine .default).run
      [.recordProof "bob" 1000 false, .admitChallenge "bob" 2000]).1.admitChallenge "bob" 2500).1 =
        some (.ok ()) := by
  have hfailed : RunRoom .default [.recordProof "bob" 1000 false] := by
    refine (runRoom_nil .default).concat (c := .recordProof "bob" 1000 false) fun _ => ?_
    decide +kernel
  have hroom : RunRoom .default [.recordProof "bob" 1000 false, .admitChallenge "bob" 2000] := by
    refine hfailed.concat (c := .admitChallenge "bob" 2000) ?_
    show (2000 : UInt64).toNat + (60000 : UInt64).toNat < 2 ^ 64
    decide
  have hlater : ∀ c ∈ ([.recordProof "bob" 1000 false, .admitChallenge "bob" 2000] :
      List LimiterCall), c.nowMs.toNat ≤ (2500 : UInt64).toNat := by
    intro c hc
    rcases List.mem_pair.mp hc with rfl | rfl <;> decide
  have hissued : issuedInWindow .default "bob" ((machine .default).run
      [.recordProof "bob" 1000 false, .admitChallenge "bob" 2000]).2 (2500 : UInt64).toNat <
        RateLimitConfig.default.challengeMaxPerWindow.toNat := by
    decide +kernel
  exact ((rateLimiter_exact .default [.recordProof "bob" 1000 false, .admitChallenge "bob" 2000]
    (by decide) (by decide) hroom).1 "bob" 2500 hlater).1 hissued

open RateLimiter in
/-- At the end of the clock one challenge is enough for the next call to panic. -/
theorem admitChallenge_endOfClock :
    (((machine .default).run [.admitChallenge "u" 18446744073709551615]).1.admitChallenge "u"
        18446744073709551615).1 = none ∧
      issuedInWindow .default "u" ((machine .default).run
        [.admitChallenge "u" 18446744073709551615]).2 18446744073709551615 = 1 ∧
      RateLimitConfig.default.challengeMaxPerWindow = 30 := by
  decide +kernel

end MaxSecu
