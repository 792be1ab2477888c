import Mathlib.Tactic
import Mathlib.Data.List.AList

/-!
# Throttling per account

The two in-memory controls of a login, both by the claimed username, whether it exists or not: the
number of challenges issued in a sliding window is capped, and after a failed proof the next one has
to wait, twice as long with each failure in a row, up to a cap.

The accounts are behind a mutex.  Arithmetic that overflows panics with the mutex held, which
poisons it: every later call panics when it takes the lock.
-/

namespace MaxSecu

/-- Addition that fails on overflow. -/
def checkedAdd (a b : UInt64) : Option UInt64 :=
  if a.toNat + b.toNat < 2 ^ 64 then some (a + b) else none

lemma checkedAdd_eq_some {a b c : UInt64} :
    checkedAdd a b = some c ↔ c.toNat = a.toNat + b.toNat := by
  unfold checkedAdd
  have hsum : (a + b).toNat = (a.toNat + b.toNat) % 2 ^ 64 := UInt64.toNat_add a b
  have hc := c.toNat_lt
  by_cases hlt : a.toNat + b.toNat < 2 ^ 64
  · rw [if_pos hlt, Option.some_inj, ← UInt64.toNat_inj, hsum, Nat.mod_eq_of_lt hlt]
    exact eq_comm
  · rw [if_neg hlt]
    constructor
    · intro h
      exact absurd h (by simp)
    · intro h
      omega

structure RateLimitConfig where
  backoffBaseMs : UInt64
  backoffCapMs : UInt64
  challengeWindowMs : UInt64
  challengeMaxPerWindow : UInt32

def RateLimitConfig.default : RateLimitConfig where
  backoffBaseMs := 1000
  backoffCapMs := 60000
  challengeWindowMs := 60000
  challengeMaxPerWindow := 30

structure Account where
  /-- Failed proofs in a row. -/
  failCount : UInt32
  blockedUntilMs : UInt64
  /-- When the challenges in the window were issued, the oldest first. -/
  challenges : List UInt64

structure RateLimiter where
  cfg : RateLimitConfig
  accounts : AList fun _ : String => Account
  poisoned : Bool

namespace RateLimiter

def new (cfg : RateLimitConfig) : RateLimiter := ⟨cfg, ∅, false⟩

/-- Whole seconds to wait, rounded up. -/
def secsUntil (nowMs untilMs : UInt64) : UInt64 :=
  if untilMs ≤ nowMs then 0
  else (untilMs - nowMs) / 1000 + if (untilMs - nowMs) % 1000 = 0 then 0 else 1

/-- The issuances that are still in the window. -/
def dropAged (window nowMs : UInt64) : List UInt64 → Option (List UInt64)
  | [] => some []
  | front :: rest => do
    let agesAt ← checkedAdd front window
    if agesAt ≤ nowMs then dropAged window nowMs rest else some (front :: rest)

def account (l : RateLimiter) (username : String) : Account :=
  (l.accounts.lookup username).getD ⟨0, 0, []⟩

/-- The verdict on a challenge and the account after it.  A panic if the arithmetic overflows, or
the cap is zero and there is no oldest issuance to wait for. -/
def admitIssuance (cfg : RateLimitConfig) (a : Account) (nowMs : UInt64) :
    Option (Except UInt64 Unit × Account) := do
  let challenges ← dropAged cfg.challengeWindowMs nowMs a.challenges
  if cfg.challengeMaxPerWindow ≤ UInt32.ofNat challenges.length then
    let oldest ← challenges.head?
    let agesAt ← checkedAdd oldest cfg.challengeWindowMs
    some (.error (secsUntil nowMs agesAt), { a with challenges := challenges })
  else
    some (.ok (), { a with challenges := challenges ++ [nowMs] })

/-- May a challenge be issued?  If so the issuance is recorded. -/
def admitChallenge (username : String) (nowMs : UInt64) (l : RateLimiter) :
    Option (Except UInt64 Unit) × RateLimiter :=
  if l.poisoned then
    (none, l)
  else
    match admitIssuance l.cfg (l.account username) nowMs with
    | some (verdict, a) => (some verdict, { l with accounts := l.accounts.insert username a })
    | none => (none, { l with poisoned := true })

def admitProof (username : String) (nowMs : UInt64) (l : RateLimiter) :
    Option (Except UInt64 Unit) × RateLimiter :=
  if l.poisoned then
    (none, l)
  else
    match l.accounts.lookup username with
    | some a =>
      if nowMs < a.blockedUntilMs then (some (.error (secsUntil nowMs a.blockedUntilMs)), l)
      else (some (.ok ()), l)
    | none => (some (.ok ()), l)

/-- `1 << n`, or the maximum if the shift is out of range. -/
def shiftedOne (n : UInt32) : UInt64 :=
  if n < 64 then 1 <<< n.toUInt64 else UInt64.ofNat (2 ^ 64 - 1)

/-- The wait after a failure: doubled with each one before it, saturating, and capped. -/
def backoffStep (cfg : RateLimitConfig) (failCount : UInt32) : UInt64 :=
  min (UInt64.ofNat (min (cfg.backoffBaseMs.toNat * (shiftedOne (failCount - 1)).toNat)
    (2 ^ 64 - 1))) cfg.backoffCapMs

/-- Record how a proof went: a success resets the account, a failure makes it wait. -/
def recordProof (username : String) (nowMs : UInt64) (success : Bool) (l : RateLimiter) :
    Option Unit × RateLimiter :=
  if l.poisoned then
    (none, l)
  else
    let a := l.account username
    if success then
      (some (), { l with accounts :=
        l.accounts.insert username { a with failCount := 0, blockedUntilMs := 0 } })
    else
      let failCount := UInt32.ofNat (min (a.failCount.toNat + 1) (2 ^ 32 - 1))
      match checkedAdd nowMs (backoffStep l.cfg failCount) with
      | some blockedUntilMs =>
        (some (), { l with accounts :=
          l.accounts.insert username { a with failCount, blockedUntilMs } })
      | none => (none, { l with poisoned := true })

end RateLimiter

end MaxSecu
