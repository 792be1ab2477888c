import MaxSecu.Framework.LabelledRun

/-!
# The pool of logged-in channels

A login is kept with its channel, and a command borrows such a channel instead of minting one.  A
borrow holds a permit.  It takes the newest idle channel of its principal that is young enough, or
waits for a gate behind which one channel at a time is minted.  When its guard is dropped the
channel becomes idle again, and a channel that is to outlive its command is lent: the pool keeps a
record under a key, and puts the channel back when it returns.

A drain clears the idle channels and counts up, and a guard or a loan from before does not put its
channel back.
-/

namespace MaxSecu

/-- Whose credentials a channel was minted with. -/
inductive Principal
  | user (username : String)
  | recovery
  deriving DecidableEq

/-- A channel, and what is true of it wherever it is: for whom and when it was minted. -/
structure PoolChannel where
  id : ℕ
  principal : Principal
  mintedAtMs : ℕ
  deriving DecidableEq

/-- An idle channel, with what the pool noted of it. -/
structure PooledConn where
  channel : PoolChannel
  mintedAtMs : ℕ
  principal : Principal

/-- What the pool notes of a channel that it lent. -/
structure Loan where
  mintedAtMs : ℕ
  principal : Principal
  generation : UInt64

structure PooledGuard where
  channel : PoolChannel
  mintedAtMs : ℕ
  principal : Principal
  bornGeneration : UInt64
  bad : Bool

/-- How far a borrow has come. -/
inductive AcquireStage
  | entered
  | permitted
  | atGate
  | gated
  /-- The channel that is being minted. -/
  | minting (id : ℕ)
  | sleeping
  deriving DecidableEq

def AcquireStage.permit : AcquireStage → Bool
  | .entered => false
  | .sleeping => false
  | _ => true

structure Acquire where
  principal : Principal
  reuseIdle : Bool
  bornIfMinted : UInt64
  throttleRetries : ℕ
  stage : AcquireStage

structure PoolConfig where
  cap : ℕ
  reuseWindowMs : ℕ

def REUSE_WINDOW_MS : ℕ := 20 * 60 * 1000

def MIN_CAP : ℕ := 2

def THROTTLE_WAIT_BUDGET_MS : ℕ := 2000

def THROTTLE_MIN_WAIT_MS : ℕ := 250

def THROTTLE_MAX_RETRIES : ℕ := 1

def RATE_LIMITED : String := "rate_limited"

def PoolConfig.production (cap : ℕ) : PoolConfig := ⟨max cap MIN_CAP, REUSE_WINDOW_MS⟩

structure MintFailure where
  code : String
  retryAfterS : Option UInt64

/-- How long to wait before a second try, if that is not too long. -/
def throttleWaitMs (retryAfterS : Option UInt64) : Option ℕ :=
  let waitMs := max (min ((retryAfterS.getD 0).toNat * 1000) (2 ^ 64 - 1)) THROTTLE_MIN_WAIT_MS
  if waitMs ≤ THROTTLE_WAIT_BUDGET_MS then some waitMs else none

/-- The pool, the borrows under way, the guards, and the channels that are lent.  Which channel was
lent last under a key is known to nobody. -/
structure Pool where
  idle : List PooledConn
  lent : String → Option Loan
  generation : UInt64
  permits : ℕ
  gateFree : Bool
  nowMs : ℕ
  nextId : ℕ
  acquires : List Acquire
  guards : List PooledGuard
  lentOut : List (String × PoolChannel)
  lastLent : String → Option PoolChannel

/-- What a step does that the others ask about. -/
inductive PoolLabel
  | handed (channel : PoolChannel) (principal : Principal) (reused : Bool)
  | dropped (guard : PooledGuard)
  | returned (key : String) (channel : PoolChannel)
  | drained
  | silent

def PoolConfig.new (cfg : PoolConfig) (nowMs : ℕ) : Pool where
  idle := []
  lent := fun _ => none
  generation := 0
  permits := cfg.cap
  gateFree := true
  nowMs := nowMs
  nextId := 0
  acquires := []
  guards := []
  lentOut := []
  lastLent := fun _ => none

/-- The idle channels of the principal that are young enough. -/
def freshIdle (cfg : PoolConfig) (principal : Principal) (nowMs : ℕ) (idle : List PooledConn) :
    List PooledConn :=
  idle.filter fun conn => conn.principal = principal ∧ nowMs - conn.mintedAtMs ≤ cfg.reuseWindowMs

/-- Take the newest channel that may be reused, and drop those that may not. -/
def takeFreshIdle (cfg : PoolConfig) (principal : Principal) (nowMs : ℕ)
    (idle : List PooledConn) : Option PooledConn × List PooledConn :=
  ((freshIdle cfg principal nowMs idle).getLast?, (freshIdle cfg principal nowMs idle).dropLast)

def guardFrom (conn : PooledConn) (bornGeneration : UInt64) : PooledGuard :=
  ⟨conn.channel, conn.mintedAtMs, conn.principal, bornGeneration, false⟩

/-- The guard puts its channel back, unless it was marked or the pool was drained. -/
def PooledGuard.drop (guard : PooledGuard) (generation : UInt64) (idle : List PooledConn) :
    List PooledConn :=
  if guard.bad then idle
  else if generation ≠ guard.bornGeneration then idle
  else idle ++ [⟨guard.channel, guard.mintedAtMs, guard.principal⟩]

def PooledGuard.loan (guard : PooledGuard) : Loan :=
  ⟨guard.mintedAtMs, guard.principal, guard.bornGeneration⟩

/-- The channel is put back under the record of its key, if there is one, the pool was not drained
and there is room. -/
def returnLent (cfg : PoolConfig) (loan : Option Loan) (channel : PoolChannel) (generation : UInt64)
    (idle : List PooledConn) : List PooledConn :=
  match loan with
  | none => idle
  | some loan =>
    if loan.generation ≠ generation then idle
    else if cfg.cap ≤ idle.length then idle
    else idle ++ [⟨channel, loan.mintedAtMs, loan.principal⟩]

namespace Pool

/-- The borrow looks for an idle channel, finds none, and leaves these. -/
def FindsNone (cfg : PoolConfig) (s : Pool) (a : Acquire) (rest : List PooledConn) : Prop :=
  if a.reuseIdle then takeFreshIdle cfg a.principal s.nowMs s.idle = (none, rest)
  else rest = s.idle

/-- The throttle is waited out, once. -/
def Waits (a : Acquire) (e : MintFailure) : Prop :=
  e.code = RATE_LIMITED ∧ 0 < a.throttleRetries ∧ (throttleWaitMs e.retryAfterS).isSome

/-- One step of the pool, of a borrow, or of one who holds a channel. -/
inductive Next (cfg : PoolConfig) (s : Pool) : PoolLabel → Pool → Prop
  | enter (principal : Principal) (reuseIdle : Bool) :
      Next cfg s .silent { s with
        acquires := s.acquires ++
          [⟨principal, reuseIdle, s.generation, THROTTLE_MAX_RETRIES, .entered⟩] }
  | permit {before after : List Acquire} {a : Acquire} :
      s.acquires = before ++ a :: after → a.stage = .entered → 0 < s.permits →
      Next cfg s .silent { s with
        permits := s.permits - 1
        acquires := before ++ { a with stage := .permitted } :: after }
  | pop {before after : List Acquire} {a : Acquire} {conn : PooledConn} {rest : List PooledConn} :
      s.acquires = before ++ a :: after → a.stage = .permitted ∨ a.stage = .gated →
      a.reuseIdle = true →
      takeFreshIdle cfg a.principal s.nowMs s.idle = (some conn, rest) →
      Next cfg s (.handed conn.channel a.principal true) { s with
        idle := rest
        gateFree := s.gateFree || a.stage = .gated
        acquires := before ++ after
        guards := guardFrom conn s.generation :: s.guards }
  | queue {before after : List Acquire} {a : Acquire} {rest : List PooledConn} :
      s.acquires = before ++ a :: after → a.stage = .permitted → s.FindsNone cfg a rest →
      Next cfg s .silent { s with
        idle := rest
        acquires := before ++ { a with stage := .atGate } :: after }
  | gate {before after : List Acquire} {a : Acquire} :
      s.acquires = before ++ a :: after → a.stage = .atGate → s.gateFree = true →
      Next cfg s .silent { s with
        gateFree := false
        acquires := before ++ { a with stage := .gated } :: after }
  | mint {before after : List Acquire} {a : Acquire} {rest : List PooledConn} :
      s.acquires = before ++ a :: after → a.stage = .gated → s.FindsNone cfg a rest →
      Next cfg s .silent { s with
        idle := rest
        nextId := s.nextId + 1
        acquires := before ++ { a with stage := .minting s.nextId } :: after }
  | minted {before after : List Acquire} {a : Acquire} {id : ℕ} :
      s.acquires = before ++ a :: after → a.stage = .minting id →
      Next cfg s (.handed ⟨id, a.principal, s.nowMs⟩ a.principal false) { s with
        gateFree := true
        acquires := before ++ after
        guards := guardFrom ⟨⟨id, a.principal, s.nowMs⟩, s.nowMs, a.principal⟩ a.bornIfMinted ::
          s.guards }
  | throttled {before after : List Acquire} {a : Acquire} {id : ℕ} {e : MintFailure} :
      s.acquires = before ++ a :: after → a.stage = .minting id → Waits a e →
      Next cfg s .silent { s with
        gateFree := true
        permits := s.permits + 1
        acquires := before ++
          { a with stage := .sleeping, throttleRetries := a.throttleRetries - 1 } :: after }
  | failed {before after : List Acquire} {a : Acquire} {id : ℕ} {e : MintFailure} :
      s.acquires = before ++ a :: after → a.stage = .minting id → ¬ Waits a e →
      Next cfg s .silent { s with
        gateFree := true
        permits := s.permits + 1
        acquires := before ++ after }
  | wake {before after : List Acquire} {a : Acquire} :
      s.acquires = before ++ a :: after → a.stage = .sleeping →
      Next cfg s .silent { s with acquires := before ++ { a with stage := .entered } :: after }
  | markBad {before after : List PooledGuard} {guard : PooledGuard} :
      s.guards = before ++ guard :: after →
      Next cfg s .silent { s with guards := before ++ { guard with bad := true } :: after }
  | drop {before after : List PooledGuard} {guard : PooledGuard} :
      s.guards = before ++ guard :: after →
      Next cfg s (.dropped guard) { s with
        idle := guard.drop s.generation s.idle
        permits := s.permits + 1
        guards := before ++ after }
  | lend {before after : List PooledGuard} {guard : PooledGuard} (key : String) :
      s.guards = before ++ guard :: after →
      Next cfg s .silent { s with
        lent := Function.update s.lent key (some guard.loan)
        permits := s.permits + 1
        guards := before ++ after
        lentOut := (key, guard.channel) :: s.lentOut
        lastLent := Function.update s.lastLent key (some guard.channel) }
  | returnLent {before after : List (String × PoolChannel)} {key : String}
      {channel : PoolChannel} :
      s.lentOut = before ++ (key, channel) :: after →
      Next cfg s (.returned key channel) { s with
        lent := Function.update s.lent key none
        idle := MaxSecu.returnLent cfg (s.lent key) channel s.generation s.idle
        lentOut := before ++ after }
  | dropLent {before after : List (String × PoolChannel)} {x : String × PoolChannel} :
      s.lentOut = before ++ x :: after →
      Next cfg s .silent { s with lentOut := before ++ after }
  | forgetLent (key : String) :
      Next cfg s .silent { s with lent := Function.update s.lent key none }
  | drainIdle :
      Next cfg s .drained { s with generation := s.generation + 1, idle := [] }
  | tick {nowMs : ℕ} : s.nowMs ≤ nowMs → Next cfg s .silent { s with nowMs := nowMs }

/-! ## What the pool must keep -/

/-- How many borrows there are: those that hold a permit, and the guards. -/
def borrows (s : Pool) : ℕ := s.acquires.countP (fun a => a.stage.permit) + s.guards.length

/-- How many parties have the channel: it is being minted, idle, borrowed or lent. -/
def held (s : Pool) (id : ℕ) : ℕ :=
  s.acquires.countP (fun a => a.stage = .minting id) + s.idle.countP (fun c => c.channel.id = id) +
    s.guards.countP (fun g => g.channel.id = id) + s.lentOut.countP (fun x => x.2.id = id)

end Pool

end MaxSecu
