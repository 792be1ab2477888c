import MaxSecu.App.Pool

/-!
# What the pool hands out

A borrow that takes an idle channel trusts what the pool noted of it.  `Pool.Inv` says that these
notes are true and belong to the time since the last drain, that no channel has two holders, and
that no more borrows hold permits than there are.

Two steps break it.  A channel that returns is put back under whatever record its key has, which may
be that of another channel that was lent under the key since.  And a guard puts its channel back
without looking how many are idle already.  `authedPool_safe` is about the runs without them.
-/

namespace MaxSecu

/-! ## Idle channels that are taken and put back -/

section Idle

variable {cfg : PoolConfig} {principal : Principal} {nowMs : ℕ} {idle rest : List PooledConn}
  {conn : PooledConn}

lemma freshIdle_of_take (h : takeFreshIdle cfg principal nowMs idle = (some conn, rest)) :
    freshIdle cfg principal nowMs idle = rest ++ [conn] := by
  obtain ⟨hlast, hrest⟩ := Prod.mk.inj h
  rw [← hrest]
  exact (List.dropLast_append_getLast? conn hlast).symm

lemma sublist_of_take (h : takeFreshIdle cfg principal nowMs idle = (some conn, rest)) :
    (rest ++ [conn]).Sublist idle := by
  rw [← freshIdle_of_take h]
  exact List.filter_sublist

lemma sublist_of_findsNone {s : Pool} {a : Acquire} (h : s.FindsNone cfg a rest) :
    rest.Sublist s.idle := by
  unfold Pool.FindsNone at h
  by_cases hreuse : a.reuseIdle = true
  · rw [if_pos hreuse] at h
    obtain ⟨-, rfl⟩ := Prod.mk.inj h
    exact (List.dropLast_sublist _).trans List.filter_sublist
  · rw [if_neg hreuse] at h
    rw [h]

lemma countP_take (p : PooledConn → Bool)
    (h : takeFreshIdle cfg principal nowMs idle = (some conn, rest)) :
    rest.countP p + (if p conn then 1 else 0) ≤ idle.countP p := by
  have hle : (rest ++ [conn]).countP p ≤ idle.countP p := (sublist_of_take h).countP_le
  rwa [List.countP_append, List.countP_singleton] at hle

lemma countP_findsNone (p : PooledConn → Bool) {s : Pool} {a : Acquire}
    (h : s.FindsNone cfg a rest) : rest.countP p ≤ s.idle.countP p :=
  (sublist_of_findsNone h).countP_le

lemma fresh_of_take (h : takeFreshIdle cfg principal nowMs idle = (some conn, rest)) :
    conn ∈ idle ∧ conn.principal = principal ∧
      nowMs - conn.mintedAtMs ≤ cfg.reuseWindowMs := by
  have hmem : conn ∈ freshIdle cfg principal nowMs idle := by
    rw [freshIdle_of_take h]
    exact List.mem_append_right _ (List.mem_singleton_self _)
  obtain ⟨hidle, hfresh⟩ := List.mem_filter.mp hmem
  exact ⟨hidle, of_decide_eq_true hfresh⟩

lemma PooledGuard.drop_cases (guard : PooledGuard) (generation : UInt64)
    (idle : List PooledConn) : guard.drop generation idle = idle ∨
    guard.bad = false ∧ guard.bornGeneration = generation ∧
      guard.drop generation idle =
        idle ++ [⟨guard.channel, guard.mintedAtMs, guard.principal⟩] := by
  unfold PooledGuard.drop
  by_cases hbad : guard.bad = true
  · exact .inl (if_pos hbad)
  by_cases hborn : generation ≠ guard.bornGeneration
  · left
    rw [if_neg hbad, if_pos hborn]
  · right
    rw [if_neg hbad, if_neg hborn]
    exact ⟨Bool.eq_false_of_not_eq_true hbad, (not_ne_iff.mp hborn).symm, rfl⟩

lemma returnLent_cases (cfg : PoolConfig) (loan : Option Loan) (channel : PoolChannel)
    (generation : UInt64) (idle : List PooledConn) :
    returnLent cfg loan channel generation idle = idle ∨
    ∃ record, loan = some record ∧ record.generation = generation ∧ idle.length < cfg.cap ∧
      returnLent cfg loan channel generation idle =
        idle ++ [⟨channel, record.mintedAtMs, record.principal⟩] := by
  cases loan with
  | none => exact .inl rfl
  | some record =>
    unfold returnLent
    by_cases hborn : record.generation ≠ generation
    · exact .inl (if_pos hborn)
    by_cases hfull : cfg.cap ≤ idle.length
    · left
      dsimp only
      rw [if_neg hborn, if_pos hfull]
    · right
      dsimp only
      rw [if_neg hborn, if_neg hfull]
      exact ⟨record, rfl, not_ne_iff.mp hborn, by omega, rfl⟩

end Idle

section Lists

variable {α : Type} {l before after : List α} {a b x : α}

lemma mem_of_removed (hl : l = before ++ a :: after) (hx : x ∈ before ++ after) : x ∈ l := by
  rw [hl]
  exact ((List.sublist_cons_self a after).append_left before).subset hx

lemma mem_of_replaced (hl : l = before ++ a :: after) (hx : x ∈ before ++ b :: after) :
    x = b ∨ x ∈ l := by
  subst hl
  simp only [List.mem_append, List.mem_cons] at hx ⊢
  tauto

lemma mem_of_eq_append (hl : l = before ++ a :: after) : a ∈ l := by
  rw [hl]
  exact List.mem_append_right _ List.mem_cons_self

end Lists

namespace Pool

variable {cfg : PoolConfig} {s s' : Pool} {label : PoolLabel} {mark : ℕ}

/-! ## Holders and permits -/

lemma Next.nextId_le (h : Next cfg s label s') : s.nextId ≤ s'.nextId := by
  cases h <;> simp

lemma Next.reused {channel : PoolChannel} {principal : Principal}
    (h : Next cfg s (.handed channel principal true) s') : ∃ conn rest, conn.channel = channel ∧
      takeFreshIdle cfg principal s.nowMs s.idle = (some conn, rest) := by
  cases h with
  | @pop before after a conn rest hs hstage hreuse htake => exact ⟨conn, rest, rfl, htake⟩

lemma Next.fresh {channel : PoolChannel} {principal : Principal}
    (h : Next cfg s (.handed channel principal false) s') :
    channel = ⟨channel.id, principal, s.nowMs⟩ ∧
      ∃ a ∈ s.acquires, a.stage = .minting channel.id ∧ a.principal = principal := by
  cases h with
  | @minted before after a id hs hstage =>
    exact ⟨rfl, a, mem_of_eq_append hs, hstage, rfl⟩

lemma Next.held_le (h : Next cfg s label s') (id : ℕ) :
    s'.held id ≤ s.held id ∨ id = s.nextId ∧ s'.nextId = s.nextId + 1 ∧
      s'.held id ≤ s.held id + 1 := by
  unfold held
  cases h with
  | enter principal reuseIdle => simp [List.countP_append]
  | permit hs hstage _ => simp [hs, List.countP_append, hstage]
  | @pop before after a conn rest hs hstage _ htake =>
    have hidle := countP_take (fun c => c.channel.id = id) htake
    simp [hs, List.countP_append, List.countP_cons, guardFrom] at hidle ⊢
    omega
  | @queue before after a rest hs hstage hnone =>
    have hidle := countP_findsNone (fun c => c.channel.id = id) hnone
    simp [hs, List.countP_append, hstage]
    omega
  | gate hs hstage _ => simp [hs, List.countP_append, hstage]
  | @mint before after a rest hs hstage hnone =>
    have hidle := countP_findsNone (fun c => c.channel.id = id) hnone
    by_cases hid : id = s.nextId
    · right
      simp [hs, List.countP_append, hstage, hid] at hidle ⊢
      omega
    · left
      simp [hs, List.countP_append, hstage, Ne.symm hid]
      omega
  | minted hs hstage =>
    simp [hs, List.countP_append, List.countP_cons, hstage, guardFrom]
    omega
  | throttled hs hstage _ => simp [hs, List.countP_append, List.countP_cons, hstage]
  | failed hs hstage _ => simp [hs, List.countP_append, List.countP_cons, hstage]
  | wake hs hstage => simp [hs, List.countP_append, hstage]
  | markBad hs => simp [hs, List.countP_append, List.countP_cons]
  | @drop before after guard hs =>
    rcases guard.drop_cases s.generation s.idle with hdrop | ⟨-, -, hdrop⟩
    · simp [hs, hdrop, List.countP_append, List.countP_cons]
    · simp [hs, hdrop, List.countP_append, List.countP_cons]
      omega
  | lend key hs =>
    simp [hs, List.countP_append, List.countP_cons]
    omega
  | @returnLent before after key channel hs =>
    rcases returnLent_cases cfg (s.lent key) channel s.generation s.idle with
      hback | ⟨_, _, _, _, hback⟩
    · simp [hs, hback, List.countP_append, List.countP_cons]
    · simp [hs, hback, List.countP_append, List.countP_cons]
      omega
  | dropLent hs => simp [hs, List.countP_append, List.countP_cons]
  | forgetLent key => simp
  | drainIdle => simp
  | tick _ => simp

lemma Next.permits (h : Next cfg s label s') : s'.permits + s'.borrows = s.permits + s.borrows := by
  unfold borrows
  cases h with
  | enter principal reuseIdle => simp [List.countP_append, AcquireStage.permit]
  | permit hs hstage hpos =>
    simp [hs, List.countP_append, hstage, AcquireStage.permit]
    omega
  | pop hs hstage _ _ =>
    rcases hstage with hstage | hstage
    · simp [hs, List.countP_append, hstage, AcquireStage.permit]
      omega
    · simp [hs, List.countP_append, hstage, AcquireStage.permit]
      omega
  | queue hs hstage _ =>
    simp [hs, List.countP_append, hstage, AcquireStage.permit]
  | gate hs hstage _ =>
    simp [hs, List.countP_append, hstage, AcquireStage.permit]
  | mint hs hstage _ =>
    simp [hs, List.countP_append, hstage, AcquireStage.permit]
  | minted hs hstage =>
    simp [hs, List.countP_append, hstage, AcquireStage.permit]
    omega
  | throttled hs hstage _ =>
    simp [hs, List.countP_append, hstage, AcquireStage.permit]
    omega
  | failed hs hstage _ =>
    simp [hs, List.countP_append, hstage, AcquireStage.permit]
    omega
  | wake hs hstage =>
    simp [hs, List.countP_append, hstage, AcquireStage.permit]
  | markBad hs => simp [hs]
  | drop hs =>
    simp [hs]
    omega
  | lend key hs =>
    simp [hs]
    omega
  | returnLent hs => rfl
  | dropLent hs => rfl
  | forgetLent key => rfl
  | drainIdle => rfl
  | tick _ => rfl

/-! ## What the pool noted -/

/-- What is noted of an era is not of a later one, and in the present era it is of a channel that
the last drain did not meet. -/
def Born (generation : UInt64) (mark : ℕ) (born : UInt64) (id : ℕ) : Prop :=
  born.toNat ≤ generation.toNat ∧ (born = generation → mark ≤ id)

/-- What the pool must be for a step: a channel returns under the record of its own loan, a guard
that puts its channel back finds room, and the drains can be counted. -/
def Orderly (cfg : PoolConfig) (s : Pool) : PoolLabel → Prop
  | .dropped guard =>
    guard.bad = false → guard.bornGeneration = s.generation → s.idle.length < cfg.cap
  | .returned key channel => s.lent key ≠ none → s.lastLent key = some channel
  | .drained => s.generation.toNat + 1 < 2 ^ 64
  | _ => True

/-- No channel from `mark` on was there at the last drain. -/
structure Inv (cfg : PoolConfig) (mark : ℕ) (s : Pool) : Prop where
  held_le : ∀ id, s.held id ≤ 1
  held_lt : ∀ id, 0 < s.held id → id < s.nextId
  permits : s.permits + s.borrows = cfg.cap
  idle_le : s.idle.length ≤ cfg.cap
  mark_le : mark ≤ s.nextId
  idle : ∀ c ∈ s.idle, c.principal = c.channel.principal ∧ c.mintedAtMs = c.channel.mintedAtMs ∧
    mark ≤ c.channel.id
  acquires : ∀ a ∈ s.acquires, a.bornIfMinted.toNat ≤ s.generation.toNat ∧
    ∀ id, a.stage = .minting id → Born s.generation mark a.bornIfMinted id
  guards : ∀ g ∈ s.guards, g.principal = g.channel.principal ∧
    g.mintedAtMs = g.channel.mintedAtMs ∧ Born s.generation mark g.bornGeneration g.channel.id
  loans : ∀ key loan, s.lent key = some loan → ∃ c, s.lastLent key = some c ∧
    loan.principal = c.principal ∧ loan.mintedAtMs = c.mintedAtMs ∧
      Born s.generation mark loan.generation c.id

lemma Inv.idle_step (hinv : Inv cfg mark s) (hnext : Next cfg s label s')
    (hok : s.Orderly cfg label) (hdrain : label ≠ .drained) : ∀ c ∈ s'.idle,
    c.principal = c.channel.principal ∧ c.mintedAtMs = c.channel.mintedAtMs ∧
      mark ≤ c.channel.id := by
  intro c hc
  cases hnext with
  | pop _ _ _ htake =>
    exact hinv.idle c ((sublist_of_take htake).subset (List.mem_append_left _ hc))
  | queue _ _ hnone => exact hinv.idle c ((sublist_of_findsNone hnone).subset hc)
  | mint _ _ hnone => exact hinv.idle c ((sublist_of_findsNone hnone).subset hc)
  | @drop before after guard hs =>
    rcases guard.drop_cases s.generation s.idle with hdrop | ⟨-, hborn, hdrop⟩
    · exact hinv.idle c (hdrop ▸ hc)
    · rw [hdrop] at hc
      rcases List.mem_append.mp hc with hc | hc
      · exact hinv.idle c hc
      · obtain rfl := List.mem_singleton.mp hc
        obtain ⟨hprincipal, hminted, -, hmark⟩ := hinv.guards guard (by simp [hs])
        exact ⟨hprincipal, hminted, hmark hborn⟩
  | @returnLent before after key channel hs =>
    rcases returnLent_cases cfg (s.lent key) channel s.generation s.idle with
      hback | ⟨loan, hloan, hborn, -, hback⟩
    · exact hinv.idle c (hback ▸ hc)
    · rw [hback] at hc
      rcases List.mem_append.mp hc with hc | hc
      · exact hinv.idle c hc
      · obtain rfl := List.mem_singleton.mp hc
        obtain ⟨own, hown, hprincipal, hminted, -, hmark⟩ := hinv.loans key loan hloan
        -- the record is that of the channel itself
        have hchannel : s.lastLent key = some channel := hok (by rw [hloan]; simp)
        rw [hown] at hchannel
        obtain rfl := Option.some.inj hchannel
        exact ⟨hprincipal, hminted, hmark hborn⟩
  | drainIdle => exact absurd rfl hdrain
  | _ => exact hinv.idle c hc

lemma Inv.idle_le_step (hinv : Inv cfg mark s) (hnext : Next cfg s label s')
    (hok : s.Orderly cfg label) : s'.idle.length ≤ cfg.cap := by
  have hle := hinv.idle_le
  cases hnext with
  | pop _ _ _ htake =>
    have hrest := (sublist_of_take htake).length_le
    rw [List.length_append] at hrest
    exact (Nat.le_add_right _ _).trans (hrest.trans hle)
  | queue _ _ hnone => exact (sublist_of_findsNone hnone).length_le.trans hle
  | mint _ _ hnone => exact (sublist_of_findsNone hnone).length_le.trans hle
  | @drop before after guard hs =>
    rcases guard.drop_cases s.generation s.idle with hdrop | ⟨hbad, hborn, hdrop⟩
    · show (guard.drop s.generation s.idle).length ≤ cfg.cap
      rw [hdrop]
      exact hle
    · have hroom := hok hbad hborn
      show (guard.drop s.generation s.idle).length ≤ cfg.cap
      rw [hdrop, List.length_append, List.length_singleton]
      exact hroom
  | @returnLent before after key channel hs =>
    show (MaxSecu.returnLent cfg (s.lent key) channel s.generation s.idle).length ≤ cfg.cap
    rcases returnLent_cases cfg (s.lent key) channel s.generation s.idle with
      hback | ⟨_, _, _, hroom, hback⟩
    · rw [hback]
      exact hle
    · rw [hback, List.length_append, List.length_singleton]
      exact hroom
  | drainIdle => exact Nat.zero_le _
  | _ => exact hle

lemma Inv.acquires_step (hinv : Inv cfg mark s) (hnext : Next cfg s label s')
    (hdrain : label ≠ .drained) : ∀ a ∈ s'.acquires,
    a.bornIfMinted.toNat ≤ s'.generation.toNat ∧
      ∀ id, a.stage = .minting id → Born s'.generation mark a.bornIfMinted id := by
  intro x hx
  cases hnext with
  | enter principal reuseIdle =>
    rcases List.mem_append.mp hx with hx | hx
    · exact hinv.acquires x hx
    · obtain rfl := List.mem_singleton.mp hx
      exact ⟨le_rfl, fun _ hstage => by cases hstage⟩
  | permit hs _ _ =>
    rcases mem_of_replaced hs hx with rfl | hx
    · exact ⟨(hinv.acquires _ (mem_of_eq_append hs)).1, fun _ hstage => by cases hstage⟩
    · exact hinv.acquires x hx
  | pop hs _ _ _ => exact hinv.acquires x (mem_of_removed hs hx)
  | queue hs _ _ =>
    rcases mem_of_replaced hs hx with rfl | hx
    · exact ⟨(hinv.acquires _ (mem_of_eq_append hs)).1, fun _ hstage => by cases hstage⟩
    · exact hinv.acquires x hx
  | gate hs _ _ =>
    rcases mem_of_replaced hs hx with rfl | hx
    · exact ⟨(hinv.acquires _ (mem_of_eq_append hs)).1, fun _ hstage => by cases hstage⟩
    · exact hinv.acquires x hx
  | mint hs _ _ =>
    rcases mem_of_replaced hs hx with rfl | hx
    · have hborn := (hinv.acquires _ (mem_of_eq_append hs)).1
      refine ⟨hborn, ?_⟩
      intro id hstage
      obtain rfl := AcquireStage.minting.inj hstage
      exact ⟨hborn, fun _ => hinv.mark_le⟩
    · exact hinv.acquires x hx
  | minted hs _ => exact hinv.acquires x (mem_of_removed hs hx)
  | throttled hs _ _ =>
    rcases mem_of_replaced hs hx with rfl | hx
    · exact ⟨(hinv.acquires _ (mem_of_eq_append hs)).1, fun _ hstage => by cases hstage⟩
    · exact hinv.acquires x hx
  | failed hs _ _ => exact hinv.acquires x (mem_of_removed hs hx)
  | wake hs _ =>
    rcases mem_of_replaced hs hx with rfl | hx
    · exact ⟨(hinv.acquires _ (mem_of_eq_append hs)).1, fun _ hstage => by cases hstage⟩
    · exact hinv.acquires x hx
  | drainIdle => exact absurd rfl hdrain
  | _ => exact hinv.acquires x hx

lemma Inv.guards_step (hinv : Inv cfg mark s) (hnext : Next cfg s label s')
    (hdrain : label ≠ .drained) : ∀ g ∈ s'.guards, g.principal = g.channel.principal ∧
    g.mintedAtMs = g.channel.mintedAtMs ∧
      Born s'.generation mark g.bornGeneration g.channel.id := by
  intro x hx
  cases hnext with
  | pop _ _ _ htake =>
    rcases List.mem_cons.mp hx with rfl | hx
    · obtain ⟨hprincipal, hminted, hmark⟩ := hinv.idle _ (fresh_of_take htake).1
      exact ⟨hprincipal, hminted, le_rfl, fun _ => hmark⟩
    · exact hinv.guards x hx
  | minted hs hstage =>
    rcases List.mem_cons.mp hx with rfl | hx
    · exact ⟨rfl, rfl, (hinv.acquires _ (mem_of_eq_append hs)).2 _ hstage⟩
    · exact hinv.guards x hx
  | @markBad before after guard hs =>
    rcases mem_of_replaced hs hx with rfl | hx
    · exact hinv.guards guard (mem_of_eq_append hs)
    · exact hinv.guards x hx
  | drop hs => exact hinv.guards x (mem_of_removed hs hx)
  | lend key hs => exact hinv.guards x (mem_of_removed hs hx)
  | drainIdle => exact absurd rfl hdrain
  | _ => exact hinv.guards x hx

lemma Inv.loans_step (hinv : Inv cfg mark s) (hnext : Next cfg s label s')
    (hdrain : label ≠ .drained) : ∀ key loan, s'.lent key = some loan →
    ∃ c, s'.lastLent key = some c ∧ loan.principal = c.principal ∧
      loan.mintedAtMs = c.mintedAtMs ∧ Born s'.generation mark loan.generation c.id := by
  intro key loan hloan
  -- a record that is taken away leaves the others
  have hforget : ∀ other, Function.update s.lent other none key = some loan →
      s.lent key = some loan := by
    intro other h
    by_cases heq : key = other
    · rw [heq, Function.update_self] at h
      cases h
    · rwa [Function.update_of_ne heq] at h
  cases hnext with
  | @lend before after guard own hs =>
    by_cases heq : key = own
    · subst heq
      have hown : guard.loan = loan := by simpa using hloan
      subst hown
      obtain ⟨hprincipal, hminted, hborn⟩ := hinv.guards guard (mem_of_eq_append hs)
      exact ⟨guard.channel, Function.update_self .., hprincipal, hminted, hborn⟩
    · have hold : s.lent key = some loan := (Function.update_of_ne heq _ _).symm.trans hloan
      obtain ⟨c, hc, hnoted⟩ := hinv.loans key loan hold
      exact ⟨c, (Function.update_of_ne heq _ _).trans hc, hnoted⟩
  | returnLent _ => exact hinv.loans key loan (hforget _ hloan)
  | forgetLent other => exact hinv.loans key loan (hforget _ hloan)
  | drainIdle => exact absurd rfl hdrain
  | _ => exact hinv.loans key loan hloan

lemma Born.drained {generation born : UInt64} {id mark' : ℕ} (h : Born generation mark born id)
    (hcount : generation.toNat + 1 < 2 ^ 64) : Born (generation + 1) mark' born id := by
  have hsucc : (generation + 1).toNat = generation.toNat + 1 := by
    rw [UInt64.toNat_add]
    exact Nat.mod_eq_of_lt hcount
  refine ⟨by rw [hsucc]; exact Nat.le_succ_of_le h.1, ?_⟩
  intro heq
  have hle := h.1
  rw [heq, hsucc] at hle
  omega

lemma Inv.counts_step (hinv : Inv cfg mark s) (hnext : Next cfg s label s') :
    (∀ id, s'.held id ≤ 1) ∧ (∀ id, 0 < s'.held id → id < s'.nextId) ∧
      s'.permits + s'.borrows = cfg.cap := by
  have hids := hnext.nextId_le
  refine ⟨?_, ?_, hnext.permits.trans hinv.permits⟩
  · intro id
    have hle := hinv.held_le id
    have hlt := hinv.held_lt id
    rcases hnext.held_le id with h | ⟨rfl, -, h⟩
    · exact h.trans hle
    · have hnone : s.held s.nextId = 0 := by omega
      omega
  · intro id hpos
    have hlt := hinv.held_lt id
    rcases hnext.held_le id with h | ⟨rfl, hid, -⟩
    · exact (hlt (by omega)).trans_le hids
    · omega

/-- **Step lemma.**  A step of an orderly pool keeps the invariant, and a drain moves the mark. -/
lemma Inv.step (hinv : Inv cfg mark s) (hnext : Next cfg s label s')
    (hok : s.Orderly cfg label) :
    (label ≠ .drained → Inv cfg mark s') ∧ (label = .drained → Inv cfg s.nextId s') := by
  obtain ⟨hheld, hknown, hpermits⟩ := hinv.counts_step hnext
  constructor
  · intro hdrain
    exact ⟨hheld, hknown, hpermits, hinv.idle_le_step hnext hok,
      hinv.mark_le.trans hnext.nextId_le, hinv.idle_step hnext hok hdrain,
      hinv.acquires_step hnext hdrain, hinv.guards_step hnext hdrain,
      hinv.loans_step hnext hdrain⟩
  · rintro rfl
    cases hnext with
    | drainIdle =>
      refine ⟨hheld, hknown, hpermits, Nat.zero_le _, le_rfl, ?_, ?_, ?_, ?_⟩
      · intro c hc
        cases hc
      · intro a ha
        obtain ⟨hborn, hminting⟩ := hinv.acquires a ha
        have hlater : Born (s.generation + 1) s.nextId a.bornIfMinted 0 := by
          have hbefore : Born s.generation 0 a.bornIfMinted 0 := ⟨hborn, fun _ => le_rfl⟩
          exact hbefore.drained hok
        exact ⟨hlater.1, fun id hstage => (hminting id hstage).drained hok⟩
      · intro g hg
        obtain ⟨hprincipal, hminted, hborn⟩ := hinv.guards g hg
        exact ⟨hprincipal, hminted, hborn.drained hok⟩
      · intro key loan hloan
        obtain ⟨c, hc, hprincipal, hminted, hborn⟩ := hinv.loans key loan hloan
        exact ⟨c, hc, hprincipal, hminted, hborn.drained hok⟩

lemma inv_new (cfg : PoolConfig) (nowMs : ℕ) : Inv cfg 0 (cfg.new nowMs) := by
  refine ⟨?_, ?_, rfl, Nat.zero_le _, le_rfl, ?_, ?_, ?_, ?_⟩
  · intro id
    exact Nat.zero_le _
  · intro id h
    exact absurd h (lt_irrefl 0)
  · intro c hc
    cases hc
  · intro a ha
    cases ha
  · intro g hg
    cases hg
  · intro key loan hloan
    cases hloan

/-- **Run lemma.**  The invariant holds all along an orderly run, and from every drain on no idle
channel is one that the drain met. -/
lemma exists_inv {nowMs : ℕ} {path : List (Pool × PoolLabel)}
    (hrun : LabelledRun (Next cfg) (cfg.new nowMs) path s)
    (hok : ∀ x ∈ path, x.1.Orderly cfg x.2) :
    ∃ mark, Inv cfg mark s ∧ ∀ d, (d, .drained) ∈ path → d.nextId ≤ mark := by
  induction hrun with
  | start => exact ⟨0, inv_new cfg nowMs, by simp⟩
  | @step path t u label hrun hnext ih =>
    obtain ⟨mark, hinv, hdrains⟩ := ih fun x hx => hok x (List.mem_append_left _ hx)
    have hlast : t.Orderly cfg label :=
      hok (t, label) (List.mem_append_right _ (List.mem_singleton_self _))
    by_cases hdrain : label = .drained
    · refine ⟨t.nextId, (hinv.step hnext hlast).2 hdrain, ?_⟩
      intro d hd
      rcases List.mem_append.mp hd with hd | hd
      · exact (hdrains d hd).trans hinv.mark_le
      · obtain ⟨rfl, -⟩ := Prod.mk.inj (List.mem_singleton.mp hd)
        exact le_rfl
    · refine ⟨mark, (hinv.step hnext hlast).1 hdrain, ?_⟩
      intro d hd
      rcases List.mem_append.mp hd with hd | hd
      · exact hdrains d hd
      · obtain ⟨-, hlabel⟩ := Prod.mk.inj (List.mem_singleton.mp hd)
        exact absurd hlabel.symm hdrain

lemma nextId_le_of_run {t : Pool} {path : List (Pool × PoolLabel)}
    (hrun : LabelledRun (Next cfg) t path s) : ∀ x ∈ path, x.1.nextId ≤ s.nextId :=
  (@LabelledRun.extends_end _ _ _ _ _ _ (fun r r' => r.nextId ≤ r'.nextId) (fun _ => le_rfl)
    (fun _ _ _ h h' => h.trans h') (fun _ _ _ hnext => hnext.nextId_le) hrun).2

end Pool

/-- What the pool promises of a run. -/
structure PoolSafe (cfg : PoolConfig) (path : List (Pool × PoolLabel)) (s : Pool) : Prop where
  /-- A borrow gets a channel of its principal that is young enough. -/
  own : ∀ x ∈ path, ∀ channel principal, x.2 = .handed channel principal true →
    channel.principal = principal ∧ x.1.nowMs - channel.mintedAtMs ≤ cfg.reuseWindowMs
  /-- Or one that it minted itself. -/
  minted : ∀ x ∈ path, ∀ channel principal, x.2 = .handed channel principal false →
    channel = ⟨channel.id, principal, x.1.nowMs⟩ ∧
      ∃ a ∈ x.1.acquires, a.stage = .minting channel.id ∧ a.principal = principal
  /-- No channel that anybody had before a drain is handed out after it. -/
  eras : ∀ before d between t channel principal after,
    path = before ++ (d, .drained) :: between ++ (t, .handed channel principal true) :: after →
    ∀ x ∈ before ++ [(d, .drained)], x.1.held channel.id = 0
  single : ∀ t ∈ path.map Prod.fst ++ [s], ∀ id, t.held id ≤ 1
  borrows : ∀ t ∈ path.map Prod.fst ++ [s], t.borrows ≤ cfg.cap
  idle : ∀ t ∈ path.map Prod.fst ++ [s], t.idle.length ≤ cfg.cap

open Pool

/-- **When the pool is safe.**  In every run in which channels return under the records of their own
loans, and guards that put a channel back find room, no borrow gets a channel of another principal,
too old or from before a drain, no channel has two holders, and the cap is kept. -/
theorem authedPool_safe (cfg : PoolConfig) (nowMs : ℕ) {path : List (Pool × PoolLabel)} {s : Pool}
    (hrun : LabelledRun (Pool.Next cfg) (cfg.new nowMs) path s)
    (hok : ∀ x ∈ path, x.1.Orderly cfg x.2) : PoolSafe cfg path s := by
  have hstates : ∀ t ∈ path.map Prod.fst ++ [s], ∃ mark, Inv cfg mark t := by
    intro t ht
    rcases List.mem_append.mp ht with ht | ht
    · obtain ⟨x, hx, rfl⟩ := List.mem_map.mp ht
      obtain ⟨before, after, u, rfl, hbefore, -⟩ := hrun.of_mem hx
      obtain ⟨mark, hinv, -⟩ := exists_inv hbefore fun y hy => hok y (List.mem_append_left _ hy)
      exact ⟨mark, hinv⟩
    · obtain rfl := List.mem_singleton.mp ht
      obtain ⟨mark, hinv, -⟩ := exists_inv hrun hok
      exact ⟨mark, hinv⟩
  refine ⟨?_, ?_, ?_, ?_, ?_, ?_⟩
  · rintro ⟨t, label⟩ hx channel principal rfl
    obtain ⟨mark, hinv⟩ := hstates t (List.mem_append_left _ (List.mem_map_of_mem hx))
    obtain ⟨before, after, u, -, -, hnext⟩ := hrun.of_mem hx
    obtain ⟨conn, rest, rfl, htake⟩ := hnext.reused
    obtain ⟨hidle, hprincipal, hfresh⟩ := fresh_of_take htake
    obtain ⟨hnoted, hmintedAt, -⟩ := hinv.idle conn hidle
    rw [hnoted] at hprincipal
    rw [hmintedAt] at hfresh
    exact ⟨hprincipal, hfresh⟩
  · rintro ⟨t, label⟩ hx channel principal rfl
    obtain ⟨before, after, u, -, -, hnext⟩ := hrun.of_mem hx
    exact hnext.fresh
  · rintro before d between t channel principal after rfl x hx
    have hmem : (t, PoolLabel.handed channel principal true) ∈ before ++ (d, .drained) :: between ++
        (t, .handed channel principal true) :: after :=
      List.mem_append_right _ List.mem_cons_self
    obtain ⟨-, -, u, -, -, hnext⟩ := hrun.of_mem hmem
    have hbefore := hrun.before
    obtain ⟨mark, hinv, hdrains⟩ := exists_inv hbefore fun y hy =>
      hok y (List.mem_append_left _ hy)
    have hmark : d.nextId ≤ mark :=
      hdrains d (List.mem_append_right _ List.mem_cons_self)
    obtain ⟨conn, rest, rfl, htake⟩ := hnext.reused
    have hnew : mark ≤ conn.channel.id := (hinv.idle conn (fresh_of_take htake).1).2.2
    -- whoever had a channel before the drain had one with a smaller number
    have hdrained : LabelledRun (Pool.Next cfg) (cfg.new nowMs) before d := by
      rw [List.append_assoc] at hrun
      exact hrun.before
    have hsmall : ∀ r ∈ before.map Prod.fst ++ [d], r.nextId ≤ d.nextId := by
      intro r hr
      rcases List.mem_append.mp hr with hr | hr
      · obtain ⟨y, hy, rfl⟩ := List.mem_map.mp hr
        exact nextId_le_of_run hdrained y hy
      · rw [List.mem_singleton.mp hr]
    have hxr : x.1 ∈ before.map Prod.fst ++ [d] := by
      rcases List.mem_append.mp hx with hx | hx
      · exact List.mem_append_left _ (List.mem_map_of_mem hx)
      · rw [List.mem_singleton.mp hx]
        exact List.mem_append_right _ (List.mem_singleton_self _)
    have hstate : x.1 ∈ (before ++ (d, .drained) :: between ++
        (t, .handed conn.channel principal true) :: after).map Prod.fst ++ [s] := by
      simp only [List.map_append, List.map_cons, List.mem_append, List.mem_cons] at hxr ⊢
      tauto
    obtain ⟨earlier, hearlier⟩ := hstates x.1 hstate
    have hle := hsmall x.1 hxr
    by_contra hheld
    have hlt := hearlier.held_lt conn.channel.id (Nat.pos_of_ne_zero hheld)
    omega
  · intro t ht
    obtain ⟨mark, hinv⟩ := hstates t ht
    exact hinv.held_le
  · intro t ht
    obtain ⟨mark, hinv⟩ := hstates t ht
    have hpermits := hinv.permits
    omega
  · intro t ht
    obtain ⟨mark, hinv⟩ := hstates t ht
    exact hinv.idle_le

/-! ## Closed runs -/

section ClosedRuns

variable {cfg : PoolConfig} {start s : Pool} {path : List (Pool × PoolLabel)}

/-- The pool after a borrow that minted its channel. -/
def Pool.borrowed (s : Pool) (principal : Principal) : Pool :=
  { s with
    permits := s.permits - 1
    nextId := s.nextId + 1
    guards := guardFrom ⟨⟨s.nextId, principal, s.nowMs⟩, s.nowMs, principal⟩ s.generation ::
      s.guards }

/-- The pool after the newest guard was lent. -/
def Pool.lentUnder (s : Pool) (key : String) (guard : PooledGuard) (rest : List PooledGuard) :
    Pool :=
  { s with
    lent := Function.update s.lent key (some guard.loan)
    permits := s.permits + 1
    guards := rest
    lentOut := (key, guard.channel) :: s.lentOut
    lastLent := Function.update s.lastLent key (some guard.channel) }

def Pool.mintingBorrow (s : Pool) (principal : Principal) (stage : AcquireStage) : Acquire :=
  ⟨principal, false, s.generation, THROTTLE_MAX_RETRIES, stage⟩

/-- The pool while it makes such a borrow. -/
def Pool.during (s : Pool) (principal : Principal) (permits : ℕ) (gateFree : Bool) (nextId : ℕ)
    (stage : AcquireStage) : Pool :=
  { s with
    permits := permits
    gateFree := gateFree
    nextId := nextId
    acquires := [s.mintingBorrow principal stage] }

lemma exists_borrow (hrun : LabelledRun (Pool.Next cfg) start path s) (principal : Principal)
    (hacquires : s.acquires = []) (hpermits : 0 < s.permits) (hgate : s.gateFree = true) :
    ∃ more, LabelledRun (Pool.Next cfg) start (path ++ more) (s.borrowed principal) ∧
      ∀ x ∈ more, x.1.Orderly cfg x.2 := by
  have hentered : Pool.Next cfg s .silent
      (s.during principal s.permits true s.nextId .entered) := by
    have hnext := @Pool.Next.enter cfg s principal false
    rw [hacquires, List.nil_append] at hnext
    unfold Pool.during
    rw [← hgate]
    exact hnext
  have hpermitted : Pool.Next cfg (s.during principal s.permits true s.nextId .entered) .silent
      (s.during principal (s.permits - 1) true s.nextId .permitted) :=
    @Pool.Next.permit cfg _ [] [] (s.mintingBorrow principal .entered) rfl rfl hpermits
  have hqueued : Pool.Next cfg (s.during principal (s.permits - 1) true s.nextId .permitted)
      .silent (s.during principal (s.permits - 1) true s.nextId .atGate) :=
    @Pool.Next.queue cfg _ [] [] (s.mintingBorrow principal .permitted) _ rfl rfl rfl
  have hgated : Pool.Next cfg (s.during principal (s.permits - 1) true s.nextId .atGate) .silent
      (s.during principal (s.permits - 1) false s.nextId .gated) :=
    @Pool.Next.gate cfg _ [] [] (s.mintingBorrow principal .atGate) rfl rfl rfl
  have hminting : Pool.Next cfg (s.during principal (s.permits - 1) false s.nextId .gated) .silent
      (s.during principal (s.permits - 1) false (s.nextId + 1) (.minting s.nextId)) :=
    @Pool.Next.mint cfg _ [] [] (s.mintingBorrow principal .gated) _ rfl rfl rfl
  have hminted : Pool.Next cfg
      (s.during principal (s.permits - 1) false (s.nextId + 1) (.minting s.nextId))
      (.handed ⟨s.nextId, principal, s.nowMs⟩ principal false) (s.borrowed principal) := by
    have hnext := @Pool.Next.minted cfg
      (s.during principal (s.permits - 1) false (s.nextId + 1) (.minting s.nextId)) [] []
      (s.mintingBorrow principal (.minting s.nextId)) s.nextId rfl rfl
    unfold Pool.borrowed
    rw [← hgate, List.nil_append, ← hacquires] at hnext
    exact hnext
  have hall := (((((hrun.step hentered).step hpermitted).step hqueued).step hgated).step
    hminting).step hminted
  rw [List.append_assoc, List.append_assoc, List.append_assoc, List.append_assoc,
    List.append_assoc] at hall
  refine ⟨_, hall, ?_⟩
  intro x hx
  simp only [List.cons_append, List.nil_append, List.mem_cons, List.not_mem_nil, or_false] at hx
  rcases hx with rfl | rfl | rfl | rfl | rfl | rfl
  all_goals trivial

lemma next_lentUnder {guard : PooledGuard} {rest : List PooledGuard} (key : String)
    (hguards : s.guards = guard :: rest) :
    Pool.Next cfg s .silent (s.lentUnder key guard rest) :=
  @Pool.Next.lend cfg s [] rest guard key hguards

def aliceLogin : Principal := .user "alice"

def bobLogin : Principal := .user "bob"

/-- Alice's channel is idle after her first borrow, and her second one takes it. -/
theorem authedPool_safe_reused : ∃ path s,
    LabelledRun (Pool.Next (.production 2)) (PoolConfig.new (.production 2) 0) path s ∧
      (∃ t, (t, .handed ⟨0, aliceLogin, 0⟩ aliceLogin true) ∈ path) ∧
        PoolSafe (.production 2) path s := by
  let cfg := PoolConfig.production 2
  obtain ⟨first, hfirst, horderly⟩ := exists_borrow (LabelledRun.start : LabelledRun
    (Pool.Next cfg) (cfg.new 0) [] _) aliceLogin rfl (by decide) rfl
  have hdropped := hfirst.step (@Pool.Next.drop cfg _ [] []
    ⟨⟨0, aliceLogin, 0⟩, 0, aliceLogin, 0, false⟩ rfl)
  have hentered := hdropped.step (.enter aliceLogin true)
  have hpermitted := hentered.step (@Pool.Next.permit cfg _ [] []
    ⟨aliceLogin, true, 0, 1, .entered⟩ rfl rfl (by decide))
  have hpopped := hpermitted.step (@Pool.Next.pop cfg _ [] [] ⟨aliceLogin, true, 0, 1, .permitted⟩
    ⟨⟨0, aliceLogin, 0⟩, 0, aliceLogin⟩ [] rfl (.inl rfl) rfl rfl)
  refine ⟨_, _, hpopped, ⟨_, List.mem_append_right _ (List.mem_singleton_self _)⟩, ?_⟩
  refine authedPool_safe cfg 0 hpopped ?_
  intro x hx
  simp only [List.nil_append, List.mem_append, List.mem_singleton] at hx
  rcases hx with (((hx | rfl) | rfl) | rfl) | rfl
  · exact horderly x hx
  · intro hbad hborn
    exact Nat.zero_lt_two
  all_goals trivial

/-- Alice's channel of a video comes back after Bob has opened the same video. -/
theorem authedPool_superseded :
    ¬ ∀ (cfg : PoolConfig) (nowMs : ℕ) (path : List (Pool × PoolLabel)) (s : Pool),
      LabelledRun (Pool.Next cfg) (cfg.new nowMs) path s → PoolSafe cfg path s := by
  intro hclaim
  let cfg := PoolConfig.production 2
  obtain ⟨first, hfirst, -⟩ := exists_borrow (LabelledRun.start : LabelledRun (Pool.Next cfg)
    (cfg.new 0) [] _) aliceLogin rfl (by decide) rfl
  have hlent := hfirst.step (next_lentUnder "video" rfl)
  obtain ⟨second, hsecond, -⟩ := exists_borrow hlent bobLogin rfl (by decide) rfl
  have hboth := hsecond.step (next_lentUnder "video" rfl)
  -- the record of the key is that of Bob's channel
  have hback := hboth.step (@Pool.Next.returnLent cfg _ [_] [] "video" ⟨0, aliceLogin, 0⟩ rfl)
  have hentered := hback.step (.enter bobLogin true)
  have hpermitted := hentered.step (@Pool.Next.permit cfg _ [] []
    ⟨bobLogin, true, 0, 1, .entered⟩ rfl rfl (by decide))
  have hpopped := hpermitted.step (@Pool.Next.pop cfg _ [] [] ⟨bobLogin, true, 0, 1, .permitted⟩
    ⟨⟨0, aliceLogin, 0⟩, 0, bobLogin⟩ [] rfl (.inl rfl) rfl rfl)
  have hsafe := hclaim _ _ _ _ hpopped
  obtain ⟨hown, -⟩ := hsafe.own _ (List.mem_append_right _ (List.mem_singleton_self _)) _ _ rfl
  exact absurd hown (by decide)

end ClosedRuns

end MaxSecu
