import MaxSecu.Server.WindowPeaks

/-!
# Grants by users who are revoked soon after

The rule keeps one revocation time for each user, the earliest.  A user may be revoked, reinstated and
revoked again: a grant in between is followed by a revocation that the rule does not see.
`analyze_soonRevoked_iff` says when what it reports is what the events hold.
-/

namespace MaxSecu

namespace Detect

/-- Some revocation of the user lies between the two times. -/
def revokedWithin (events : List AuditEvent) (userId : Id) (lo hi : ℕ) : Bool :=
  events.any fun
    | .userRevoked revoked atMs => revoked = userId && lo ≤ atMs.toNat && atMs.toNat ≤ hi
    | _ => false

/-- The grant of an event whose granter was revoked soon after it. -/
def grantOfSoonRevoked (events : List AuditEvent) (t : Thresholds) :
    AuditEvent → Option (Id × Id × Id)
  | .grant grantedBy recipientId action fileId atMs =>
    if action ≠ .softRevoke ∧ revokedWithin events grantedBy atMs.toNat
        (atMs.toNat + t.soonRevokedWindowMs.toNat) = true then
      some (grantedBy, recipientId, fileId)
    else none
  | _ => none

/-- No granter who was revoked soon after a grant had been revoked before it. -/
def FirstRevocation (events : List AuditEvent) (t : Thresholds) : Prop :=
  ∀ grantedBy recipientId action fileId atMs,
    .grant grantedBy recipientId action fileId atMs ∈ events → action ≠ .softRevoke →
      ∀ first soon : UInt64, .userRevoked grantedBy first ∈ events →
        .userRevoked grantedBy soon ∈ events → atMs.toNat ≤ soon.toNat →
          soon.toNat ≤ atMs.toNat + t.soonRevokedWindowMs.toNat → atMs.toNat ≤ first.toNat

variable {events : List AuditEvent} {t : Thresholds}

lemma revokedWithin_iff {userId : Id} {lo hi : ℕ} :
    revokedWithin events userId lo hi = true ↔
      ∃ atMs : UInt64, .userRevoked userId atMs ∈ events ∧ lo ≤ atMs.toNat ∧ atMs.toNat ≤ hi := by
  unfold revokedWithin
  rw [List.any_eq_true]
  constructor
  · intro h
    obtain ⟨e, he, hin⟩ := h
    split at hin
    · simp only [Bool.and_eq_true, decide_eq_true_eq] at hin
      obtain ⟨⟨rfl, hlo⟩, hhi⟩ := hin
      exact ⟨_, he, hlo, hhi⟩
    · exact absurd hin (by simp)
  · intro h
    obtain ⟨atMs, he, hlo, hhi⟩ := h
    exact ⟨_, he, by simp [hlo, hhi]⟩

lemma min_spec (a b : UInt64) :
    (min a b = a ∨ min a b = b) ∧ (min a b).toNat ≤ a.toNat ∧ (min a b).toNat ≤ b.toNat := by
  have hmin : min a b = if a ≤ b then a else b := rfl
  by_cases hle : a ≤ b
  · rw [hmin, if_pos hle]
    exact ⟨Or.inl rfl, le_rfl, UInt64.le_iff_toNat_le.mp hle⟩
  · rw [hmin, if_neg hle]
    exact ⟨Or.inr rfl, (Nat.lt_of_not_le fun h => hle (UInt64.le_iff_toNat_le.mpr h)).le, le_rfl⟩

/-- The time kept for a user is one of their revocations and no later than any of them. -/
structure Earliest (events : List AuditEvent) (userId : Id) (kept : Option UInt64) : Prop where
  mem : ∀ rev ∈ kept, .userRevoked userId rev ∈ events
  le : ∀ atMs, .userRevoked userId atMs ∈ events → ∃ rev ∈ kept, rev.toNat ≤ atMs.toNat

lemma Earliest.record {revokedAt : AList fun _ : Id => UInt64} {userId : Id} (e : AuditEvent)
    (h : Earliest events userId (revokedAt.lookup userId)) :
    Earliest (events ++ [e]) userId ((recordRevoked revokedAt e).lookup userId) := by
  obtain ⟨hmem, hle⟩ := h
  by_cases hrevoked : ∃ atMs, e = .userRevoked userId atMs
  · obtain ⟨atMs, rfl⟩ := hrevoked
    have hlookup : (recordRevoked revokedAt (.userRevoked userId atMs)).lookup userId =
        some ((revokedAt.lookup userId).elim atMs fun t => min t atMs) := AList.lookup_insert _
    rw [hlookup]
    cases hkept : revokedAt.lookup userId with
    | none =>
      rw [hkept] at hle
      refine ⟨?_, ?_⟩
      · intro rev hrev
        obtain rfl := Option.some.inj hrev
        exact List.mem_append_right _ List.mem_cons_self
      · intro at' hat
        rcases List.mem_append.mp hat with hat | hat
        · obtain ⟨rev, hrev, -⟩ := hle at' hat
          exact absurd hrev (by simp)
        · obtain rfl := (AuditEvent.userRevoked.inj (List.mem_singleton.mp hat)).2
          exact ⟨_, rfl, le_rfl⟩
    | some kept =>
      rw [hkept] at hmem hle
      obtain ⟨hmin, hleft, hright⟩ := min_spec kept atMs
      refine ⟨?_, ?_⟩
      · intro rev hrev
        obtain rfl := Option.some.inj hrev
        show AuditEvent.userRevoked userId (min kept atMs) ∈ _
        rcases hmin with hmin | hmin
        · rw [hmin]
          exact List.mem_append_left _ (hmem kept rfl)
        · rw [hmin]
          exact List.mem_append_right _ List.mem_cons_self
      · intro at' hat
        refine ⟨_, rfl, ?_⟩
        show (min kept atMs).toNat ≤ at'.toNat
        rcases List.mem_append.mp hat with hat | hat
        · obtain ⟨rev, hrev, hrevle⟩ := hle at' hat
          obtain rfl := Option.some.inj hrev
          exact hleft.trans hrevle
        · obtain rfl := (AuditEvent.userRevoked.inj (List.mem_singleton.mp hat)).2
          exact hright
  · -- The event is not a revocation of the user, and what is kept for them stays.
    have hlookup : (recordRevoked revokedAt e).lookup userId = revokedAt.lookup userId := by
      unfold recordRevoked
      split
      · rename_i other atMs
        refine AList.lookup_insert_ne ?_
        rintro rfl
        exact hrevoked ⟨atMs, rfl⟩
      · rfl
    rw [hlookup]
    refine ⟨fun rev hrev => List.mem_append_left _ (hmem rev hrev), ?_⟩
    intro atMs hat
    rcases List.mem_append.mp hat with hat | hat
    · exact hle atMs hat
    · exact absurd ⟨atMs, (List.mem_singleton.mp hat).symm⟩ hrevoked

lemma earliest_foldl (events more : List AuditEvent) {revokedAt : AList fun _ : Id => UInt64}
    {userId : Id} (h : Earliest events userId (revokedAt.lookup userId)) :
    Earliest (events ++ more) userId ((more.foldl recordRevoked revokedAt).lookup userId) := by
  induction more generalizing events revokedAt with
  | nil =>
    rw [List.append_nil]
    exact h
  | cons e more ih =>
    rw [List.foldl_cons, List.append_cons]
    exact ih _ (h.record e)

lemma earliest (events : List AuditEvent) (userId : Id) :
    Earliest events userId ((events.foldl recordRevoked ∅).lookup userId) :=
  earliest_foldl [] events ⟨by simp, by simp⟩

/-- What the rule reports of a grant: it is soon revoked by its granter's earliest revocation. -/
lemma soonRevoked_grant {grantedBy recipientId fileId : Id} {action : GrantAction}
    {atMs : UInt64} :
    (soonRevoked (events.foldl recordRevoked ∅) t
        (.grant grantedBy recipientId action fileId atMs)).bind Alert.soonRevokedGrant =
      if action ≠ .softRevoke ∧ ∃ rev ∈ (events.foldl recordRevoked ∅).lookup grantedBy,
          atMs.toNat ≤ rev.toNat ∧ rev.toNat ≤ atMs.toNat + t.soonRevokedWindowMs.toNat then
        some (grantedBy, recipientId, fileId)
      else none := by
  unfold soonRevoked
  dsimp only
  by_cases haction : action = .softRevoke
  · rw [if_pos haction, if_neg fun h => h.1 haction]
    rfl
  · rw [if_neg haction]
    cases hkept : (events.foldl recordRevoked ∅).lookup grantedBy with
    | none =>
      rw [if_neg]
      · rfl
      · rintro ⟨-, rev, hrev, -⟩
        exact absurd hrev (by simp)
    | some rev =>
      have hwindow : (rev ≥ atMs ∧ rev - atMs ≤ t.soonRevokedWindowMs) ↔
          atMs.toNat ≤ rev.toNat ∧ rev.toNat ≤ atMs.toNat + t.soonRevokedWindowMs.toNat := by
        rw [ge_iff_le, UInt64.le_iff_toNat_le, UInt64.le_iff_toNat_le]
        refine and_congr_right fun hle => ?_
        rw [UInt64.toNat_sub_of_le _ _ (UInt64.le_iff_toNat_le.mpr hle)]
        omega
      by_cases hin : atMs.toNat ≤ rev.toNat ∧ rev.toNat ≤ atMs.toNat + t.soonRevokedWindowMs.toNat
      · rw [if_pos ⟨haction, rev, rfl, hin⟩]
        show (if _ then some _ else none : Option Alert).bind _ = _
        rw [if_pos (hwindow.mpr hin)]
        rfl
      · rw [if_neg]
        · show (if _ then some _ else none : Option Alert).bind _ = _
          rw [if_neg fun h => hin (hwindow.mp h)]
          rfl
        · rintro ⟨-, rev', hrev', hin'⟩
          obtain rfl := Option.some.inj hrev'
          exact hin hin'

lemma filterMap_eq_iff {β γ : Type} {f g : β → Option γ} {l : List β}
    (hdrops : ∀ b ∈ l, f b = none ∨ f b = g b) :
    l.filterMap f = l.filterMap g ↔ ∀ b ∈ l, f b = g b := by
  have hlength : ∀ l : List β, (∀ b ∈ l, f b = none ∨ f b = g b) →
      (l.filterMap f).length ≤ (l.filterMap g).length := by
    intro l hl
    induction l with
    | nil => exact le_rfl
    | cons b l ih =>
      have hrest := ih fun b hb => hl b (List.mem_cons_of_mem _ hb)
      rcases hl b List.mem_cons_self with hb | hb
      · rw [List.filterMap_cons_none hb, List.filterMap_cons]
        cases g b with
        | none => exact hrest
        | some c => exact hrest.trans (Nat.le_succ _)
      · rw [List.filterMap_cons, List.filterMap_cons, hb]
        cases g b with
        | none => exact hrest
        | some c => exact Nat.succ_le_succ hrest
  constructor
  · intro h
    induction l with
    | nil => simp
    | cons b l ih =>
      have hrest := hlength l fun b hb => hdrops b (List.mem_cons_of_mem _ hb)
      have hfirst : f b = g b := by
        rcases hdrops b List.mem_cons_self with hb | hb
        · cases hg : g b with
          | none => exact hb
          | some c =>
            have := congrArg List.length h
            rw [List.filterMap_cons_none hb, List.filterMap_cons_some hg, List.length_cons] at this
            omega
        · exact hb
      have htail : l.filterMap f = l.filterMap g := by
        rw [List.filterMap_cons, List.filterMap_cons, hfirst] at h
        cases hg : g b with
        | none =>
          rw [hg] at h
          exact h
        | some c =>
          rw [hg] at h
          exact (List.cons.inj h).2
      intro a ha
      rcases List.mem_cons.mp ha with rfl | ha
      · exact hfirst
      · exact ih (fun b hb => hdrops b (List.mem_cons_of_mem _ hb)) htail a ha
  · intro h
    exact List.filterMap_congr h

abbrev reported (events : List AuditEvent) (t : Thresholds) (e : AuditEvent) :
    Option (Id × Id × Id) :=
  (soonRevoked (events.foldl recordRevoked ∅) t e).bind Alert.soonRevokedGrant

lemma reported_eq_none_or (e : AuditEvent) :
    reported events t e = none ∨ reported events t e = grantOfSoonRevoked events t e := by
  rcases e with _ | ⟨grantedBy, recipientId, action, fileId, atMs⟩ | _ | _ | _ | _
  case grant =>
    rw [reported, soonRevoked_grant]
    split
    · rename_i h
      obtain ⟨haction, rev, hrev, hlo, hhi⟩ := h
      right
      have hwithin := revokedWithin_iff.mpr
        ⟨rev, (earliest events grantedBy).mem rev hrev, hlo, hhi⟩
      exact (if_pos ⟨haction, hwithin⟩).symm
    · exact Or.inl rfl
  all_goals exact Or.inl rfl

lemma reported_eq_iff :
    (∀ e ∈ events, reported events t e = grantOfSoonRevoked events t e) ↔
      FirstRevocation events t := by
  constructor
  · intro h grantedBy recipientId action fileId atMs he haction first soon hfirst hsoon hlo hhi
    have heq := h _ he
    have hgrant : grantOfSoonRevoked events t
        (.grant grantedBy recipientId action fileId atMs) = some (grantedBy, recipientId, fileId) :=
      if_pos ⟨haction, revokedWithin_iff.mpr ⟨soon, hsoon, hlo, hhi⟩⟩
    rw [hgrant, reported, soonRevoked_grant] at heq
    split at heq
    · rename_i hkept
      obtain ⟨-, rev, hrev, hrevlo, -⟩ := hkept
      obtain ⟨rev', hrev', hle⟩ := (earliest events grantedBy).le first hfirst
      rw [Option.mem_unique hrev' hrev] at hle
      exact hrevlo.trans hle
    · exact absurd heq (by simp)
  · intro h e he
    rcases e with _ | ⟨grantedBy, recipientId, action, fileId, atMs⟩ | _ | _ | _ | _
    case grant =>
      rw [reported, soonRevoked_grant]
      refine if_congr (and_congr_right fun haction => ?_) rfl rfl
      rw [revokedWithin_iff]
      constructor
      · intro hkept
        obtain ⟨rev, hrev, hlo, hhi⟩ := hkept
        exact ⟨rev, (earliest events grantedBy).mem rev hrev, hlo, hhi⟩
      · intro hsoon
        obtain ⟨soon, hsoon, hlo, hhi⟩ := hsoon
        obtain ⟨rev, hrev, hle⟩ := (earliest events grantedBy).le soon hsoon
        have hmem := (earliest events grantedBy).mem rev hrev
        exact ⟨rev, hrev, h _ _ _ _ _ he haction rev soon hmem hsoon hlo hhi, hle.trans hhi⟩
    all_goals rfl

end Detect

open Detect in
/-- The analysis reports exactly the grants by users who are revoked soon after, in the order of the
events, if and only if no window that it forms overflows and no such granter had already been
revoked before the grant. -/
theorem analyze_soonRevoked_iff (events : List AuditEvent) (t : Thresholds) :
    (∃ alerts, analyze events t = some alerts ∧
        alerts.filterMap Alert.soonRevokedGrant =
          events.filterMap (grantOfSoonRevoked events t)) ↔
      Fits events t ∧ FirstRevocation events t := by
  have hcode : (grantBySoonRevoked events t).filterMap Alert.soonRevokedGrant =
      events.filterMap (reported events t) := List.filterMap_filterMap
  have hagree := (filterMap_eq_iff (l := events) (f := reported events t)
    (g := grantOfSoonRevoked events t) fun e _ => reported_eq_none_or e).trans reported_eq_iff
  constructor
  · intro h
    obtain ⟨alerts, halerts, heq⟩ := h
    obtain ⟨-, -, -, -, -, -, hkind⟩ := analyze_eq_some halerts
    rw [hkind, hcode] at heq
    exact ⟨exists_analyze_iff.mp ⟨alerts, halerts⟩, hagree.mp heq⟩
  · intro h
    obtain ⟨alerts, halerts⟩ := exists_analyze_iff.mpr h.1
    obtain ⟨-, -, -, -, -, -, hkind⟩ := analyze_eq_some halerts
    refine ⟨alerts, halerts, ?_⟩
    rw [hkind, hcode]
    exact hagree.mpr h.2

namespace Detect

/-- A user is revoked, reinstated, grants a file and is revoked again a second later. -/
def revokedTwice : List AuditEvent :=
  [.userRevoked ⟨List.Vector.replicate 16 1⟩ 1000,
    .grant ⟨List.Vector.replicate 16 1⟩ ⟨List.Vector.replicate 16 2⟩ .reshare
      ⟨List.Vector.replicate 16 3⟩ 5000,
    .userRevoked ⟨List.Vector.replicate 16 1⟩ 6000]

end Detect

open Detect in
theorem analyze_revokedTwice :
    analyze revokedTwice .default = some [] ∧
      revokedTwice.filterMap (grantOfSoonRevoked revokedTwice .default) =
        [(⟨List.Vector.replicate 16 1⟩, ⟨List.Vector.replicate 16 2⟩,
          ⟨List.Vector.replicate 16 3⟩)] := by
  decide +kernel

end MaxSecu
