import MaxSecu.Server.Queries
import MaxSecu.Server.RateLimit

/-!
# Anomaly detection over the audit events

A batch of audit events, in any order, is turned into alerts, rule by rule.  The two rules that count
events in a sliding window sort the times and move two pointers over them; a window whose right edge
does not fit in 64 bits makes the analysis panic.  `analyze_eq_some` takes an analysis apart: its
alerts of one kind are those of one rule.
-/

namespace MaxSecu

open AscendingList

inductive GrantAction
  | author
  | reshare
  | softRevoke
  deriving DecidableEq, Repr

inductive AuditEvent
  | authDenied (userId : Id) (atMs : UInt64)
  | grant (grantedBy recipientId : Id) (action : GrantAction) (fileId : Id) (atMs : UInt64)
  | userRevoked (userId : Id) (atMs : UInt64)
  | tombstoneGapReported (reportedBy : Id) (atMs : UInt64)
  | versionFinalized (fileId : Id) (version : UInt64) (recoveryPresent : Bool) (atMs : UInt64)
  | directoryBindingChanged (userId : Id) (keyVersion atMs : UInt64)
  deriving DecidableEq

inductive Alert
  | authFailureSpike (count : ℕ) (windowMs : UInt64)
  | highReshareFanout (grantedBy : Id) (count : ℕ) (windowMs : UInt64)
  | grantBySoonRevoked (grantedBy recipientId fileId : Id)
  | tombstoneGap (reportedBy : Id)
  | missingRecoveryGrant (fileId : Id) (version : UInt64)
  | directoryChangeOffCeremony (userId : Id) (atMs : UInt64)
  deriving DecidableEq

structure Thresholds where
  authFailuresPerWindow : UInt64
  authWindowMs : UInt64
  reshareFanoutPerWindow : UInt64
  reshareWindowMs : UInt64
  soonRevokedWindowMs : UInt64
  ceremonyWindows : List (UInt64 × UInt64)

def Thresholds.default : Thresholds where
  authFailuresPerWindow := 20
  authWindowMs := 60000
  reshareFanoutPerWindow := 10
  reshareWindowMs := 3600000
  soonRevokedWindowMs := 86400000
  ceremonyWindows := []

namespace Detect

/-! ## The sweep -/

/-- Move the right pointer past the times before the right edge of the window that starts at
`leftTime`; the times from the pointer on are given. -/
def advanceRight (leftTime window : UInt64) : List UInt64 → ℕ → Option ℕ
  | [], right => some right
  | next :: rest, right => do
    let edge ← checkedAdd leftTime window
    if next < edge then advanceRight leftTime window rest (right + 1) else some right

/-- The loop over the left edges, from the index `left` on. -/
def sweepFrom (times : List UInt64) (window : UInt64) :
    List UInt64 → (left right peak : ℕ) → Option ℕ
  | [], _, _, peak => some peak
  | leftTime :: rest, left, right, peak => do
    let right := if right < left then left else right
    let right ← advanceRight leftTime window (times.drop right) right
    sweepFrom times window rest (left + 1) right (max peak (right - left))

/-- The peak count of a window over the times, which are sorted first. -/
def sweep (times : List UInt64) (window : UInt64) : Option ℕ :=
  let sorted := sortBy UInt64.toNat times
  sweepFrom sorted window sorted 0 0 0

/-! ## The rules -/

def AuditEvent.deniedAt : AuditEvent → Option UInt64
  | .authDenied _ atMs => some atMs
  | _ => none

def authFailureSpike (events : List AuditEvent) (t : Thresholds) : Option (List Alert) := do
  let peak ← sweep (events.filterMap AuditEvent.deniedAt) t.authWindowMs
  if t.authFailuresPerWindow.toNat < peak then
    some [.authFailureSpike peak t.authWindowMs]
  else
    some []

/-- Add the time of a re-share to those of its granter. -/
def pushReshare (byGranter : AList fun _ : Id => List UInt64) :
    AuditEvent → AList fun _ : Id => List UInt64
  | .grant grantedBy _ .reshare _ atMs =>
    byGranter.insert grantedBy ((byGranter.lookup grantedBy).getD [] ++ [atMs])
  | _ => byGranter

/-- The granter with the peak of their re-shares, if it exceeds the threshold. -/
def fanoutHit (t : Thresholds) (granter : Id) (times : List UInt64) :
    Option (Option (Id × ℕ)) := do
  let peak ← sweep times t.reshareWindowMs
  some (if t.reshareFanoutPerWindow.toNat < peak then some (granter, peak) else none)

def highReshareFanout (events : List AuditEvent) (t : Thresholds) : Option (List Alert) := do
  let byGranter := events.foldl pushReshare ∅
  let hits ← byGranter.entries.mapM fun e => fanoutHit t e.1 e.2
  some ((sortBy (fun hit => hit.1.sortKey) (hits.filterMap id)).map fun hit =>
    .highReshareFanout hit.1 hit.2 t.reshareWindowMs)

/-- Keep the earliest revocation of each user. -/
def recordRevoked (revokedAt : AList fun _ : Id => UInt64) :
    AuditEvent → AList fun _ : Id => UInt64
  | .userRevoked userId atMs =>
    revokedAt.insert userId ((revokedAt.lookup userId).elim atMs fun t => min t atMs)
  | _ => revokedAt

/-- The alert for a grant whose granter has a revocation time that is soon after it. -/
def soonRevoked (revokedAt : AList fun _ : Id => UInt64) (t : Thresholds) :
    AuditEvent → Option Alert
  | .grant grantedBy recipientId action fileId atMs =>
    if action = .softRevoke then none
    else
      match revokedAt.lookup grantedBy with
      | some rev =>
        if rev ≥ atMs ∧ rev - atMs ≤ t.soonRevokedWindowMs then
          some (.grantBySoonRevoked grantedBy recipientId fileId)
        else none
      | none => none
  | _ => none

def grantBySoonRevoked (events : List AuditEvent) (t : Thresholds) : List Alert :=
  events.filterMap (soonRevoked (events.foldl recordRevoked ∅) t)

def tombstoneGaps (events : List AuditEvent) : List Alert :=
  events.filterMap fun
    | .tombstoneGapReported reportedBy _ => some (.tombstoneGap reportedBy)
    | _ => none

def missingRecoveryGrants (events : List AuditEvent) : List Alert :=
  events.filterMap fun
    | .versionFinalized fileId version false _ => some (.missingRecoveryGrant fileId version)
    | _ => none

def directoryOffCeremony (events : List AuditEvent) (t : Thresholds) : List Alert :=
  events.filterMap fun
    | .directoryBindingChanged userId _ atMs =>
      if t.ceremonyWindows.any fun w => w.1 ≤ atMs && atMs ≤ w.2 then none
      else some (.directoryChangeOffCeremony userId atMs)
    | _ => none

end Detect

open Detect in
/-- All alerts of a batch of events, rule by rule. -/
def analyze (events : List AuditEvent) (t : Thresholds) : Option (List Alert) := do
  let spikes ← authFailureSpike events t
  let fanouts ← highReshareFanout events t
  some (spikes ++ fanouts ++ grantBySoonRevoked events t ++ tombstoneGaps events ++
    missingRecoveryGrants events ++ directoryOffCeremony events t)

/-! ## The alerts of one kind -/

namespace Alert

def spike : Alert → Option (ℕ × UInt64)
  | authFailureSpike count windowMs => some (count, windowMs)
  | _ => none

def fanout : Alert → Option (Id × ℕ × UInt64)
  | highReshareFanout grantedBy count windowMs => some (grantedBy, count, windowMs)
  | _ => none

def soonRevokedGrant : Alert → Option (Id × Id × Id)
  | grantBySoonRevoked grantedBy recipientId fileId => some (grantedBy, recipientId, fileId)
  | _ => none

end Alert

namespace Detect

variable {events : List AuditEvent} {t : Thresholds} {a : Alert}

lemma mem_authFailureSpike {spikes : List Alert} (h : authFailureSpike events t = some spikes)
    (ha : a ∈ spikes) : ∃ count window, a = .authFailureSpike count window := by
  obtain ⟨peak, -, hpeak⟩ := Option.bind_eq_some_iff.mp h
  split at hpeak
  · obtain rfl := Option.some.inj hpeak
    exact ⟨peak, t.authWindowMs, List.mem_singleton.mp ha⟩
  · obtain rfl := Option.some.inj hpeak
    exact absurd ha (by simp)

lemma mem_highReshareFanout {fanouts : List Alert} (h : highReshareFanout events t = some fanouts)
    (ha : a ∈ fanouts) : ∃ granter count window, a = .highReshareFanout granter count window := by
  obtain ⟨hits, -, hhits⟩ := Option.bind_eq_some_iff.mp h
  obtain rfl := Option.some.inj hhits
  obtain ⟨hit, -, rfl⟩ := List.mem_map.mp ha
  exact ⟨hit.1, hit.2, t.reshareWindowMs, rfl⟩

lemma mem_grantBySoonRevoked (ha : a ∈ grantBySoonRevoked events t) :
    ∃ granter recipient file, a = .grantBySoonRevoked granter recipient file := by
  obtain ⟨e, -, he⟩ := List.mem_filterMap.mp ha
  unfold soonRevoked at he
  split at he
  · split at he
    · exact absurd he (by simp)
    · split at he
      · split at he
        · exact ⟨_, _, _, (Option.some.inj he).symm⟩
        · exact absurd he (by simp)
      · exact absurd he (by simp)
  · exact absurd he (by simp)

lemma kinds_of_mem_rest (ha : a ∈ tombstoneGaps events ++ missingRecoveryGrants events ++
    directoryOffCeremony events t) :
    a.spike = none ∧ a.fanout = none ∧ a.soonRevokedGrant = none := by
  rcases List.mem_append.mp ha with ha | ha
  · rcases List.mem_append.mp ha with ha | ha
    · obtain ⟨e, -, he⟩ := List.mem_filterMap.mp ha
      split at he
      · obtain rfl := Option.some.inj he
        exact ⟨rfl, rfl, rfl⟩
      · exact absurd he (by simp)
    · obtain ⟨e, -, he⟩ := List.mem_filterMap.mp ha
      split at he
      · obtain rfl := Option.some.inj he
        exact ⟨rfl, rfl, rfl⟩
      · exact absurd he (by simp)
  · obtain ⟨e, -, he⟩ := List.mem_filterMap.mp ha
    split at he
    · split at he
      · exact absurd he (by simp)
      · obtain rfl := Option.some.inj he
        exact ⟨rfl, rfl, rfl⟩
    · exact absurd he (by simp)

/-- An analysis is that of the two sweeping rules, and its alerts of each kind are those of one
rule. -/
lemma analyze_eq_some {alerts : List Alert} (h : analyze events t = some alerts) :
    ∃ spikes fanouts, authFailureSpike events t = some spikes ∧
      highReshareFanout events t = some fanouts ∧
      alerts.filterMap Alert.spike = spikes.filterMap Alert.spike ∧
      alerts.filterMap Alert.fanout = fanouts.filterMap Alert.fanout ∧
      alerts.filterMap Alert.soonRevokedGrant =
        (grantBySoonRevoked events t).filterMap Alert.soonRevokedGrant := by
  obtain ⟨spikes, hspikes, h⟩ := Option.bind_eq_some_iff.mp h
  obtain ⟨fanouts, hfanouts, h⟩ := Option.bind_eq_some_iff.mp h
  obtain rfl := Option.some.inj h
  have hrest : ∀ a ∈ tombstoneGaps events ++ missingRecoveryGrants events ++
      directoryOffCeremony events t, _ := fun a ha => kinds_of_mem_rest ha
  refine ⟨spikes, fanouts, hspikes, hfanouts, ?_, ?_, ?_⟩
  · have hfan : fanouts.filterMap Alert.spike = [] := by
      refine List.filterMap_eq_nil_iff.mpr fun a ha => ?_
      obtain ⟨granter, count, window, rfl⟩ := mem_highReshareFanout hfanouts ha
      rfl
    have hsoon : (grantBySoonRevoked events t).filterMap Alert.spike = [] := by
      refine List.filterMap_eq_nil_iff.mpr fun a ha => ?_
      obtain ⟨granter, recipient, file, rfl⟩ := mem_grantBySoonRevoked ha
      rfl
    have hend := List.filterMap_eq_nil_iff.mpr fun a ha => (hrest a ha).1
    simp only [List.append_assoc, List.filterMap_append] at hend ⊢
    rw [hfan, hsoon, hend, List.nil_append, List.nil_append, List.append_nil]
  · have hspike : spikes.filterMap Alert.fanout = [] := by
      refine List.filterMap_eq_nil_iff.mpr fun a ha => ?_
      obtain ⟨count, window, rfl⟩ := mem_authFailureSpike hspikes ha
      rfl
    have hsoon : (grantBySoonRevoked events t).filterMap Alert.fanout = [] := by
      refine List.filterMap_eq_nil_iff.mpr fun a ha => ?_
      obtain ⟨granter, recipient, file, rfl⟩ := mem_grantBySoonRevoked ha
      rfl
    have hend := List.filterMap_eq_nil_iff.mpr fun a ha => (hrest a ha).2.1
    simp only [List.append_assoc, List.filterMap_append] at hend ⊢
    rw [hspike, hsoon, hend, List.nil_append, List.nil_append, List.append_nil]
  · have hspike : spikes.filterMap Alert.soonRevokedGrant = [] := by
      refine List.filterMap_eq_nil_iff.mpr fun a ha => ?_
      obtain ⟨count, window, rfl⟩ := mem_authFailureSpike hspikes ha
      rfl
    have hfan : fanouts.filterMap Alert.soonRevokedGrant = [] := by
      refine List.filterMap_eq_nil_iff.mpr fun a ha => ?_
      obtain ⟨granter, count, window, rfl⟩ := mem_highReshareFanout hfanouts ha
      rfl
    have hend := List.filterMap_eq_nil_iff.mpr fun a ha => (hrest a ha).2.2
    simp only [List.append_assoc, List.filterMap_append] at hend ⊢
    rw [hspike, hfan, hend, List.nil_append, List.nil_append, List.append_nil]

end Detect

end MaxSecu
