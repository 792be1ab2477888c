import MaxSecu.App.Share

/-!
# Calls that share one pin file

Every share opens the file of pins, keeps the whole map while it waits for the server, and writes
the whole map back when it pins a key.  Any number of shares may be under way, a write of the file
may fail, and the process may die before or after the rename that puts a new file in place.

A copy that was read before another call wrote the file misses what that call pinned, and its next
write takes it from the disk.  `pins_kept_iff` says that pins are kept, and a key matches exactly if
it is the one on the disk, if and only if no copy is used that misses what it would have to know.
-/

namespace MaxSecu

/-- How a write of the file ends.  A new file is put in place by a rename. -/
inductive PersistOutcome
  | replaced
  | failed
  | crashed (renamed : Bool)

namespace PersistOutcome

def untrustedWrite : UiError := ⟨"untrusted", "The trust store could not be written."⟩

/-- What `persist` returns, if it does. -/
def write : PersistOutcome → Except UiError Unit
  | .failed => .error untrustedWrite
  | _ => .ok ()

/-- The new file is on the disk. -/
def Renames : PersistOutcome → Prop
  | .replaced => True
  | .failed => False
  | .crashed renamed => renamed = true

end PersistOutcome

/-- The pins on the disk, and the copy of each call that has opened the file. -/
structure PinWorld where
  disk : TofuStore
  handles : ℕ → Option TofuStore

/-- One step of one of the calls.  The waits are between the steps. -/
inductive PinCall
  | openStore (handle : ℕ) (readable : Bool)
  | checkOrPin (handle : ℕ) (username : String) (encPub : X25519Pub) (sigPub : Ed25519Pub)
      (persist : PersistOutcome)
  | repin (handle : ℕ) (username : String) (encPub : X25519Pub) (sigPub : Ed25519Pub)
      (persist : PersistOutcome)
  | close (handle : ℕ)
  | crash

inductive PinEvent
  | readMap (handle : ℕ) (map : TofuStore)
  | wroteMap (handle : ℕ) (map : TofuStore)
  | checked (handle : ℕ) (username : String) (outcome : TofuOutcome)
  | repinned (handle : ℕ) (username : String)
  | failed (handle : ℕ) (e : UiError)

namespace PinWorld

/-- Write the candidate to the disk first, and only then to the copy. -/
def persist (w : PinWorld) (handle : ℕ) (candidate : TofuStore) (returned : PinEvent) :
    PersistOutcome → PinWorld × List PinEvent
  | .replaced =>
    (⟨candidate, Function.update w.handles handle (some candidate)⟩,
      [.wroteMap handle candidate, returned])
  | .failed => (w, [.failed handle PersistOutcome.untrustedWrite])
  | .crashed renamed => (⟨if renamed then candidate else w.disk, fun _ => none⟩, [])

def checkOrPin (w : PinWorld) (handle : ℕ) (ram : TofuStore) (username : String) (fp : Bytes 32)
    (outcome : PersistOutcome) : PinWorld × List PinEvent :=
  match ram username with
  | none =>
    w.persist handle (Function.update ram username (some fp)) (.checked handle username .pinned)
      outcome
  | some pinned => (w, [.checked handle username (if pinned = fp then .matched else .changed)])

variable [Sha256]

/-- A step of a call whose file is not open does nothing. -/
def step (w : PinWorld) : PinCall → PinWorld × List PinEvent
  | .openStore handle true =>
    (⟨w.disk, Function.update w.handles handle (some w.disk)⟩, [.readMap handle w.disk])
  | .openStore handle false =>
    (⟨w.disk, Function.update w.handles handle none⟩,
      [.failed handle ⟨"untrusted", "The trust store could not be read."⟩])
  | .checkOrPin handle username encPub sigPub outcome =>
    match w.handles handle with
    | none => (w, [])
    | some ram => w.checkOrPin handle ram username (fingerprint encPub sigPub) outcome
  | .repin handle username encPub sigPub outcome =>
    match w.handles handle with
    | none => (w, [])
    | some ram =>
      w.persist handle (Function.update ram username (some (fingerprint encPub sigPub)))
        (.repinned handle username) outcome
  | .close handle => (⟨w.disk, Function.update w.handles handle none⟩, [])
  | .crash => (⟨w.disk, fun _ => none⟩, [])

end PinWorld

/-- Calls over the pins that are on the disk. -/
def pinMachine [Sha256] (disk : TofuStore) : Machine PinWorld PinCall PinEvent where
  init := ⟨disk, fun _ => none⟩
  step := PinWorld.step

def PinEvent.mapOf (handle : ℕ) : PinEvent → Option TofuStore
  | .readMap h map => if h = handle then some map else none
  | .wroteMap h map => if h = handle then some map else none
  | _ => none

@[simp] lemma PinEvent.mapOf_readMap (handle own : ℕ) (map : TofuStore) :
    (PinEvent.readMap own map).mapOf handle = if own = handle then some map else none := rfl

@[simp] lemma PinEvent.mapOf_wroteMap (handle own : ℕ) (map : TofuStore) :
    (PinEvent.wroteMap own map).mapOf handle = if own = handle then some map else none := rfl

/-- The map that a call wrote or read last. -/
def lastMap (handle : ℕ) (events : List PinEvent) : Option TofuStore :=
  (events.filterMap (PinEvent.mapOf handle)).getLast?

def PinCall.Repins (username : String) : PinCall → Prop
  | .repin _ name _ _ _ => name = username
  | _ => False

/-- Pins are neither lost nor replaced, a key matches if it is the one on the disk, and a copy is
what its call last wrote or read. -/
structure PinsKept [Sha256] (disk : TofuStore) (calls : List PinCall) : Prop where
  kept : ∀ before between later, calls = before ++ between ++ later → ∀ username fp,
    ((pinMachine disk).run before).1.disk username = some fp →
    (∀ call ∈ between, ¬ call.Repins username) →
      ((pinMachine disk).run (before ++ between)).1.disk username = some fp
  matched : ∀ before later handle username encPub sigPub outcome,
    calls = before ++ .checkOrPin handle username encPub sigPub outcome :: later →
    ∀ w, w = ((pinMachine disk).run before).1 → w.handles handle ≠ none →
      (.checked handle username .matched ∈
          (w.step (.checkOrPin handle username encPub sigPub outcome)).2 ↔
        w.disk username = some (fingerprint encPub sigPub))
  changed : ∀ before call later, calls = before ++ call :: later → ∀ handle username w,
    w = ((pinMachine disk).run before).1 → .checked handle username .changed ∈ (w.step call).2 →
      (w.step call).1.disk = w.disk
  synced : ∀ before later, calls = before ++ later → ∀ handle ram,
    ((pinMachine disk).run before).1.handles handle = some ram →
      lastMap handle ((pinMachine disk).run before).2 = some ram

/-- The copy that the call uses has what it must know of the disk: whether the key is the pinned
one, and, if the disk gets the copy, every pin that is not the call's own. -/
def PinWorld.Current [Sha256] (w : PinWorld) : PinCall → Prop
  | .checkOrPin handle username encPub sigPub outcome => ∀ ram, w.handles handle = some ram →
    (ram username = some (fingerprint encPub sigPub) ↔
      w.disk username = some (fingerprint encPub sigPub)) ∧
    (ram username = none → outcome.Renames → ∀ name fp, w.disk name = some fp →
      ram name = some fp)
  | .repin handle username _ _ outcome => ∀ ram, w.handles handle = some ram → outcome.Renames →
    ∀ name fp, name ≠ username → w.disk name = some fp → ram name = some fp
  | _ => True

namespace PinWorld

variable {w : PinWorld} {handle : ℕ} {username : String} {fp : Bytes 32} {ram : TofuStore}
  {candidate : TofuStore} {returned : PinEvent} {outcome : PersistOutcome}

/-! ## What a step does to the disk -/

lemma persist_disk_of_renames (h : outcome.Renames) :
    (w.persist handle candidate returned outcome).1.disk = candidate := by
  cases outcome with
  | replaced => rfl
  | failed => exact h.elim
  | crashed renamed => exact if_pos h

lemma persist_disk_of_not_renames (h : ¬ outcome.Renames) :
    (w.persist handle candidate returned outcome).1.disk = w.disk := by
  cases outcome with
  | replaced => exact absurd trivial h
  | failed => rfl
  | crashed renamed => exact if_neg h

lemma checked_mem_persist {own : ℕ} {name : String} {result : TofuOutcome}
    (h : .checked handle name result ∈ (w.persist own candidate returned outcome).2) :
    returned = .checked handle name result := by
  cases outcome with
  | replaced =>
    rcases List.mem_cons.mp h with h | h
    · cases h
    · exact (List.mem_singleton.mp h).symm
  | failed => cases List.mem_singleton.mp h
  | crashed renamed => cases h

lemma matched_mem_checkOrPin :
    .checked handle username .matched ∈ (w.checkOrPin handle ram username fp outcome).2 ↔
      ram username = some fp := by
  unfold checkOrPin
  cases hpin : ram username with
  | none =>
    refine iff_of_false ?_ (by simp)
    intro h
    cases checked_mem_persist h
  | some pinned =>
    by_cases hmatch : pinned = fp
    · simp [hmatch]
    · simp [hmatch]

variable [Sha256] {encPub : X25519Pub} {sigPub : Ed25519Pub} {call : PinCall}

lemma step_checkOrPin (hram : w.handles handle = some ram) :
    w.step (.checkOrPin handle username encPub sigPub outcome) =
      w.checkOrPin handle ram username (fingerprint encPub sigPub) outcome := by
  simp only [step, hram]

lemma step_repin (hram : w.handles handle = some ram) :
    w.step (.repin handle username encPub sigPub outcome) =
      w.persist handle (Function.update ram username (some (fingerprint encPub sigPub)))
        (.repinned handle username) outcome := by
  simp only [step, hram]

lemma Current.kept (h : w.Current call) (hrepin : ¬ call.Repins username)
    (hpin : w.disk username = some fp) : (w.step call).1.disk username = some fp := by
  cases call with
  | openStore handle readable => cases readable <;> exact hpin
  | checkOrPin handle name encPub sigPub outcome =>
    cases hram : w.handles handle with
    | none =>
      simp only [step, hram]
      exact hpin
    | some ram =>
      obtain ⟨hmatch, hall⟩ := h ram hram
      rw [step_checkOrPin hram]
      unfold PinWorld.checkOrPin
      cases hname : ram name with
      | some pinned => exact hpin
      | none =>
        by_cases hrenames : outcome.Renames
        · have hcopy := hall hname hrenames username fp hpin
          have hne : username ≠ name := by
            rintro rfl
            rw [hname] at hcopy
            cases hcopy
          show (w.persist _ _ _ _).1.disk username = some fp
          rw [persist_disk_of_renames hrenames, Function.update_of_ne hne, hcopy]
        · show (w.persist _ _ _ _).1.disk username = some fp
          rw [persist_disk_of_not_renames hrenames, hpin]
  | repin handle name encPub sigPub outcome =>
    cases hram : w.handles handle with
    | none =>
      simp only [step, hram]
      exact hpin
    | some ram =>
      have hne : username ≠ name := fun heq => hrepin heq.symm
      rw [step_repin hram]
      by_cases hrenames : outcome.Renames
      · rw [persist_disk_of_renames hrenames, Function.update_of_ne hne,
          h ram hram hrenames username fp hne hpin]
      · rw [persist_disk_of_not_renames hrenames, hpin]
  | close handle => exact hpin
  | crash => exact hpin

lemma current_of_kept
    (hkept : ∀ name fp, w.disk name = some fp → ¬ call.Repins name →
      (w.step call).1.disk name = some fp)
    (hmatched : ∀ handle name encPub sigPub outcome,
      call = .checkOrPin handle name encPub sigPub outcome → w.handles handle ≠ none →
        (.checked handle name .matched ∈ (w.step call).2 ↔
          w.disk name = some (fingerprint encPub sigPub))) : w.Current call := by
  cases call with
  | openStore handle readable => trivial
  | checkOrPin handle name encPub sigPub outcome =>
    intro ram hram
    have hmatch := hmatched handle name encPub sigPub outcome rfl (by rw [hram]; simp)
    rw [step_checkOrPin hram] at hmatch hkept
    rw [matched_mem_checkOrPin] at hmatch
    refine ⟨hmatch, ?_⟩
    intro hname hrenames other fp hpin
    have hafter := hkept other fp hpin (fun hrepins => hrepins)
    unfold PinWorld.checkOrPin at hafter
    rw [hname] at hafter
    replace hafter : (w.persist _ _ _ _).1.disk other = some fp := hafter
    rw [persist_disk_of_renames hrenames] at hafter
    by_cases hother : other = name
    · rw [hother, Function.update_self] at hafter
      rw [hother, ← hafter] at hpin
      rw [hname] at hmatch
      cases hmatch.mpr hpin
    · rwa [Function.update_of_ne hother] at hafter
  | repin handle name encPub sigPub outcome =>
    intro ram hram hrenames other fp hother hpin
    have hafter := hkept other fp hpin (fun heq => hother heq.symm)
    rwa [step_repin hram, persist_disk_of_renames hrenames, Function.update_of_ne hother] at hafter
  | close handle => trivial
  | crash => trivial

lemma disk_of_changed (h : .checked handle username .changed ∈ (w.step call).2) :
    (w.step call).1.disk = w.disk := by
  cases call with
  | openStore handle readable => cases readable <;> rfl
  | checkOrPin own name encPub sigPub outcome =>
    cases hram : w.handles own with
    | none => simp only [step, hram]
    | some ram =>
      rw [step_checkOrPin hram] at h ⊢
      unfold PinWorld.checkOrPin at h ⊢
      cases hname : ram name with
      | some pinned => rfl
      | none =>
        simp only [hname] at h
        cases checked_mem_persist h
  | repin own name encPub sigPub outcome =>
    cases hram : w.handles own with
    | none => simp only [step, hram]
    | some ram =>
      rw [step_repin hram] at h
      cases checked_mem_persist h
  | close handle => rfl
  | crash => rfl

/-! ## What a step does to the copies -/

omit [Sha256] in
lemma persist_synced {own : ℕ} (h : (w.persist own candidate returned outcome).1.handles handle =
    some ram) (hreturned : returned.mapOf handle = none) :
    lastMap handle (w.persist own candidate returned outcome).2 = some ram ∨
      lastMap handle (w.persist own candidate returned outcome).2 = none ∧
        w.handles handle = some ram := by
  cases outcome with
  | replaced =>
    by_cases howner : own = handle
    · left
      subst howner
      have hram : candidate = ram := by simpa [persist] using h
      simp [persist, lastMap, hreturned, hram]
    · right
      have hram : w.handles handle = some ram :=
        (Function.update_of_ne (Ne.symm howner) _ _).symm.trans h
      exact ⟨by simp [persist, lastMap, hreturned, howner], hram⟩
  | failed => exact .inr ⟨rfl, h⟩
  | crashed renamed => cases h

lemma step_synced (h : (w.step call).1.handles handle = some ram) :
    lastMap handle (w.step call).2 = some ram ∨
      lastMap handle (w.step call).2 = none ∧ w.handles handle = some ram := by
  cases call with
  | openStore own readable =>
    by_cases howner : own = handle
    · subst howner
      cases readable with
      | true =>
        have hram : w.disk = ram := by simpa [step] using h
        left
        simp [step, lastMap, hram]
      | false => cases (Function.update_self ..).symm.trans h
    · right
      cases readable with
      | true =>
        refine ⟨?_, (Function.update_of_ne (Ne.symm howner) _ _).symm.trans h⟩
        simp [step, lastMap, howner]
      | false => exact ⟨rfl, (Function.update_of_ne (Ne.symm howner) _ _).symm.trans h⟩
  | checkOrPin own name encPub sigPub outcome =>
    cases hown : w.handles own with
    | none =>
      simp only [step, hown] at h ⊢
      exact .inr ⟨rfl, h⟩
    | some copy =>
      rw [step_checkOrPin hown] at h ⊢
      unfold PinWorld.checkOrPin at h ⊢
      cases hname : copy name with
      | none =>
        simp only [hname] at h ⊢
        exact persist_synced h rfl
      | some pinned =>
        simp only [hname] at h ⊢
        exact .inr ⟨rfl, h⟩
  | repin own name encPub sigPub outcome =>
    cases hown : w.handles own with
    | none =>
      simp only [step, hown] at h ⊢
      exact .inr ⟨rfl, h⟩
    | some copy =>
      rw [step_repin hown] at h ⊢
      exact persist_synced h rfl
  | close own =>
    by_cases howner : own = handle
    · subst howner
      cases (Function.update_self ..).symm.trans h
    · exact .inr ⟨rfl, (Function.update_of_ne (Ne.symm howner) _ _).symm.trans h⟩
  | crash => cases h

lemma run_synced (disk : TofuStore) (calls : List PinCall) :
    ∀ handle ram, ((pinMachine disk).run calls).1.handles handle = some ram →
      lastMap handle ((pinMachine disk).run calls).2 = some ram := by
  refine @Machine.run_invariant _ _ _ (pinMachine disk)
    (fun w out => ∀ handle ram, w.handles handle = some ram → lastMap handle out = some ram)
    ?_ ?_ calls
  · intro handle ram h
    cases h
  · intro w out call ih handle ram h
    have happend : lastMap handle (out ++ (w.step call).2) =
        (lastMap handle (w.step call).2).or (lastMap handle out) := by
      unfold lastMap
      rw [List.filterMap_append, List.getLast?_append]
    show lastMap handle (out ++ (w.step call).2) = some ram
    rw [happend]
    rcases step_synced h with hnew | ⟨hnew, hold⟩
    · rw [hnew, Option.some_or]
    · rw [hnew, Option.none_or]
      exact ih handle ram hold

lemma run_kept {disk : TofuStore} {before between : List PinCall}
    (hcurrent : ∀ earlier call, earlier ++ [call] <+: before ++ between →
      ((pinMachine disk).run earlier).1.Current call)
    (hpin : ((pinMachine disk).run before).1.disk username = some fp)
    (hrepin : ∀ call ∈ between, ¬ call.Repins username) :
    ((pinMachine disk).run (before ++ between)).1.disk username = some fp := by
  induction between using List.reverseRecOn with
  | nil => rwa [List.append_nil]
  | append_singleton between call ih =>
    have hearlier := ih
      (fun earlier other h => hcurrent earlier other
        (h.trans (by rw [← List.append_assoc]; exact List.prefix_append _ _)))
      (fun other h => hrepin other (List.mem_append_left _ h))
    rw [← List.append_assoc, Machine.run_append_singleton]
    have hstep := hcurrent (before ++ between) call (by rw [List.append_assoc])
    exact hstep.kept (hrepin call (List.mem_append_right _ (List.mem_singleton_self _))) hearlier

end PinWorld

/-- **When pins are kept, exactly.**  However calls interleave, and however their writes end, no pin
is lost or silently replaced and a key matches exactly if it is pinned on the disk, if and only if
every step uses a copy that is current. -/
theorem pins_kept_iff [Sha256] (disk : TofuStore) (calls : List PinCall) :
    PinsKept disk calls ↔ ∀ before call later, calls = before ++ call :: later →
      ((pinMachine disk).run before).1.Current call := by
  constructor
  · intro hkept before call later hcalls
    refine PinWorld.current_of_kept ?_ ?_
    · intro name fp hpin hrepin
      have hafter := hkept.kept before [call] later (by rw [hcalls]; simp) name fp hpin
        (fun other hother => by rwa [List.mem_singleton.mp hother])
      rwa [Machine.run_append_singleton] at hafter
    · rintro handle name encPub sigPub outcome rfl hopen
      exact hkept.matched before later handle name encPub sigPub outcome hcalls _ rfl hopen
  · intro hcurrent
    refine ⟨?_, ?_, ?_, ?_⟩
    · rintro before between later rfl username fp hpin hrepin
      refine PinWorld.run_kept ?_ hpin hrepin
      rintro earlier call ⟨rest, hrest⟩
      exact hcurrent earlier call (rest ++ later) (by rw [← hrest]; simp)
    · rintro before later handle username encPub sigPub outcome hcalls w rfl hopen
      obtain ⟨ram, hram⟩ := Option.ne_none_iff_exists'.mp hopen
      rw [PinWorld.step_checkOrPin hram, PinWorld.matched_mem_checkOrPin]
      exact (hcurrent before _ later hcalls ram hram).1
    · rintro before call later hcalls handle username w rfl hchanged
      exact PinWorld.disk_of_changed hchanged
    · rintro before later hcalls handle ram hram
      exact PinWorld.run_synced disk before handle ram hram

/-! ## Two shares at once -/

section ClosedRuns

open ClosedRuns

/-- Two calls read the file, and then each pins a new name. -/
def twoShares : List PinCall :=
  [.openStore 0 true, .openStore 1 true,
    .checkOrPin 0 "alice" ⟨.replicate 32 1⟩ ⟨.replicate 32 1⟩ .replaced,
    .checkOrPin 1 "bob" ⟨.replicate 32 2⟩ ⟨.replicate 32 2⟩ .replaced]

/-- The second call writes the map back without the pin of the first one. -/
theorem pins_kept_twoShares :
    ¬ ∀ (disk : TofuStore) (calls : List PinCall), PinsKept disk calls := by
  intro hclaim
  have hkept := (hclaim (fun _ => none) twoShares).kept (twoShares.take 3) (twoShares.drop 3) []
    rfl "alice" (fingerprint ⟨.replicate 32 1⟩ ⟨.replicate 32 1⟩) rfl (by simp [twoShares,
      PinCall.Repins])
  cases hkept

end ClosedRuns

end MaxSecu
