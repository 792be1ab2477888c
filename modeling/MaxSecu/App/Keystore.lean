import MaxSecu.App.Directory
import MaxSecu.Client.Keyblob
import MaxSecu.Framework.GuardedUpdate

/-!
# The keystore of a device

The identity is kept beside the program, in a file that holds it sealed under a passphrase.  The file
is made once, by a plain write that may stop after a part of the bytes.  A change of the passphrase
replaces the file by renaming another over it.

`Device.Intact` says that the file opens to what was sealed in it.  A change of the passphrase keeps
that, and so does a first write that puts in every byte (`unlock_sealIdentity_iff`).
-/

namespace MaxSecu

open ExceptRules GuardedUpdate

/-! ## The password policy -/

inductive PasswordError
  | tooShort (min : ℕ)
  | tooLong (max : ℕ)
  | breached
  deriving DecidableEq

namespace Password

def MIN_LEN : ℕ := 15

def MAX_LEN : ℕ := 128

def BLOCKLIST : List String :=
  ["passwordpassword", "password12345678", "123456789012345", "1234567890123456",
    "qwertyuiopasdfgh", "iloveyouiloveyou", "adminadminadmin1", "letmeinletmein12",
    "aaaaaaaaaaaaaaaa", "correcthorsebatterystaple"]

/-- Check a new password.  The listed ones are ASCII and have no `k`, so that it is enough to lower
the ASCII letters. -/
def check (password : String) : Except PasswordError Unit :=
  if password.length < MIN_LEN then .error (.tooShort MIN_LEN)
  else if MAX_LEN < password.length then .error (.tooLong MAX_LEN)
  else if BLOCKLIST.contains password.toLower then .error .breached
  else .ok ()

lemma length_le_of_check {password : String} (h : check password = .ok ()) :
    password.length ≤ MAX_LEN := by
  unfold check at h
  split at h
  · exact absurd h (by simp)
  · split at h
    · exact absurd h (by simp)
    · omega

lemma length_passwordBytes (password : String) :
    (passwordBytes password).length ≤ 4 * password.length := by
  have hlist : ∀ chars : List Char,
      (passwordBytes (String.ofList chars)).length ≤ 4 * chars.length := by
    intro chars
    induction chars with
    | nil => decide
    | cons c chars ih =>
      have hsize : c.utf8Size ≤ 4 := c.utf8Size_le_four
      have hcons : (passwordBytes (String.ofList (c :: chars))).length =
          c.utf8Size + (passwordBytes (String.ofList chars)).length := by
        simp [passwordBytes, List.utf8Encode]
      rw [hcons, List.length_cons]
      omega
  have h := hlist password.toList
  rwa [String.ofList_toList, String.length_toList] at h

lemma bytes_lt_of_check {password : String} (h : check password = .ok ()) :
    (passwordBytes password).length < 2 ^ 32 := by
  have hlength : password.length ≤ 128 := length_le_of_check h
  have hbytes := length_passwordBytes password
  omega

end Password

/-! ## Steps that may fail -/

/-- How a step outside the program ends.  At `stopped` the program ends with it. -/
inductive StepEnd
  | done
  | failed
  | stopped
  deriving DecidableEq

/-- How a command ends without a result. -/
inductive Halt
  | error (e : UiError)
  | stopped
  deriving DecidableEq

def StepEnd.orElse (step : StepEnd) (e : UiError) : Except Halt Unit :=
  match step with
  | done => .ok ()
  | failed => .error (.error e)
  | stopped => .error .stopped

/-- A write of a file under its name.  Unless it ends well, it may have put in only some bytes. -/
structure PlainWrite where
  createDir : StepEnd
  opened : StepEnd
  bytes : ℕ
  finish : StepEnd

namespace PlainWrite

/-- What the file then holds. -/
def contents (write : PlainWrite) (data : List UInt8) : List UInt8 :=
  if write.finish = .done then data else data.take write.bytes

/-- The file is there with all of `length` bytes. -/
def Complete (write : PlainWrite) (length : ℕ) : Prop :=
  write.createDir = .done ∧ write.opened = .done ∧ (write.finish = .done ∨ length ≤ write.bytes)

lemma contents_eq {write : PlainWrite} {data : List UInt8}
    (h : write.finish = .done ∨ data.length ≤ write.bytes) : write.contents data = data := by
  unfold contents
  by_cases hdone : write.finish = .done
  · rw [if_pos hdone]
  · rw [if_neg hdone, List.take_of_length_le (h.resolve_left hdone)]

end PlainWrite

/-! ## The device -/

/-- The files beside the program.  `sealedUnder` is what the keystore was made from, and is not
stored. -/
structure Device where
  keystore : Option (List UInt8)
  registerKey : Option String
  sealedUnder : Option (Identity × String)

def UiError.keystoreExists : UiError :=
  ⟨"keystore_exists", "A keystore already exists on this device."⟩

def UiError.weakPassword : UiError := ⟨"weak_password", "Password is too weak."⟩

def UiError.keystoreNotCreated : UiError := ⟨"keystore", "Could not create keystore."⟩

def UiError.keystoreNotWritten : UiError := ⟨"keystore", "Could not write keystore."⟩

def UiError.noKeystore : UiError := ⟨"no_keystore", "No keystore on this device."⟩

def UiError.wrongPassword : UiError := ⟨"unauthorized", "Wrong password."⟩

/-- The keystore is there and is seen; it is not if its metadata cannot be read. -/
def Device.exists (device : Device) (seen : Bool) : Bool := seen && device.keystore.isSome

def checkPassword (password : String) : Except Halt Unit :=
  (Password.check password).mapError fun _ => .error .weakPassword

def precheck (device : Device) (seen : Bool) (password : String) : Except Halt Unit :=
  if device.exists seen = true then .error (.error .keystoreExists) else checkPassword password

lemma precheck_eq_ok {device : Device} {seen : Bool} {password : String} :
    precheck device seen password = .ok () ↔
      device.exists seen = false ∧ Password.check password = .ok () := by
  unfold precheck checkPassword
  by_cases hseen : device.exists seen = true
  · rw [if_pos hseen]
    simp [hseen]
  · rw [if_neg hseen, mapError_eq_ok]
    simp [hseen]

section Operations

variable [Argon2id] [Aes256Gcm] [Aes256GcmSeal] [MlKem768Keygen]

/-- Seal an identity into a keystore that is not there yet. -/
def sealIdentity (password : String) (identity : Identity) (seen : Bool) (rand : SealEntropy)
    (write : PlainWrite) : ExceptT Halt (StateM Device) Unit := do
  let device ← get
  failIf (device.exists seen = true) (.error .keystoreExists)
  liftM (checkPassword password)
  let blob ← liftM ((Keyblob.sealBlob password identity ARGON2_DESKTOP_TARGET rand).mapError
    fun _ => Halt.error .keystoreNotCreated)
  liftM (write.createDir.orElse .keystoreNotWritten)
  liftM (write.opened.orElse .keystoreNotWritten)
  set { device with
    keystore := some (write.contents blob)
    sealedUnder := some (identity, password) }
  liftM (write.finish.orElse .keystoreNotWritten)

def Device.unlock (device : Device) (password : String) : Except UiError Identity := do
  let blob ← device.keystore.elim (throw .noKeystore) pure
  (Keyblob.unlock password blob).mapError fun _ => .wrongPassword

structure PasswordChange where
  old : String
  new : String
  readable : Bool
  rand : SealEntropy
  writeTmp : StepEnd
  rename : StepEnd

def changePassword (change : PasswordChange) : ExceptT Halt (StateM Device) Unit := do
  liftM (checkPassword change.new)
  let device ← get
  let blob ← orFail (if change.readable then device.keystore else none) (.error .noKeystore)
  let identity ← liftM ((Keyblob.unlock change.old blob).mapError
    fun _ => Halt.error .wrongPassword)
  let newBlob ← liftM ((Keyblob.sealBlob change.new identity ARGON2_DESKTOP_TARGET
    change.rand).mapError fun _ => Halt.error .wrongPassword)
  liftM (change.writeTmp.orElse .keystoreNotWritten)
  liftM (change.rename.orElse .keystoreNotWritten)
  set { device with
    keystore := some newBlob
    sealedUnder := some (identity, change.new) }

/-- A keystore that is there opens, under the passphrase it was sealed with, to what was sealed. -/
def Device.Intact (device : Device) : Prop :=
  device.keystore.isSome = true → ∃ identity password,
    device.sealedUnder = some (identity, password) ∧ device.unlock password = .ok identity

/-! ### What they do -/

variable {password : String} {identity : Identity} {seen : Bool} {rand : SealEntropy}
  {write : PlainWrite} {device : Device}

omit [Aes256GcmSeal] in
lemma unlock_eq_ok : device.unlock password = .ok identity ↔
    ∃ blob, device.keystore = some blob ∧ Keyblob.unlock password blob = .ok identity := by
  unfold Device.unlock
  rw [bind_eq_ok]
  simp only [elim_eq_ok, mapError_eq_ok]

omit [Aes256Gcm] [MlKem768Keygen] in
/-- A seal under a password that passes either ends before the file is there or puts in a part of the
blob. -/
lemma sealIdentity_state (hargon : ArgonDerives) (hcheck : Password.check password = .ok ())
    (hnone : device.keystore = none) (identity : Identity) (seen : Bool) (rand : SealEntropy)
    (write : PlainWrite) :
    ∃ blob, Keyblob.sealBlob password identity ARGON2_DESKTOP_TARGET rand = .ok blob ∧
      (runFrom (sealIdentity password identity seen rand write) device).2 =
        if write.createDir = .done ∧ write.opened = .done then
          { device with
            keystore := some (write.contents blob)
            sealedUnder := some (identity, password) }
        else device := by
  obtain ⟨blob, hblob⟩ := PasswordBlob.sealSecrets_target hargon
    (Password.bytes_lt_of_check hcheck) Keyblob.MAGIC (Keyblob.secrets identity).1
    (Keyblob.secrets identity).2 rand
  have hsealed : Keyblob.sealBlob password identity ARGON2_DESKTOP_TARGET rand = .ok blob := hblob
  refine ⟨blob, hsealed, ?_⟩
  have hpass : checkPassword password = .ok () := by
    unfold checkPassword
    rw [hcheck]
    rfl
  unfold sealIdentity
  rw [runFrom_get_bind, runFrom_failIf_bind, if_neg (by simp [Device.exists, hnone]),
    runFrom_liftM_bind, hpass]
  dsimp only
  rw [runFrom_liftM_bind, hsealed]
  dsimp only [Except.mapError]
  rw [runFrom_liftM_bind]
  cases hdir : write.createDir with
  | failed => simp [StepEnd.orElse]
  | stopped => simp [StepEnd.orElse]
  | done =>
    dsimp only [StepEnd.orElse]
    rw [runFrom_liftM_bind]
    cases hopen : write.opened with
    | failed => simp
    | stopped => simp
    | done =>
      dsimp only
      rw [if_pos ⟨rfl, rfl⟩]
      cases write.finish <;> rfl

omit [Aes256Gcm] [MlKem768Keygen] in
/-- A seal makes the keystore, if it makes one, of what it was given, and leaves the key file. -/
lemma sealIdentity_frame (hargon : ArgonDerives) (hcheck : Password.check password = .ok ())
    (hnone : device.keystore = none) {device' : Device}
    (hdevice : device' = (runFrom (sealIdentity password identity seen rand write) device).2) :
    device'.registerKey = device.registerKey ∧
      (device'.keystore = none ∨ device'.sealedUnder = some (identity, password)) := by
  obtain ⟨blob, -, hstate⟩ := sealIdentity_state hargon hcheck hnone identity seen rand write
  rw [hdevice, hstate]
  by_cases hopened : write.createDir = .done ∧ write.opened = .done
  · rw [if_pos hopened]
    exact ⟨rfl, .inr rfl⟩
  · rw [if_neg hopened]
    exact ⟨rfl, .inl hnone⟩

/-- The file that a seal leaves opens exactly if all of the blob got into it. -/
theorem unlock_sealIdentity_iff (haead : AeadOpens) (hargon : ArgonDerives)
    (hidentity : Keyblob.WellFormed identity) (hcheck : Password.check password = .ok ())
    (hnone : device.keystore = none) (seen : Bool) (rand : SealEntropy) (write : PlainWrite) :
    (runFrom (sealIdentity password identity seen rand write) device).2.unlock password =
        .ok identity ↔
      write.Complete (Keyblob.blobLength identity) := by
  obtain ⟨blob, hblob, hstate⟩ := sealIdentity_state hargon hcheck hnone identity seen rand write
  have hlength : blob.length = Keyblob.blobLength identity := (Keyblob.sealBlob_shape haead hblob).2.2
  rw [hstate, unlock_eq_ok]
  unfold PlainWrite.Complete
  rw [← hlength]
  by_cases hopened : write.createDir = .done ∧ write.opened = .done
  · rw [if_pos hopened]
    by_cases hall : write.finish = .done ∨ blob.length ≤ write.bytes
    · rw [PlainWrite.contents_eq hall]
      have hunlock := Keyblob.unlock_sealBlob haead hidentity hblob
      exact iff_of_true ⟨blob, rfl, hunlock⟩ ⟨hopened.1, hopened.2, hall⟩
    · -- a part of the blob is there, and no part of a blob opens
      obtain ⟨hfinish, hshort⟩ := not_or.mp hall
      have hpart : write.contents blob = blob.take write.bytes := if_neg hfinish
      refine iff_of_false ?_ fun h => hall h.2.2
      intro h
      obtain ⟨part, hstored, hunlock⟩ := h
      obtain rfl : write.contents blob = part := Option.some.inj hstored
      rw [hpart, Keyblob.unlock_take haead hblob (not_le.mp hshort)] at hunlock
      exact absurd hunlock (by simp)
  · rw [if_neg hopened, hnone]
    exact iff_of_false (by simp) fun h => hopened ⟨h.1, h.2.1⟩

/-- A change of the passphrase ends before the new file takes the place of the old one, or puts in
its place the same identity under the new passphrase. -/
lemma changePassword_state (change : PasswordChange) (device : Device) :
    (runFrom (changePassword change) device).2 = device ∨
      ∃ identity newBlob, device.unlock change.old = .ok identity ∧
        Keyblob.sealBlob change.new identity ARGON2_DESKTOP_TARGET change.rand = .ok newBlob ∧
        (runFrom (changePassword change) device).2 =
          { device with
            keystore := some newBlob
            sealedUnder := some (identity, change.new) } := by
  unfold changePassword
  rw [runFrom_liftM_bind]
  cases checkPassword change.new with
  | error e => exact .inl rfl
  | ok _ =>
    dsimp only
    rw [runFrom_get_bind, runFrom_orFail_bind]
    cases hread : (if change.readable then device.keystore else none) with
    | none => exact .inl rfl
    | some blob =>
      have hstored : device.keystore = some blob := by
        split at hread
        · exact hread
        · exact absurd hread (by simp)
      dsimp only [Option.elim]
      rw [runFrom_liftM_bind]
      cases hunlock : Keyblob.unlock change.old blob with
      | error e => exact .inl rfl
      | ok identity =>
        dsimp only [Except.mapError]
        rw [runFrom_liftM_bind]
        cases hseal : Keyblob.sealBlob change.new identity ARGON2_DESKTOP_TARGET change.rand with
        | error e => exact .inl rfl
        | ok newBlob =>
          dsimp only
          rw [runFrom_liftM_bind]
          cases change.writeTmp.orElse .keystoreNotWritten with
          | error e => exact .inl rfl
          | ok _ =>
            dsimp only
            rw [runFrom_liftM_bind]
            cases change.rename.orElse .keystoreNotWritten with
            | error e => exact .inl rfl
            | ok _ =>
              exact .inr ⟨identity, newBlob, unlock_eq_ok.mpr ⟨blob, hstored, hunlock⟩, hseal, rfl⟩

end Operations

end MaxSecu
