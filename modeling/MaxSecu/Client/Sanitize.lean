import Mathlib.Data.List.DropRight
import MaxSecu.Framework.ExceptRules

/-!
# Names from decrypted metadata

The author of a file chooses its name, so on export the name is checked, never rewritten.  An accepted
name is one component of a path on POSIX and on Windows, and becomes a direct child of the export
folder (`safeExportPath_of_sanitize`).

Windows reads names in its own way.  It drops the dots and the spaces at the end of the whole name,
and it looks for a device in the part before the first dot, of which it drops the spaces at the end
(`denotedDevice`).  The check compares that part with its spaces, and so accepts some names of devices
(`sanitizeFilename_safe_iff`).
-/

namespace MaxSecu

inductive SanitizeError
  | empty
  | controlCharacter
  | absolutePath
  | alternateDataStream
  | pathSeparator
  | parentTraversal
  | trailingDotOrSpace
  | reservedName
  | escapesExportDir
  deriving DecidableEq, Repr

namespace Sanitize

/-- The base names of the reserved devices, in upper case. -/
def RESERVED_STEMS : List (List Char) :=
  ["CON", "PRN", "AUX", "NUL", "COM1", "COM2", "COM3", "COM4", "COM5", "COM6", "COM7", "COM8",
    "COM9", "LPT1", "LPT2", "LPT3", "LPT4", "LPT5", "LPT6", "LPT7", "LPT8", "LPT9"].map String.toList

def isControl (c : Char) : Bool := c.val < 0x20 || (0x7f ≤ c.val && c.val ≤ 0x9f)

def isAsciiAlphabetic (c : Char) : Bool := c.isAlpha

/-- The name opens with a drive. -/
def driveQualified : List Char → Bool
  | letter :: colon :: _ => isAsciiAlphabetic letter && colon == ':'
  | _ => false

def stem (raw : List Char) : List Char := raw.takeWhile (· ≠ '.')

def toAsciiUppercase (s : List Char) : List Char := s.map Char.toUpper

/-- Check a name; it is returned as it is or rejected. -/
def sanitizeFilename (raw : List Char) : Except SanitizeError (List Char) :=
  if raw = [] then throw .empty
  else if raw.any isControl then throw .controlCharacter
  else if raw.head? = some '/' ∨ raw.head? = some '\\' ∨ driveQualified raw then
    throw .absolutePath
  else if ':' ∈ raw then throw .alternateDataStream
  else if '/' ∈ raw ∨ '\\' ∈ raw then throw .pathSeparator
  else if raw = ['.'] ∨ raw = ['.', '.'] then throw .parentTraversal
  else if raw.getLast? = some '.' ∨ raw.getLast? = some ' ' then throw .trailingDotOrSpace
  else if toAsciiUppercase (stem raw) ∈ RESERVED_STEMS then throw .reservedName
  else pure raw

/-! ## Paths -/

inductive Platform
  | posix
  | windows
  deriving DecidableEq

inductive PathComponent
  /-- A drive or a share. -/
  | volume (raw : List Char)
  | rootDir
  | curDir
  | parentDir
  | normal (name : List Char)
  deriving DecidableEq

/-- A path by its components, by which paths are compared. -/
abbrev FsPath := List PathComponent

def Platform.isSeparator : Platform → Char → Bool
  | posix, c => c == '/'
  | windows, c => c == '/' || c == '\\'

/-- How many characters name the volume: a drive such as `C:`, or a share with its server. -/
def Platform.volumeLength : Platform → List Char → ℕ
  | posix, _ => 0
  | windows, raw =>
    if driveQualified raw then 2
    else if (raw.take 2).length = 2 ∧ (raw.take 2).all (isSeparator windows) then
      let server := (raw.drop 2).takeWhile fun c => !isSeparator windows c
      let share := (raw.drop (3 + server.length)).takeWhile fun c => !isSeparator windows c
      if server = [] ∨ share = [] then 0 else 3 + server.length + share.length
    else 0

/-- The component that a segment between separators stands for; empty ones stand for none. -/
def ofSegment (segment : List Char) : Option PathComponent :=
  if segment = [] then none
  else if segment = ['.'] then some .curDir
  else if segment = ['.', '.'] then some .parentDir
  else some (.normal segment)

/-- The components of a path.  The current folder is only kept at the start of a relative path, and a
share has a root without a separator. -/
def components (platform : Platform) (raw : List Char) : FsPath :=
  let length := platform.volumeLength raw
  let rest := raw.drop length
  let rooted := rest.head?.any platform.isSeparator || 2 < length
  let body := (rest.splitOnP platform.isSeparator).filterMap ofSegment
  (if length = 0 then [] else [.volume (raw.take length)]) ++
    (if rooted then .rootDir :: body.filter (· ≠ .curDir)
      else body.take 1 ++ (body.drop 1).filter (· ≠ .curDir))

/-- Adjoin a path: one with a volume or an absolute one replaces the first. -/
def join (base other : FsPath) : FsPath :=
  match other with
  | .volume _ :: _ => other
  | .rootDir :: _ =>
    match base with
    | .volume raw :: _ => .volume raw :: other
    | _ => other
  | _ => if base = [] then other else base ++ other.filter (· ≠ .curDir)

/-- What remains of a path behind a base, if it starts with it. -/
def stripPrefix (path base : FsPath) : Option FsPath :=
  if base.isPrefixOf path then some (path.drop base.length) else none

/-- Join a checked name under the export folder, and look at the result once more. -/
def safeExportPath (platform : Platform) (exportDir : FsPath) (rawName : List Char) :
    Except SanitizeError FsPath := do
  let name ← sanitizeFilename rawName
  let joined := join exportDir (components platform name)
  match stripPrefix joined exportDir with
  | some [.normal c] => if c = name then pure joined else throw .escapesExportDir
  | _ => throw .escapesExportDir

/-! ## How Windows reads a name -/

/-- The name without the dots and the spaces at its end. -/
def denotedName (raw : List Char) : List Char := raw.rdropWhile fun c => c = '.' || c = ' '

/-- The device that a name stands for, if it is one. -/
def denotedDevice (raw : List Char) : Option (List Char) :=
  RESERVED_STEMS.find? fun device =>
    toAsciiUppercase ((stem (denotedName raw)).rdropWhile (· = ' ')) = device

/-- The name stands for itself: no character of it is dropped, it opens no stream of another file,
and it is no device. -/
structure DenotesItself (raw : List Char) : Prop where
  name : denotedName raw = raw
  stream : ':' ∉ raw
  device : denotedDevice raw = none

/-- The part before the first dot is a reserved device followed by at least one space. -/
def deviceThenSpaces (raw : List Char) : Bool :=
  (stem raw).getLast? = some ' ' && toAsciiUppercase ((stem raw).rdropWhile (· = ' ')) ∈ RESERVED_STEMS

/-! ## Accepted names -/

structure Accepted (raw : List Char) : Prop where
  nonempty : raw ≠ []
  noColon : ':' ∉ raw
  noSlash : '/' ∉ raw
  noBackslash : '\\' ∉ raw
  notDot : raw ≠ ['.']
  notDotDot : raw ≠ ['.', '.']
  lastNotDot : raw.getLast? ≠ some '.'
  lastNotSpace : raw.getLast? ≠ some ' '
  notReserved : toAsciiUppercase (stem raw) ∉ RESERVED_STEMS

variable {raw name : List Char}

lemma sanitizeFilename_eq_ok (h : sanitizeFilename raw = .ok name) : name = raw ∧ Accepted raw := by
  unfold sanitizeFilename at h
  simp only [ExceptRules.guard_eq_ok, ExceptRules.pure_eq_ok, not_or] at h
  obtain ⟨hempty, -, ⟨-, -, -⟩, hcolon, ⟨hslash, hback⟩, ⟨hdot, hdots⟩, ⟨hlastDot, hlastSpace⟩,
    hreserved, hname⟩ := h
  exact ⟨hname.symm, hempty, hcolon, hslash, hback, hdot, hdots, hlastDot, hlastSpace, hreserved⟩

namespace Accepted

variable (h : Accepted raw) (platform : Platform)

include h

lemma not_isSeparator : ∀ c ∈ raw, platform.isSeparator c = false := by
  intro c hc
  have hslash : c ≠ '/' := fun heq => h.noSlash (heq ▸ hc)
  have hback : c ≠ '\\' := fun heq => h.noBackslash (heq ▸ hc)
  cases platform <;> simp [Platform.isSeparator, hslash, hback]

lemma volumeLength_eq_zero : platform.volumeLength raw = 0 := by
  cases platform with
  | posix => rfl
  | windows =>
    have hdrive : driveQualified raw = false := by
      unfold driveQualified
      split
      · rename_i letter colon rest
        have hcolon : colon ≠ ':' := by
          rintro rfl
          exact h.noColon (List.mem_cons_of_mem _ List.mem_cons_self)
        simp [hcolon]
      · rfl
    have hshare : ¬((raw.take 2).length = 2 ∧
        (raw.take 2).all (Platform.isSeparator .windows) = true) := by
      rintro ⟨hlen, hall⟩
      obtain ⟨c, hc⟩ := List.exists_mem_of_length_pos (by omega : 0 < (raw.take 2).length)
      have hsep := List.all_eq_true.mp hall c hc
      rw [h.not_isSeparator .windows c (List.mem_of_mem_take hc)] at hsep
      exact absurd hsep (by simp)
    unfold Platform.volumeLength
    dsimp only
    rw [hdrive, if_neg (by simp), if_neg hshare]

lemma components_eq : components platform raw = [.normal raw] := by
  have hvolume := h.volumeLength_eq_zero platform
  have hsplit : raw.splitOnP platform.isSeparator = [raw] := by
    refine List.splitOnP_eq_singleton fun c hc => ?_
    rw [h.not_isSeparator platform c hc]
  have hroot : raw.head?.any platform.isSeparator = false := by
    cases hhead : raw.head? with
    | none => rfl
    | some c =>
      exact h.not_isSeparator platform c (List.mem_of_mem_head? hhead)
  have hsegment : ofSegment raw = some (.normal raw) := by
    rw [ofSegment, if_neg h.nonempty, if_neg h.notDot, if_neg h.notDotDot]
  unfold components
  rw [hvolume]
  simp only [List.drop_zero, hroot, hsplit, List.filterMap_cons, hsegment, List.filterMap_nil]
  rfl

end Accepted

/-- On both platforms an accepted name becomes a direct child of the export folder. -/
theorem safeExportPath_of_sanitize (platform : Platform) (exportDir : FsPath)
    (h : sanitizeFilename raw = .ok name) :
    safeExportPath platform exportDir raw = .ok (exportDir ++ [.normal raw]) := by
  obtain ⟨rfl, haccepted⟩ := sanitizeFilename_eq_ok h
  have hjoin : join exportDir (components platform name) = exportDir ++ [.normal name] := by
    rw [haccepted.components_eq platform]
    unfold join
    by_cases hbase : exportDir = []
    · rw [hbase]
      rfl
    · dsimp only
      rw [if_neg hbase]
      rfl
  have hstrip : stripPrefix (exportDir ++ [.normal name]) exportDir = some [.normal name] := by
    unfold stripPrefix
    rw [if_pos (List.isPrefixOf_iff_prefix.mpr (List.prefix_append _ _)), List.drop_left]
  unfold safeExportPath
  rw [h]
  simp only [bind, Except.bind, hjoin, hstrip, if_true]
  rfl

/-! ## Devices -/

lemma rdropWhile_eq_self {p : Char → Bool} (h : ∀ c, raw.getLast? = some c → p c = false) :
    raw.rdropWhile p = raw := by
  rw [List.rdropWhile_eq_self_iff]
  intro hne
  rw [h _ (List.getLast?_eq_some_getLast hne)]
  simp

lemma Accepted.denotedName_eq (h : Accepted raw) : denotedName raw = raw := by
  refine rdropWhile_eq_self fun c hc => ?_
  have hdot : c ≠ '.' := fun heq => h.lastNotDot (heq ▸ hc)
  have hspace : c ≠ ' ' := fun heq => h.lastNotSpace (heq ▸ hc)
  simp [hdot, hspace]

lemma denotedDevice_eq_none_iff :
    denotedDevice raw = none ↔
      toAsciiUppercase ((stem (denotedName raw)).rdropWhile (· = ' ')) ∉ RESERVED_STEMS := by
  unfold denotedDevice
  rw [List.find?_eq_none]
  constructor
  · intro h hmem
    exact h _ hmem (decide_eq_true rfl)
  · intro h device hdevice heq
    exact h (of_decide_eq_true heq ▸ hdevice)

lemma Accepted.denotedDevice_eq_none_iff (h : Accepted raw) :
    denotedDevice raw = none ↔ deviceThenSpaces raw = false := by
  rw [Sanitize.denotedDevice_eq_none_iff, h.denotedName_eq]
  unfold deviceThenSpaces
  by_cases hspace : (stem raw).getLast? = some ' '
  · simp [hspace]
  · have hkept : (stem raw).rdropWhile (· = ' ') = stem raw := by
      refine rdropWhile_eq_self fun c hc => ?_
      have hc' : c ≠ ' ' := fun heq => hspace (heq ▸ hc)
      simp [hc']
    rw [hkept]
    simp [hspace, h.notReserved]

end Sanitize

open Sanitize in
/-- An accepted name becomes a direct child of the export folder, and stands for itself on Windows,
if and only if its part before the first dot is not a reserved device followed by spaces. -/
theorem sanitizeFilename_safe_iff (raw name : List Char) (h : sanitizeFilename raw = .ok name) :
    (∀ platform exportDir,
        safeExportPath platform exportDir raw = .ok (exportDir ++ [.normal raw])) ∧
      DenotesItself raw ↔ deviceThenSpaces raw = false := by
  obtain ⟨-, haccepted⟩ := sanitizeFilename_eq_ok h
  constructor
  · intro hsafe
    exact haccepted.denotedDevice_eq_none_iff.mp hsafe.2.device
  · intro hdevice
    refine ⟨fun platform exportDir => safeExportPath_of_sanitize platform exportDir h, ?_⟩
    exact ⟨haccepted.denotedName_eq, haccepted.noColon,
      haccepted.denotedDevice_eq_none_iff.mpr hdevice⟩

open Sanitize in
theorem sanitizeFilename_safe_report :
    (∀ platform exportDir, safeExportPath platform exportDir "report.pdf".toList =
        .ok (exportDir ++ [.normal "report.pdf".toList])) ∧
      DenotesItself "report.pdf".toList :=
  (sanitizeFilename_safe_iff "report.pdf".toList "report.pdf".toList (by decide +kernel)).mpr
    (by decide +kernel)

open Sanitize in
/-- The console is accepted under a name with a space before the dot. -/
theorem sanitizeFilename_conTxt :
    sanitizeFilename "CON .txt".toList = .ok "CON .txt".toList ∧
      denotedDevice "CON .txt".toList = some "CON".toList := by
  decide +kernel

end MaxSecu
