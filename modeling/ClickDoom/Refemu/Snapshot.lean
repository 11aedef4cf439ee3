import ClickDoom.Refemu.Exec

/-! # A machine written to one file, and read back

`refemu/src/snapshot.rs`.  A magic line, a one-line JSON header, zeroes up to a
fixed offset, and then the sections the header names.  A file is the list of its
bytes.

The JSON of the header and the hash of a section come from libraries and are
parameters; what the reader relies on is that the header's text holds no newline
and parses back to the header.
-/
namespace ClickDoom
open LittleEndian (bytes value chunks)

/-- The bytes of a string. -/
def utf8 (s : String) : List Byte := s.toUTF8.data.toList.map UInt8.toBitVec

namespace Snapshot

def formatVersion : Nat := 3

/-- Where the sections start. -/
def bodyOffset : Nat := 4096

def magic : List Byte := utf8 "REFEMU-SNAPSHOT 3\n"

def newline : Byte := 10#8

/-- What a caller is told.  The path is the caller's own and is left out. -/
inductive Error
  | headerTooLong (length : Nat)
  | notASnapshot
  | wrongVersion (found : Nat)
  | header
  | shortSection (name : String) (found expected : Nat)
  | corrupt (name : String)
  | missingSection (name : String)
  | mismatch (field theirs ours : String)
  deriving DecidableEq

inductive Kind
  | machine | frame
  deriving DecidableEq

structure SectionInfo where
  name : String
  offset : Nat
  length : Nat
  sha256 : String
  deriving DecidableEq

/-- Where the image came from.  The ROM's manifest is carried and never read
here. -/
structure Provenance (Manifest : Type) where
  romSha256 : Option String
  pinned : Bool
  romManifest : Option Manifest

structure FrameInfo where
  index : Nat
  frameNo : Word
  commitIcount : BitVec 64
  retiredIcount : BitVec 64
  deriving DecidableEq

structure Header (Manifest : Type) where
  formatVersion : Nat
  kind : Kind
  generator : String
  createdFrom : Provenance Manifest
  icount : Nat
  stopCondition : Option String
  pc : Option Word
  regs : Option (List Word)
  ramBase : Option Word
  ramSize : Option Word
  ipms : Option Word
  textStart : Option Word
  textEnd : Option Word
  frameCommitCount : Nat
  lastFrameCommit : Option FrameInfo
  frame : Option FrameInfo
  fbhash : Option String
  sections : List SectionInfo

/-- The library that writes a header as one line and reads it back. -/
structure HeaderText (Manifest : Type) where
  toString : Header Manifest → List Byte
  fromSlice : List Byte → Option (Header Manifest)

/-- What a written header owes its reader. -/
def HeaderText.RoundTrips {Manifest : Type} (text : HeaderText Manifest) (header : Header Manifest) :
    Prop :=
  newline ∉ text.toString header ∧ text.fromSlice (text.toString header) = some header

end Snapshot

/-- A container in memory. -/
structure Snapshot (Manifest : Type) where
  header : Snapshot.Header Manifest
  sections : List (String × List Byte)

namespace Snapshot
variable {Manifest : Type} (text : HeaderText Manifest) (sha256Hex : List Byte → String)

/-- The first section of this name. -/
def sectionNamed (s : Snapshot Manifest) (name : String) : Option (List Byte) :=
  (s.sections.find? (·.1 == name)).map (·.2)

/-! ## Writing -/

/-- The entries of the header for sections laid out from an offset. -/
def layout (offset : Nat) : List (String × List Byte) → List SectionInfo
  | [] => []
  | (name, data) :: rest =>
    ⟨name, offset, data.length, sha256Hex data⟩ :: layout (offset + data.length) rest

/-- The header as it goes into the file. -/
def written (s : Snapshot Manifest) : Header Manifest :=
  { s.header with sections := layout sha256Hex bodyOffset s.sections }

/-- The magic line and the header line. -/
def head (s : Snapshot Manifest) : List Byte :=
  magic ++ text.toString (s.written sha256Hex) ++ [newline]

/-- The bytes of the file. -/
def fileBytes (s : Snapshot Manifest) : List Byte :=
  s.head text sha256Hex ++ List.replicate (bodyOffset - (s.head text sha256Hex).length) 0 ++
    s.sections.flatMap (·.2)

/-- A header longer than its space is an error. -/
def write (s : Snapshot Manifest) : Except Error (List Byte) :=
  if bodyOffset < (s.head text sha256Hex).length then
    .error (.headerTooLong (s.head text sha256Hex).length)
  else .ok (s.fileBytes text sha256Hex)

theorem write_of_fits {s : Snapshot Manifest}
    (h : (s.head text sha256Hex).length ≤ bodyOffset) :
    s.write text sha256Hex = .ok (s.fileBytes text sha256Hex) := by
  rw [write, if_neg (Nat.not_lt.mpr h)]

/-! ## Reading -/

/-- A decimal number as the standard library parses a 32-bit one. -/
def parseU32 (chars : List Char) : Option Nat :=
  let digits := if chars.head? = some '+' then chars.tail else chars
  if digits = [] ∨ ¬digits.all Char.isDigit then none
  else
    let n := digits.foldl (fun n c => 10 * n + (c.toNat - '0'.toNat)) 0
    if n < 2 ^ 32 then some n else none

/-- Unicode's White_Space characters, each as it is encoded. -/
def whiteSpace : List (List Byte) :=
  ([0x09, 0x0A, 0x0B, 0x0C, 0x0D, 0x20, 0x85, 0xA0, 0x1680] ++ List.range' 0x2000 11 ++
    [0x2028, 0x2029, 0x202F, 0x205F, 0x3000]).map fun c => utf8 (String.singleton (Char.ofNat c))

/-- Takes one of these off the front, if one is there. -/
def stripOne (tokens : List (List Byte)) (bytes : List Byte) : List Byte :=
  match tokens.find? (·.isPrefixOf bytes) with
  | some token => bytes.drop token.length
  | none => bytes

/-- Takes white space off both ends. -/
def trim (bytes : List Byte) : List Byte :=
  let front := (stripOne whiteSpace)^[bytes.length] bytes
  ((stripOne (whiteSpace.map List.reverse))^[front.length] front.reverse).reverse

/-- The version a file claims, for a file this reader will not accept.  A byte
outside ASCII is no digit. -/
def versionOf (file : List Byte) : Option Nat :=
  let head := file.take 64
  let claim := utf8 "REFEMU-SNAPSHOT "
  if claim.isPrefixOf head then
    let line := (head.drop claim.length).takeWhile (· ≠ newline)
    parseU32 ((trim line).map fun b => if b.toNat < 128 then Char.ofNat b.toNat else '\uFFFD')
  else none

/-- One section of the file, checked against its own hash. -/
def readSection (file : List Byte) (info : SectionInfo) : Except Error (String × List Byte) :=
  if info.offset + info.length ≤ file.length then
    let data := (file.drop info.offset).take info.length
    if sha256Hex data ≠ info.sha256 then .error (.corrupt info.name) else .ok (info.name, data)
  else .error (.shortSection info.name (file.length - info.offset) info.length)

/-- Every section in the header's order, up to the first that is wrong. -/
def readSections (file : List Byte) : List SectionInfo → Except Error (List (String × List Byte))
  | [] => .ok []
  | info :: rest =>
    match readSection sha256Hex file info with
    | .error e => .error e
    | .ok pair =>
      match readSections file rest with
      | .error e => .error e
      | .ok pairs => .ok (pair :: pairs)

/-- Reads a container, checking every section against its own hash, and that the
sections the caller cannot do without are there. -/
def read (file : List Byte) (needed : List String) : Except Error (Snapshot Manifest) :=
  if file.take magic.length ≠ magic then
    match versionOf file with
    | some found => if found ≠ formatVersion then .error (.wrongVersion found) else .error .notASnapshot
    | none => .error .notASnapshot
  else
    let rest := file.drop magic.length
    if newline ∉ rest then .error .notASnapshot
    else
      match text.fromSlice (rest.takeWhile (· ≠ newline)) with
      | none => .error .header
      | some header =>
        match readSections sha256Hex file header.sections with
        | .error e => .error e
        | .ok sections =>
          let snapshot : Snapshot Manifest := ⟨header, sections⟩
          match needed.find? (fun name => (snapshot.sectionNamed name).isNone) with
          | some name => .error (.missingSection name)
          | none => .ok snapshot

/-! ## Capturing a machine -/

def frameInfo (index : Nat) (commit : FrameCommit) : FrameInfo where
  index := index
  frameNo := commit.frameNo
  commitIcount := commit.commitIcount
  retiredIcount := commit.commitIcount + 1

def baseHeader (generator : String) (c : Cpu) (kind : Kind) (provenance : Provenance Manifest)
    (stop : Option String) : Header Manifest :=
  let commits := (c.memory.devices.registersRef.map (·.frameCommits)).getD []
  { formatVersion, kind, generator, createdFrom := provenance, icount := c.icount, stopCondition := stop
    pc := none, regs := none, ramBase := none, ramSize := none, ipms := none
    textStart := none, textEnd := none
    frameCommitCount := commits.length
    lastFrameCommit := commits.getLast?.map (frameInfo (commits.length - 1))
    frame := none, fbhash := none, sections := [] }

/-- A key event as its two bytes. -/
def keyBytes (event : KeyEvent) : List Byte := [if event.pressed then 1 else 0, event.doomkey]

/-- A frame commit as its twelve bytes. -/
def commitBytes (commit : FrameCommit) : List Byte :=
  bytes commit.frameNo 4 ++ bytes commit.commitIcount 8

/-- Captures the whole machine. -/
def machineSnapshot (generator : String) (c : Cpu) (provenance : Provenance Manifest)
    (stop : Option String) : Snapshot Manifest :=
  let registers := c.memory.devices.registersRef
  { header :=
      { baseHeader generator c .machine provenance stop with
        pc := some c.pc
        regs := some c.regs.toList
        ramBase := some c.memory.map.ramBase
        ramSize := some c.memory.map.ramSize
        ipms := registers.map (·.ipms)
        textStart := c.memory.text.map (·.1)
        textEnd := c.memory.text.map (·.2) }
    sections :=
      [ ("ram", c.memory.ram)
      , ("framebuffer", c.memory.framebuffer)
      , ("palette", c.memory.palette)
      , ("console", (registers.map (·.console)).getD [])
      , ("keyq", (registers.map (·.keyQueue.flatMap keyBytes)).getD [])
      , ("frame_commits", (registers.map (·.frameCommits.flatMap commitBytes)).getD []) ] }

/-! ## Putting it back -/

/-- A value as the refusal prints it. -/
def debugOption (show' : α → String) : Option α → String
  | none => "None"
  | some x => "Some(" ++ show' x ++ ")"

def showWord (w : Word) : String := toString w.toNat

def showRegion (region : Word × Word) : String :=
  "(" ++ showWord region.1 ++ ", " ++ showWord region.2 ++ ")"

/-- The text region a header states. -/
def textRegion (header : Header Manifest) : Option (Word × Word) :=
  match header.textStart, header.textEnd with
  | some a, some b => some (a, b)
  | _, _ => none

/-- The refusal of a snapshot taken under other settings, unless forced. -/
def checkSettings (c : Cpu) (header : Header Manifest) (force : Bool) : Except Error Unit :=
  let ours := c.memory.devices.registersRef.map (·.ipms)
  if force then .ok ()
  else if header.ramSize ≠ some c.memory.map.ramSize then
    .error (.mismatch "ram_size" (debugOption showWord header.ramSize)
      (showWord c.memory.map.ramSize))
  else if header.ipms ≠ ours then
    .error (.mismatch "ipms" (debugOption showWord header.ipms) (debugOption showWord ours))
  else if textRegion header ≠ c.memory.text then
    .error (.mismatch "the text region" (debugOption showRegion (textRegion header))
      (debugOption showRegion c.memory.text))
  else .ok ()

def need (s : Snapshot Manifest) (name : String) : Except Error (List Byte) :=
  match s.sectionNamed name with
  | none => .error (.missingSection name)
  | some data => .ok data

/-- The register file a header states, zero where it states nothing. -/
def savedRegs (header : Header Manifest) : Vector Word 32 :=
  Vector.ofFn fun i => (header.regs.getD []).getD i 0

def readKey (pair : List Byte) : KeyEvent := ⟨pair.getD 0 0 ≠ 0, pair.getD 1 0⟩

def readCommit (row : List Byte) : FrameCommit := ⟨value 32 (row.take 4), value 64 (row.drop 4)⟩

/-- Puts the registers' own sections back. -/
def restoreRegisters (s : Snapshot Manifest) (r : Registers) : Except Error Registers := do
  let console ← s.need "console"
  let keyq ← s.need "keyq"
  let commits ← s.need "frame_commits"
  return { r with
    console
    keyQueue := (chunks 2 keyq).map readKey
    frameCommits := (chunks 12 commits).map readCommit }

def restoreDevices (s : Snapshot Manifest) (d : Devices) : Except Error Devices :=
  match d with
  | .bytes b => .ok (.bytes b)
  | .registers r => (s.restoreRegisters r).map .registers

/-- Puts a machine snapshot back, refusing one taken under settings that would
make the resumed run behave differently. -/
def restore (c : Cpu) (s : Snapshot Manifest) (force : Bool) : Except Error Cpu := do
  checkSettings c s.header force
  let ram ← s.need "ram"
  let framebuffer ← s.need "framebuffer"
  let palette ← s.need "palette"
  let restored := (c.restoreMemory ram framebuffer palette).restore (s.header.pc.getD 0)
    (savedRegs s.header) s.header.icount
  let devices ← s.restoreDevices restored.memory.devices
  return restored.setMemory (restored.memory.setDevices devices)

end Snapshot
end ClickDoom
