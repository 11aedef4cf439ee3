import ClickDoom.Spec.Map

/-! # The device window

`refemu/src/mmio.rs`: the five registers, and the inert byte-backed window the
riscv-tests fixtures run against.  A device access takes the window as a value
and returns it as the access left it, also when the access stops the machine.

The count of retired instructions is an unbounded number here, as everywhere in
the development; a frame commit keeps the 64 bits of it that its record has.
-/
namespace ClickDoom
open LittleEndian (byte)

/-- A frame the program announced as complete, with the count before the
announcing store retired. -/
structure FrameCommit where
  frameNo : Word
  commitIcount : BitVec 64
  deriving DecidableEq, Repr

/-- A key event waiting to be popped. -/
structure KeyEvent where
  pressed : Bool
  doomkey : Byte
  deriving DecidableEq, Repr

/-- The value `KEYQ` returns for an event. -/
def KeyEvent.code (event : KeyEvent) : Word := keyEvent event.pressed event.doomkey

/-- The five registers.  `ipms` divides, and is not zero. -/
structure Registers where
  ipms : Word
  keyQueue : List KeyEvent
  console : List Byte
  frameCommits : List FrameCommit
  ipms_ne_zero : ipms ≠ 0
  deriving DecidableEq

namespace Registers

def new (ipms : Word) (h : ipms ≠ 0) : Registers := ⟨ipms, [], [], [], h⟩

/-- A read returns the value and the registers after it: `KEYQ` pops. -/
def read (r : Registers) (offset : Word) (width : Width) (icount : Nat) : Word × Registers :=
  if width ≠ .word then (0, r)
  else if offset = Mmio.ticksMs then (BitVec.ofNat 32 (icount / r.ipms.toNat), r)
  else if offset = Mmio.keyq then
    match r.keyQueue with
    | event :: rest => (event.code, { r with keyQueue := rest })
    | [] => (0, r)
  else (0, r)

/-- A write returns the exit code when it stops the machine. -/
def write (r : Registers) (offset : Word) (width : Width) (value : Word) (icount : Nat) :
    Except Word Unit × Registers :=
  if width ≠ .word then (.ok (), r)
  else if offset = Mmio.exit then (.error value, r)
  else if offset = Mmio.putchar then
    (.ok (), { r with console := r.console ++ [value.setWidth 8] })
  else if offset = Mmio.frameCommit then
    (.ok (), { r with frameCommits := r.frameCommits ++ [⟨value, BitVec.ofNat 64 icount⟩] })
  else (.ok (), r)

end Registers

/-- Plain byte storage over the device window. -/
structure ByteWindow where
  bytes : List Byte
  deriving DecidableEq

namespace ByteWindow

def new (size : Word) : ByteWindow := ⟨List.replicate size.toNat 0⟩

/-- The loop over the access's bytes, least significant first. -/
def read (b : ByteWindow) (offset : Word) (width : Width) : Word :=
  (List.range width.size).foldl
    (fun value i => value ||| ((b.bytes.getD (offset.toNat + i) 0).setWidth 32 <<< (8 * i))) 0

def write (b : ByteWindow) (offset : Word) (width : Width) (value : Word) : ByteWindow :=
  ⟨(List.range width.size).foldl
    (fun bytes i => bytes.set (offset.toNat + i) (byte value i)) b.bytes⟩

end ByteWindow

/-- Which device model the window presents. -/
inductive Devices
  | registers (r : Registers)
  | bytes (b : ByteWindow)
  deriving DecidableEq

namespace Devices

def read (d : Devices) (offset : Word) (width : Width) (icount : Nat) : Word × Devices :=
  match d with
  | .registers r => ((r.read offset width icount).1, .registers (r.read offset width icount).2)
  | .bytes b => (b.read offset width, .bytes b)

def write (d : Devices) (offset : Word) (width : Width) (value : Word) (icount : Nat) :
    Except Word Unit × Devices :=
  match d with
  | .registers r =>
    ((r.write offset width value icount).1, .registers (r.write offset width value icount).2)
  | .bytes b => (.ok (), .bytes (b.write offset width value))

/-- The registers, when this window has them. -/
def registersRef : Devices → Option Registers
  | .registers r => some r
  | .bytes _ => none

/-- A write that stops the machine changes no device. -/
theorem write_error {d : Devices} {offset value code : Word} {width : Width} {icount : Nat}
    (h : (d.write offset width value icount).1 = .error code) :
    (d.write offset width value icount).2 = d := by
  cases d with
  | bytes b => cases h
  | registers r =>
    simp only [write, Registers.write] at h ⊢
    split_ifs at h ⊢ with h1 h2 h3 h4
    rfl

end Devices
end ClickDoom
