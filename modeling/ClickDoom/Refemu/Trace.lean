import ClickDoom.Refemu.Exec

/-! # The checkpoint emitter

`refemu/src/trace.rs` and the trace format of `spec/src/checkpoint.rs`.  A
checkpoint is taken after the instruction retires, so it reports the count and
the program counter as they stand once the step is complete.  A halt emits no
line.

The hash is a parameter: nothing here depends on which one it is.
-/
namespace ClickDoom
open LittleEndian (bytes)

/-- How often a run emits. -/
structure TraceConfig where
  checkpointInterval : Nat
  ramHashInterval : Nat
  deriving DecidableEq

namespace TraceConfig

def default : TraceConfig := ⟨ClickDoom.checkpointInterval, ClickDoom.ramHashInterval⟩

/-- Zero is never a checkpoint: the test runs after a step. -/
def isCheckpoint (config : TraceConfig) (icount : Nat) : Bool :=
  icount != 0 && icount % config.checkpointInterval == 0

/-- Whether the memory hashes are appended at this count. -/
def isRamHash (config : TraceConfig) (icount : Nat) : Bool :=
  icount != 0 && icount % config.ramHashInterval == 0

end TraceConfig

/-- One trace line.  The memory hashes are present together or not at all. -/
structure Checkpoint where
  icount : Nat
  pc : Word
  reghash : BitVec 64
  ramhash : Option (BitVec 64)
  fbhash : Option (BitVec 64)
  deriving DecidableEq, Repr

/-- Why a traced run stopped.  The collector never asks to. -/
inductive Stop
  | halted (halt : Halt)
  | budget
  deriving DecidableEq

section
variable (xxh64 : List Byte → BitVec 64)

/-- The hash of `pc` followed by `x1` through `x31`, each little-endian. -/
def regHash (pc : Word) (regs : Vector Word 32) : BitVec 64 :=
  xxh64 (bytes pc 4 ++ regs.toList.tail.flatMap (bytes · 4))

def ramHash (ram : List Byte) : BitVec 64 := xxh64 ram

def fbHash (framebuffer palette : List Byte) : BitVec 64 := xxh64 (framebuffer ++ palette)

/-- A checkpoint for the machine as it stands, with the memory hashes when asked
for. -/
def checkpointOf (c : Cpu) (withMemory : Bool) : Checkpoint where
  icount := c.icount
  pc := c.pc
  reghash := regHash xxh64 c.pc c.regs
  ramhash := if withMemory then some (ramHash xxh64 c.memory.ram) else none
  fbhash := if withMemory then some (fbHash xxh64 c.memory.framebuffer c.memory.palette) else none

/-- The checkpoint the emitter takes after a step, if any. -/
def emit (config : TraceConfig) (c : Cpu) : List Checkpoint :=
  if config.isCheckpoint c.icount then [checkpointOf xxh64 c (config.isRamHash c.icount)] else []

/-- The emitter's loop.  The first argument is `budget - icount`, which every
retired instruction lowers by one. -/
def collectLoop (config : TraceConfig) : Nat → Cpu → List Checkpoint × Stop × Cpu
  | 0, c => ([], .budget, c)
  | left + 1, c =>
    match c.stepReporting with
    | (.error halt, c') => ([], .halted halt, c')
    | (.ok _, c') =>
      let rest := collectLoop config left c'
      (emit xxh64 config c' ++ rest.1, rest.2)

/-- Runs to a budget and collects the trace. -/
def collect (c : Cpu) (config : TraceConfig) (budget : Nat) : List Checkpoint × Stop × Cpu :=
  collectLoop xxh64 config (budget - c.icount) c

end
end ClickDoom
