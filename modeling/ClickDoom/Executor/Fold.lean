import ClickDoom.Base.ClickHouse
import ClickDoom.Spec.Map

/-! # The batch fold

The step expression of `executor/src/fold.rs`, in every formulation the builder
has, and the fold of it over a batch.

ClickHouse computes a sum, a difference or a product of 32-bit numbers in 64 bits
and the expression brings each one back with `toUInt32`.  The low half of such a
result does not depend on the width, so these are 32-bit operations here; where
the width is seen (the high half of a product, signed division, a length against
the high-water mark) it is written out.

The server evaluates every arm of every `if`, so each divisor has to be non-zero
whatever the row: `nzB` and `nzSb64` are values of a type that has no zero.
-/
namespace ClickDoom
open ClickHouse

/-! ## Constants of `executor/src/config.rs` -/

/-- How many words RAM has unless a caller says otherwise. -/
def ramWordsDefault : Word := 6291456#32

def haltNone : Byte := 0
def haltIllegalInsn : Byte := 1
def haltSelfModify : Byte := 2
def haltBadAddr : Byte := 3
def haltMisaligned : Byte := 4
def haltEcall : Byte := 5
def haltEbreak : Byte := 6
def haltCsr : Byte := 7
def haltExit : Byte := 8

def opLoad : Byte := 18
def opStore : Byte := 19
def opEcall : Byte := 28
def opEbreak : Byte := 29
def opCsr : Byte := 30
def opIllegal : Byte := 31

/-- Which formulation of the step the builder emits. -/
inductive Variant
  | baseline | inlineHaltCode | shortBindingParam | bindDecodeRow | bindRepeated | fewerConstants
  | moreConstants
  deriving DecidableEq, Repr

/-! ## What the step reads -/

/-- One row of `DEC`. -/
structure DecRow where row ::
  id : Byte
  rd : Byte
  rs1 : Byte
  rs2 : Byte
  imm : Word
  tgt : Word
  mk : Word
  sg : Byte
  raw : Word
  deriving DecidableEq, Inhabited, Repr

/-- The three arrays the lambda captures. -/
structure Captures where
  ramt : List Word
  dec : List DecRow
  keyqt : List (BitVec 16)

/-- The arguments of the builder.  The fields after the numbers are its asserts. -/
structure StepArgs where
  textStartWidx : Word
  textEndWidx : Word
  decn : Word
  ramWords : Word
  ramBase : Word
  hwm : Word
  ipms : Word
  text_le : textStartWidx ≤ textEndWidx
  text_inside : textEndWidx ≤ ramWords
  ipms_ne_zero : ipms ≠ 0
  framebuffer_below : framebufferBase < ramBase
  palette_below : paletteBase < ramBase

theorem StepArgs.textEnd_one : (0 : Word) ≤ 1 := by decide

/-- The further asserts of one formulation. -/
def StepArgs.Accepts (p : StepArgs) (v : Variant) : Prop :=
  v = .fewerConstants → 1 ≤ p.textEndWidx.toNat ∧ p.ramBase.toNat + p.ramWords.toNat * 4 ≤ 2 ^ 32

/-! ## The accumulator -/

/-- A write log: word addresses, values, and the count each write retired at. -/
structure Lanes where
  addr : List Word
  val : List Word
  icount : List Nat
  deriving DecidableEq, Inhabited

def Lanes.empty : Lanes := ⟨[], [], []⟩

/-- Appends one write. -/
def Lanes.push (l : Lanes) (addr val : Word) (icount : Nat) : Lanes :=
  ⟨arrayPushBack l.addr addr, arrayPushBack l.val val, arrayPushBack l.icount icount⟩

structure Control where
  stopped : Byte
  halted : Byte
  haltReason : Byte
  haltPc : Word
  haltExtra : Word
  deriving DecidableEq, Inhabited

structure MmioAcc where
  consoleBytes : List Byte
  keyqPos : Word
  frameNo : Word
  frameCommitted : Byte
  deriving DecidableEq, Inhabited

/-- The register checkpoints the batch crossed: 31 words of `regs` an entry. -/
structure Checkpoints where
  icount : List Nat
  pc : List Word
  regs : List Word
  deriving DecidableEq, Inhabited

/-- The accumulator.  `regs` is `x1` to `x31`; `icount` is the absolute count.
The source keeps the framebuffer's and the palette's lanes in one tuple. -/
structure Acc where
  pc : Word
  regs : List Word
  wl : Lanes
  control : Control
  icount : Nat
  mmio : MmioAcc
  fbWl : Lanes
  palWl : Lanes
  cp : Checkpoints
  deriving DecidableEq, Inhabited

/-! ## The expressions of one step -/

/-- What the names of a step stand for: the accumulator and the step's own
number, the decode row, both operands, the store value, the byte address, the
word index, and the RAM word there. -/
structure Env where
  acc : Acc
  i : Nat
  d : DecRow
  a : Word
  b : Word
  rs2v : Word
  addr : Word
  wa : Word
  lw : Word

/-- A register of the file without `x0`. -/
def readReg (regs : List Word) (r : Byte) : Word :=
  if r = 0 then 0 else arrayElement regs r.toNat

section
variable (v : Variant) (p : StepArgs)

def pcWidx (pc : Word) : Word := (pc - p.ramBase) >>> 2

def decIdx (pc : Word) : Nat := min (pcWidx p pc).toNat (p.decn - 1).toNat + 1

/-- Whether the fetch halts.  An empty window has nothing to be outside of. -/
def pcOutOfText (pc : Word) : Bool :=
  if p.textEndWidx = p.textStartWidx then false
  else if p.textStartWidx = 0 then p.textEndWidx ≤ pcWidx p pc
  else pcWidx p pc < p.textStartWidx || p.textEndWidx ≤ pcWidx p pc

def ramOff (addr : Word) : Word := (addr - p.ramBase) >>> 2

/-- The word index of an address, clamped into RAM. -/
def waSafe (addr : Word) : Word :=
  if ramOff p addr ≤ p.ramWords - 1 then ramOff p addr else p.ramWords - 1

/-- The word a load sees: the last write to it, else the captured array. -/
def lookupWord (wl : Lanes) (ramt : List Word) (wa : Word) : Word :=
  if 0 < arrayLastIndex (· = wa) wl.addr then
    arrayElement wl.val (arrayLastIndex (· = wa) wl.addr)
  else arrayElement ramt (wa.toNat + 1)

/-! ### The address -/

def addrOutsideRam (addr : Word) : Bool :=
  if v = .fewerConstants then p.ramWords - 1 < ramOff p addr
  else addr < p.ramBase || p.ramBase + p.ramWords * 4 ≤ addr

def alignMask (mk : Word) : Word :=
  if v = .fewerConstants then ((mk >>> 15) &&& 1#32) ||| ((mk >>> 30) &&& 2#32)
  else if mk = 4294967295 then 3 else if mk = 65535 then 1 else 0

def misaligned (e : Env) : Bool := e.addr &&& alignMask v e.d.mk ≠ 0

def mmioOff (e : Env) : Word := e.addr - mmioBase

def isMmio (e : Env) : Bool :=
  if v = .fewerConstants then mmioOff e < mmioSize
  else e.addr &&& (0xFFFFFFFF#32 ^^^ (mmioSize - 1#32)) = mmioBase

/-- Whether the address names a device register. -/
def mmioIs (e : Env) (reg : Word) : Bool :=
  if v = .fewerConstants then mmioOff e = reg else e.addr = mmioBase + reg

def isFb (e : Env) : Bool := e.addr - framebufferBase < framebufferSize

def isPal (e : Env) : Bool := e.addr - paletteBase < paletteSize

def isFbOrPalStore (e : Env) : Bool := e.d.id = opStore && (isFb e || isPal e)

def badAddr (e : Env) : Bool :=
  addrOutsideRam v p e.addr && !isMmio v e && !isFbOrPalStore e

def isMmioLoad (e : Env) : Bool := isMmio v e && e.d.id = opLoad && e.d.mk = 4294967295

def isMmioStore (e : Env) : Bool := isMmio v e && e.d.id = opStore && e.d.mk = 4294967295

/-! ### Loads and stores -/

def ticksMs (e : Env) : Word := BitVec.ofNat 32 (e.acc.icount / p.ipms.toNat)

variable (keyqt : List (BitVec 16))

def keyqHas (e : Env) : Bool := e.acc.mmio.keyqPos < BitVec.ofNat 32 keyqt.length

def keyqVal (e : Env) : Word :=
  if keyqHas keyqt e then (arrayElement keyqt (e.acc.mmio.keyqPos.toNat + 1)).setWidth 32 else 0

def mmioRead (e : Env) : Word :=
  if mmioIs v e Mmio.ticksMs then ticksMs p e
  else if mmioIs v e Mmio.keyq then keyqVal keyqt e
  else 0

/-- Eight times the byte's place in its word. -/
def shiftOf (e : Env) : Nat := 8 * (e.addr &&& 3#32).toNat

def extracted (e : Env) : Word := (e.lw >>> shiftOf e) &&& e.d.mk

def signPos (e : Env) : Word := (e.d.mk >>> 1) + 1#32

/-- A load's value out of RAM. -/
def ramLoad (e : Env) : Word :=
  extracted e - (if extracted e &&& signPos e ≠ 0 ∧ e.d.sg ≠ 0 then e.d.mk + 1 else 0)

def loadv (e : Env) : Word :=
  if isMmio v e && e.d.mk = 4294967295 then mmioRead v p keyqt e
  else if isMmio v e then 0
  else ramLoad e

/-- The word a store leaves: the masked bytes replaced, the others kept. -/
def sval (e : Env) : Word :=
  (e.lw &&& (4294967295#32 ^^^ (e.d.mk <<< shiftOf e))) ||| ((e.rs2v &&& e.d.mk) <<< shiftOf e)

/-! ### Results and targets -/

def linkValue (e : Env) : Word := e.acc.pc + 4

def jalrTarget (e : Env) : Word :=
  if v = .fewerConstants then (e.addr >>> 1) <<< 1 else e.addr &&& 4294967294#32

theorem signExtend_ne_zero {x : Word} (h : x ≠ 0) : x.signExtend 64 ≠ 0 := by
  intro hs
  apply h
  apply BitVec.eq_of_toInt_eq
  rw [← BitVec.toInt_signExtend_of_le (show 32 ≤ 64 by omega), hs]
  rfl

/-- The divisor of the unsigned arms. -/
def nzB (e : Env) : Divisor 32 :=
  if h : e.b = 0 then ⟨1, by decide⟩ else ⟨e.b, h⟩

/-- The divisor of the signed arms. -/
def nzSb64 (e : Env) : Divisor 64 :=
  if h : e.b = 0 then ⟨1, by decide⟩ else ⟨e.b.signExtend 64, signExtend_ne_zero h⟩

def boolUInt32 (b : Bool) : Word := if b then 1 else 0

def result (e : Env) : Word :=
  multiIf
    [ (e.d.id = 0, e.a + e.b)
    , (e.d.id = 1, e.a - e.b)
    , (e.d.id = 2, e.a <<< (e.b &&& 31#32))
    , (e.d.id = 3, boolUInt32 (e.a.slt e.b))
    , (e.d.id = 4, boolUInt32 (e.a < e.b))
    , (e.d.id = 5, e.a ^^^ e.b)
    , (e.d.id = 6, e.a >>> (e.b &&& 31#32))
    , (e.d.id = 7, e.a.sshiftRight' (e.b &&& 31#32))
    , (e.d.id = 8, e.a ||| e.b)
    , (e.d.id = 9, e.a &&& e.b)
    , (e.d.id = 10, e.a * e.b)
    , (e.d.id = 11, ((e.a.signExtend 64 * e.b.signExtend 64).sshiftRight 32).setWidth 32)
    , (e.d.id = 12, ((e.a.signExtend 64 * e.b.setWidth 64).sshiftRight 32).setWidth 32)
    , (e.d.id = 13, ((e.a.setWidth 64 * e.b.setWidth 64) >>> 32).setWidth 32)
    , (e.d.id = 14, if e.b = 0 then 4294967295
        else (intDivSigned (e.a.signExtend 64) (nzSb64 e)).setWidth 32)
    , (e.d.id = 15, if e.b = 0 then 4294967295 else intDiv e.a (nzB e))
    , (e.d.id = 16, if e.b = 0 then e.a
        else (moduloSigned (e.a.signExtend 64) (nzSb64 e)).setWidth 32)
    , (e.d.id = 17, if e.b = 0 then e.a else modulo e.a (nzB e))
    , (e.d.id = opLoad, loadv v p keyqt e) ]
    (linkValue e)

def fallthrough (e : Env) : Word := e.acc.pc + 4

def next (e : Env) : Word :=
  multiIf
    [ (e.d.id = 20, if e.a = e.b then e.d.tgt else fallthrough e)
    , (e.d.id = 21, if e.a ≠ e.b then e.d.tgt else fallthrough e)
    , (e.d.id = 22, if e.a.slt e.b then e.d.tgt else fallthrough e)
    , (e.d.id = 23, if !e.a.slt e.b then e.d.tgt else fallthrough e)
    , (e.d.id = 24, if e.a < e.b then e.d.tgt else fallthrough e)
    , (e.d.id = 25, if e.b ≤ e.a then e.d.tgt else fallthrough e)
    , (e.d.id = 26, e.d.tgt)
    , (e.d.id = 27, jalrTarget v e) ]
    (fallthrough e)

/-! ### The halt -/

def isLoad (e : Env) : Bool := e.d.id = opLoad
def isStore (e : Env) : Bool := e.d.id = opStore
def isMem (e : Env) : Bool := isLoad e || isStore e

def wouldJump (e : Env) : Bool :=
  multiIf
    [ (e.d.id = 20, e.a = e.b)
    , (e.d.id = 21, e.a ≠ e.b)
    , (e.d.id = 22, e.a.slt e.b)
    , (e.d.id = 23, !e.a.slt e.b)
    , (e.d.id = 24, e.a < e.b)
    , (e.d.id = 25, e.b ≤ e.a)
    , (e.d.id = 26, true)
    , (e.d.id = 27, true) ]
    false

def jumpTargetIfTaken (e : Env) : Word := if e.d.id = 27 then jalrTarget v e else e.d.tgt

def isJumpOp (e : Env) : Bool := (20 : Byte) ≤ e.d.id && e.d.id ≤ (27 : Byte)

def jumpMisaligned (e : Env) : Bool :=
  isJumpOp e && wouldJump e && jumpTargetIfTaken v e &&& 3#32 ≠ 0

/-- Whether a framebuffer or palette address can never clamp into the text
window, so that the self-modify arm needs no guard against one. -/
def fbPalWaProvablyOutsideText : Bool :=
  [framebufferBase, paletteBase].all fun base =>
    let shifted := ((2 ^ 32 - (p.ramBase.toNat - base.toNat)) % 2 ^ 32) / 4
    !(shifted < (p.ramWords - 1).toNat || (p.ramWords - 1).toNat < p.textEndWidx.toNat)

def selfModifyExtraGuard (e : Env) : Bool :=
  if fbPalWaProvablyOutsideText p then true else !isFbOrPalStore e

def textUpper (e : Env) : Bool :=
  if v = .fewerConstants then e.wa ≤ p.textEndWidx - 1 else e.wa < p.textEndWidx

/-- A store that lands in the text window. -/
def selfModify (e : Env) : Bool :=
  isStore e && !badAddr v p e && !misaligned v e && !isMmio v e && selfModifyExtraGuard p e &&
    p.textStartWidx ≤ e.wa && textUpper v p e

/-- The order of the arms is the precedence of halts. -/
def haltCode (e : Env) : Byte :=
  multiIf
    [ (pcOutOfText p e.acc.pc, haltBadAddr)
    , (e.d.id = opIllegal, haltIllegalInsn)
    , (e.d.id = opEcall, haltEcall)
    , (e.d.id = opEbreak, haltEbreak)
    , (e.d.id = opCsr, haltCsr)
    , (jumpMisaligned v e, haltMisaligned)
    , (isMem e && misaligned v e, haltMisaligned)
    , (isMem e && badAddr v p e, haltBadAddr)
    , (isFbOrPalStore e && e.d.mk ≠ 4294967295, haltBadAddr)
    , (selfModify v p e, haltSelfModify)
    , (isMmioStore v e && !misaligned v e && mmioIs v e Mmio.exit, haltExit) ]
    haltNone

def active (e : Env) : Bool := e.acc.control.stopped = 0
def stepHaltsNow (e : Env) (hc : Byte) : Bool := active e && hc ≠ 0
def stepRetires (e : Env) (hc : Byte) : Bool := active e && hc = 0

/-- The address, word or exit code a halt carries. -/
def haltExtraCalc (e : Env) (hc : Byte) : Word :=
  if pcOutOfText p e.acc.pc then e.acc.pc
  else if hc = haltIllegalInsn then e.d.raw
  else if hc = haltExit then e.rs2v
  else if jumpMisaligned v e then jumpTargetIfTaken v e
  else if hc = haltBadAddr ∨ hc = haltMisaligned ∨ hc = haltSelfModify then e.addr
  else 0

/-- `MoreConstants` puts sixty arms in front, for halt codes 33 to 92. -/
def haltExtra (e : Env) (hc : Byte) : Word :=
  if v = .moreConstants then
    if (List.range 60).any fun n => hc = BitVec.ofNat 8 (33 + n) then 0 else haltExtraCalc v p e hc
  else haltExtraCalc v p e hc

/-! ### The new accumulator -/

def isRetiringStore (e : Env) (hc : Byte) : Bool :=
  stepRetires e hc && isStore e && !isMmio v e && !isFbOrPalStore e

def hitsHwm (e : Env) (hc : Byte) : Bool :=
  isRetiringStore v e hc && p.hwm.toNat ≤ (BitVec.ofNat 32 e.acc.wl.addr.length).toNat + 1

def frameCommittedNow (e : Env) (hc : Byte) : Bool :=
  stepRetires e hc && isMmioStore v e && mmioIs v e Mmio.frameCommit

def newWl (e : Env) (hc : Byte) : Lanes :=
  if isRetiringStore v e hc then e.acc.wl.push e.wa (sval e) (e.acc.icount + 1) else e.acc.wl

def newControl (e : Env) (hc : Byte) : Control :=
  if stepHaltsNow e hc then ⟨1, 1, hc, e.acc.pc, haltExtra v p e hc⟩
  else if hitsHwm v p e hc || frameCommittedNow v e hc then { e.acc.control with stopped := 1 }
  else e.acc.control

def newFbWl (e : Env) (hc : Byte) : Lanes :=
  if stepRetires e hc && isStore e && isFb e then
    e.acc.fbWl.push ((e.addr - framebufferBase) >>> 2) e.rs2v (e.acc.icount + 1)
  else e.acc.fbWl

def newPalWl (e : Env) (hc : Byte) : Lanes :=
  if stepRetires e hc && isStore e && isPal e then
    e.acc.palWl.push ((e.addr - paletteBase) >>> 2) e.rs2v (e.acc.icount + 1)
  else e.acc.palWl

/-- A boundary is recorded one step after the instruction that reached it; the
first step of a batch leaves the one the batch before it ended on alone. -/
def atCheckpoint (e : Env) : Bool :=
  active e && 0 < e.i && e.acc.icount ≠ 0 && e.acc.icount % checkpointInterval = 0

def newCp (e : Env) : Checkpoints :=
  if atCheckpoint e then
    ⟨arrayPushBack e.acc.cp.icount e.acc.icount, arrayPushBack e.acc.cp.pc e.acc.pc,
      e.acc.cp.regs ++ e.acc.regs⟩
  else e.acc.cp

def newConsole (e : Env) (hc : Byte) : List Byte :=
  if stepRetires e hc && isMmioStore v e && mmioIs v e Mmio.putchar then
    arrayPushBack e.acc.mmio.consoleBytes (e.rs2v.setWidth 8)
  else e.acc.mmio.consoleBytes

def newKeyqPos (e : Env) (hc : Byte) : Word :=
  if stepRetires e hc && isMmioLoad v e && mmioIs v e Mmio.keyq && keyqHas keyqt e then
    e.acc.mmio.keyqPos + 1
  else e.acc.mmio.keyqPos

def newMmio (e : Env) (hc : Byte) : MmioAcc where
  consoleBytes := newConsole v e hc
  keyqPos := newKeyqPos v keyqt e hc
  frameNo := if frameCommittedNow v e hc then e.rs2v else e.acc.mmio.frameNo
  frameCommitted := if frameCommittedNow v e hc then 1 else e.acc.mmio.frameCommitted

def newRegs (e : Env) (hc : Byte) : List Word :=
  if stepRetires e hc && e.d.rd ≠ 0 then
    arraySlice e.acc.regs 1 (e.d.rd.toNat - 1) ++ [result v p keyqt e] ++
      arraySliceFrom e.acc.regs (e.d.rd.toNat + 1)
  else e.acc.regs

/-- The tuple a step returns, under its bindings. -/
def stepTuple (e : Env) (hc : Byte) : Acc where
  pc := if stepRetires e hc then next v e else e.acc.pc
  regs := newRegs v p keyqt e hc
  wl := newWl v e hc
  control := newControl v p e hc
  icount := if stepRetires e hc then e.acc.icount + 1 else e.acc.icount
  mmio := newMmio v keyqt e hc
  fbWl := newFbWl e hc
  palWl := newPalWl e hc
  cp := newCp e

end

/-- The `arrayFold` lambda the builder emits. -/
def buildStep (v : Variant) (p : StepArgs) (cap : Captures) (acc : Acc) (i : Nat) : Acc :=
  let bindAll := v = .bindRepeated
  let bindDec := bindAll ∨ v = .bindDecodeRow
  bound bindDec (arrayElement cap.dec (decIdx p acc.pc)) fun d =>
  bound bindAll (readReg acc.regs d.rs1) fun va =>
  bound bindAll (readReg acc.regs d.rs2 + d.imm) fun vb =>
  bound bindAll (readReg acc.regs d.rs2) fun vr2 =>
  bound bindAll (va + d.imm) fun ad =>
  bound bindAll (waSafe p ad) fun wx =>
  bound bindAll (lookupWord acc.wl cap.ramt wx) fun mw =>
  let e : Env := ⟨acc, i, d, va, vb, vr2, ad, wx, mw⟩
  bound (v ≠ .inlineHaltCode) (haltCode v p e) fun hc =>
  stepTuple v p cap.keyqt e hc

/-- The environment of a step: every name bound to its expression. -/
def env (p : StepArgs) (cap : Captures) (acc : Acc) (i : Nat) : Env :=
  let d := arrayElement cap.dec (decIdx p acc.pc)
  let addr := readReg acc.regs d.rs1 + d.imm
  { acc, i, d, addr
    a := readReg acc.regs d.rs1
    b := readReg acc.regs d.rs2 + d.imm
    rs2v := readReg acc.regs d.rs2
    wa := waSafe p addr
    lw := lookupWord acc.wl cap.ramt (waSafe p addr) }

/-- Whatever a formulation binds, its step is its tuple under the environment. -/
theorem buildStep_eq (v : Variant) (p : StepArgs) (cap : Captures) (acc : Acc) (i : Nat) :
    buildStep v p cap acc i =
      stepTuple v p cap.keyqt (env p cap acc i) (haltCode v p (env p cap acc i)) := by
  simp only [buildStep, bound_eq]
  rfl

/-- The accumulator a batch starts from. -/
def initAcc (pc0 : Word) (regs0 : List Word) (wl0 : Lanes) (icount0 : Nat) (keyq0 : Word) : Acc where
  pc := pc0
  regs := regs0
  wl := wl0
  control := ⟨0, 0, 0, 0, 0⟩
  icount := icount0
  mmio := ⟨[], keyq0, 0, 0⟩
  fbWl := .empty
  palWl := .empty
  cp := ⟨[], [], []⟩

/-- The fold of a batch: `k` steps. -/
def foldBatch (v : Variant) (p : StepArgs) (cap : Captures) (k : Nat) (init : Acc) : Acc :=
  arrayFold (buildStep v p cap) (List.range k) init

end ClickDoom
