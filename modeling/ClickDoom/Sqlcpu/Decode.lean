import ClickDoom.Executor.Fold

/-! # The decode table

`sqlcpu/decode.sql`: the query that turns the words of the text region into the
rows the fold dispatches on.  Every column is a function of the word and its
address, so running it again over the same words gives the same table.
-/
namespace ClickDoom
open ClickHouse

/-- The query's `fields`: the bit fields of a word, its five immediates, and the
byte address of the word. -/
structure Fields where
  w : Word
  op : Word
  rdF : Word
  f3 : Word
  rs1F : Word
  rs2F : Word
  f7 : Word
  iimm : Word
  simm : Word
  uimm : Word
  bimm : Word
  jimm : Word
  sysimm : Word
  pc : Word

/-- What the top bit of a word takes off an immediate. -/
def signOff (value off : Word) : Word := if value &&& 2147483648#32 ≠ 0 then off else 0

def fields (wordAddr value : Word) : Fields where
  w := value
  op := value &&& 127#32
  rdF := (value >>> 7) &&& 31#32
  f3 := (value >>> 12) &&& 7#32
  rs1F := (value >>> 15) &&& 31#32
  rs2F := (value >>> 20) &&& 31#32
  f7 := value >>> 25
  iimm := (value >>> 20) - signOff value 4096
  simm := (((value &&& 4294967295#32) >>> 25) * 32#32 ||| ((value >>> 7) &&& 31#32)) - signOff value 4096
  uimm := value &&& 4294963200#32
  bimm := ((value >>> 7) &&& 30#32) + ((value >>> 20) &&& 2016#32) +
    (((value >>> 7) &&& 1#32) <<< 11) - signOff value 4096
  jimm := ((value >>> 20) &&& 2046#32) + (((value >>> 20) &&& 1#32) <<< 11) +
    (value &&& 1044480#32) - signOff value 1048576
  sysimm := (value >>> 20) &&& 4095#32
  pc := wordAddr * 4#32

section
variable (f : Fields)

/-- The dispatch id. -/
def decodedId : Byte :=
  multiIf
    [ (f.op == 55, 0)
    , (f.op == 23, 0)
    , (f.op == 111, 26)
    , (f.op == 103 && f.f3 == 0, 27)
    , (f.op == 103, 31)
    , (f.op == 99 && f.f3 == 0, 20)
    , (f.op == 99 && f.f3 == 1, 21)
    , (f.op == 99 && f.f3 == 4, 22)
    , (f.op == 99 && f.f3 == 5, 23)
    , (f.op == 99 && f.f3 == 6, 24)
    , (f.op == 99 && f.f3 == 7, 25)
    , (f.op == 99, 31)
    , (f.op == 3 && f.f3 ∈ [0, 1, 2, 4, 5], 18)
    , (f.op == 3, 31)
    , (f.op == 35 && f.f3 ∈ [0, 1, 2], 19)
    , (f.op == 35, 31)
    , (f.op == 15, 0)
    , (f.op == 19 && f.f3 == 0, 0)
    , (f.op == 19 && f.f3 == 1 && f.f7 == 0, 2)
    , (f.op == 19 && f.f3 == 2, 3)
    , (f.op == 19 && f.f3 == 3, 4)
    , (f.op == 19 && f.f3 == 4, 5)
    , (f.op == 19 && f.f3 == 5 && f.f7 == 0, 6)
    , (f.op == 19 && f.f3 == 5 && f.f7 == 32, 7)
    , (f.op == 19 && f.f3 == 6, 8)
    , (f.op == 19 && f.f3 == 7, 9)
    , (f.op == 19, 31)
    , (f.op == 51 && f.f7 == 1 && f.f3 == 0, 10)
    , (f.op == 51 && f.f7 == 1 && f.f3 == 1, 11)
    , (f.op == 51 && f.f7 == 1 && f.f3 == 2, 12)
    , (f.op == 51 && f.f7 == 1 && f.f3 == 3, 13)
    , (f.op == 51 && f.f7 == 1 && f.f3 == 4, 14)
    , (f.op == 51 && f.f7 == 1 && f.f3 == 5, 15)
    , (f.op == 51 && f.f7 == 1 && f.f3 == 6, 16)
    , (f.op == 51 && f.f7 == 1 && f.f3 == 7, 17)
    , (f.op == 51 && f.f7 == 0 && f.f3 == 0, 0)
    , (f.op == 51 && f.f7 == 32 && f.f3 == 0, 1)
    , (f.op == 51 && f.f7 == 0 && f.f3 == 1, 2)
    , (f.op == 51 && f.f7 == 0 && f.f3 == 2, 3)
    , (f.op == 51 && f.f7 == 0 && f.f3 == 3, 4)
    , (f.op == 51 && f.f7 == 0 && f.f3 == 4, 5)
    , (f.op == 51 && f.f7 == 0 && f.f3 == 5, 6)
    , (f.op == 51 && f.f7 == 32 && f.f3 == 5, 7)
    , (f.op == 51 && f.f7 == 0 && f.f3 == 6, 8)
    , (f.op == 51 && f.f7 == 0 && f.f3 == 7, 9)
    , (f.op == 51, 31)
    , (f.op == 115 && f.f3 == 0 && f.sysimm == 0, 28)
    , (f.op == 115 && f.f3 == 0 && f.sysimm == 1, 29)
    , (f.op == 115 && f.f3 ∈ [1, 2, 3, 5, 6, 7], 30) ]
    31

/-- A register field, where the opcode has one. -/
def decodedReg (ops : List Word) (field : Word) : Byte :=
  if f.op ∈ ops then field.setWidth 8 else 0

def decodedImm : Word :=
  multiIf
    [ (f.op = 55, f.uimm)
    , (f.op = 23, f.pc + f.uimm)
    , (f.op = 19 ∧ f.f3 ∈ [1, 5], f.rs2F)
    , (f.op = 19, f.iimm)
    , (f.op = 3, f.iimm)
    , (f.op = 35, f.simm)
    , (f.op = 103, f.iimm) ]
    0

def decodedTgt : Word :=
  multiIf
    [ (f.op = 111, f.pc + f.jimm)
    , (f.op = 99, f.pc + f.bimm) ]
    0

/-- The bytes of a load or a store, as a mask. -/
def decodedMk : Word :=
  multiIf
    [ (f.op = 3 ∧ f.f3 ∈ [0, 4], 255)
    , (f.op = 3 ∧ f.f3 ∈ [1, 5], 65535)
    , (f.op = 3 ∧ f.f3 = 2, 4294967295)
    , (f.op = 35 ∧ f.f3 = 0, 255)
    , (f.op = 35 ∧ f.f3 = 1, 65535)
    , (f.op = 35 ∧ f.f3 = 2, 4294967295) ]
    0

/-- A flag column. -/
def flag (b : Bool) : Byte := if b then 1 else 0

end

/-- One row of `clickdoom.decoded`. -/
structure Decoded where
  wordAddr : Word
  dec : DecRow
  mSg1 : Byte
  mSg2 : Byte
  mHi : Byte
  dSg : Byte
  cmpSel : Byte
  neg : Byte
  tgtMis : Byte
  deriving DecidableEq

/-- The row of one word.  The columns the fold reads are `dec`. -/
def decodedRow (wordAddr value : Word) : Decoded :=
  let f := fields wordAddr value
  { wordAddr
    dec :=
      { id := decodedId f
        rd := decodedReg f [55, 23, 111, 103, 3, 19, 51, 115] f.rdF
        rs1 := decodedReg f [19, 51, 3, 35, 99, 103, 115] f.rs1F
        rs2 := decodedReg f [51, 35, 99] f.rs2F
        imm := decodedImm f
        tgt := decodedTgt f
        mk := decodedMk f
        sg := flag (f.op = 3 ∧ f.f3 ∈ [0, 1])
        raw := f.w }
    mSg1 := flag (f.op = 51 ∧ f.f7 = 1 ∧ f.f3 ∈ [0, 1, 2])
    mSg2 := flag (f.op = 51 ∧ f.f7 = 1 ∧ f.f3 ∈ [0, 1])
    mHi := flag (f.op = 51 ∧ f.f7 = 1 ∧ f.f3 ∈ [1, 2, 3])
    dSg := flag (f.op = 51 ∧ f.f7 = 1 ∧ f.f3 ∈ [4, 6])
    cmpSel := multiIf [(f.op = 99 ∧ f.f3 ∈ [4, 5], 1), (f.op = 99 ∧ f.f3 ∈ [6, 7], 2)] 0
    neg := flag (f.op = 99 ∧ f.f3 ∈ [1, 5, 7])
    tgtMis := flag (decodedTgt f &&& 3#32 ≠ 0) }

/-- The statement: the rows of the words of `[textStartWord, textEndWord)`, from
the rows of `ram FINAL` in the order of their addresses. -/
def decodeSql (textStartWord textEndWord : Word) (ram : List (Word × Word)) : List Decoded :=
  (ram.filter fun (wordAddr, _) => textStartWord ≤ wordAddr ∧ wordAddr < textEndWord).map
    fun (wordAddr, value) => decodedRow wordAddr value

end ClickDoom
