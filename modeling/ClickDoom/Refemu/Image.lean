import ClickDoom.Base.Panics
import ClickDoom.Refemu.Exec

/-! # Reading an ELF

`refemu/src/image.rs`: the loadable segments and the symbols of a file that somebody
else wrote.  Every offset, size and count comes out of the file; a read goes through
`slice`, which checks its range, and the sums before it are what could overflow.
-/
namespace ClickDoom
open LittleEndian

/-! ## The file format -/

def elfMagic : List Byte := [0x7F, 0x45, 0x4C, 0x46]
def elfClass32 : Byte := 1
def elfData2Lsb : Byte := 1
def emRiscv : BitVec 16 := 243
def ptLoad : Word := 1
def pfX : Word := 1
def shtSymtab : Word := 2
def sttNoType : Byte := 0
def sttObject : Byte := 1
def sttFunc : Byte := 2

def ehdrSize : Nat := 52
def phdrSize : Nat := 32
def shdrSize : Nat := 40
def symSize : Nat := 16

inductive ImageError where
  | truncated (pos : Nat) (what : String)
  | notElf
  | wrongClass
  | wrongMachine (machine : BitVec 16)
  | noSegments
  | segmentTooLong (vaddr filesz memsz : Word)
  | segmentWraps (vaddr memsz : Word)
  deriving DecidableEq

deriving instance DecidableEq for Segment

/-- A segment as the parser returns it. -/
structure ElfSegment extends Segment where
  executable : Bool
  deriving DecidableEq

/-- What a symbol names. -/
inductive SymbolKind where
  | function
  | object
  | untyped
  deriving DecidableEq

structure Symbol where
  addr : Word
  size : Word
  name : String
  kind : SymbolKind
  deriving DecidableEq

/-- An image as the parser returns it. -/
structure ElfImage where
  entry : Word
  segments : List ElfSegment
  symbols : List Symbol
  deriving DecidableEq

/-- What a machine loads of it. -/
def ElfImage.image (elf : ElfImage) : Image where
  entry := elf.entry
  segments := elf.segments.map (·.toSegment)

/-! ## Names -/

namespace Utf8

/-- A byte that continues a character. -/
def continues (b : Byte) : Bool := b &&& 0xC0 = 0x80

/-- The second bytes a character of three or four bytes may have. -/
def second (first b : Byte) : Bool :=
  if first = 0xE0 then 0xA0 ≤ b && b ≤ 0xBF
  else if first = 0xED then 0x80 ≤ b && b ≤ 0x9F
  else if first = 0xF0 then 0x90 ≤ b && b ≤ 0xBF
  else if first = 0xF4 then 0x80 ≤ b && b ≤ 0x8F
  else continues b

/-- The bits a continuing byte carries. -/
def low (b : Byte) : Nat := (b &&& 0x3F).toNat

/-- The character that replaces what is no character. -/
def replacement : Char := Char.ofNat 0xFFFD

/-- The next character and how many bytes after the first it takes.  What is no
character is replaced as far as it could have started one. -/
def next (b : Byte) (rest : List Byte) : Char × Nat :=
  let b1 := rest.getD 0 0
  let b2 := rest.getD 1 0
  let b3 := rest.getD 2 0
  if b < 0x80 then (Char.ofNat b.toNat, 0)
  else if 0xC2 ≤ b ∧ b ≤ 0xDF then
    if continues b1 then (Char.ofNat ((b &&& 0x1F).toNat * 64 + low b1), 1) else (replacement, 0)
  else if 0xE0 ≤ b ∧ b ≤ 0xEF then
    if !second b b1 then (replacement, 0)
    else if !continues b2 then (replacement, 1)
    else (Char.ofNat ((b &&& 0x0F).toNat * 4096 + low b1 * 64 + low b2), 2)
  else if 0xF0 ≤ b ∧ b ≤ 0xF4 then
    if !second b b1 then (replacement, 0)
    else if !continues b2 then (replacement, 1)
    else if !continues b3 then (replacement, 2)
    else (Char.ofNat ((b &&& 0x07).toNat * 262144 + low b1 * 4096 + low b2 * 64 + low b3), 3)
  else (replacement, 0)

/-- The characters of at most `n` bytes. -/
def chars : Nat → List Byte → List Char
  | 0, _ => []
  | _, [] => []
  | n + 1, b :: rest => (next b rest).1 :: chars n (rest.drop (next b rest).2)

/-- `String::from_utf8_lossy`. -/
def fromLossy (bytes : List Byte) : String := String.ofList (chars bytes.length bytes)

end Utf8

/-! ## Bounds-checked reads -/

namespace Reader
open Panics
variable (file : List Byte)

def slice (pos len : Nat) (what : String) : Panics ImageError (List Byte) :=
  match checkedAdd pos len with
  | none => fail (.truncated pos what)
  | some stop =>
    match getRange file pos stop with
    | none => fail (.truncated pos what)
    | some bytes => .ok bytes

def u8 (pos : Nat) (what : String) : Panics ImageError Byte := do
  let bytes ← slice file pos 1 what
  index bytes 0

def u16 (pos : Nat) (what : String) : Panics ImageError (BitVec 16) := do
  let bytes ← slice file pos 2 what
  let b0 ← index bytes 0
  let b1 ← index bytes 1
  return b1 ++ b0

def u32 (pos : Nat) (what : String) : Panics ImageError Word := do
  let bytes ← slice file pos 4 what
  let b0 ← index bytes 0
  let b1 ← index bytes 1
  let b2 ← index bytes 2
  let b3 ← index bytes 3
  return word b0 b1 b2 b3

/-- A name from a string table, stopping at the table's end. -/
def string (table size pos : Nat) : Panics ImageError String :=
  if pos ≥ size then .ok ""
  else do
    let available ← slice file table size "a string table"
    let tail ← range available pos available.length
    let stop := (tail.findIdx? (· = 0)).getD tail.length
    let name ← range tail 0 stop
    return Utf8.fromLossy name

end Reader

/-! ## The parser -/

section
open Panics Reader
variable (file : List Byte)

/-- One pass over the segment table: what it pushes. -/
def readSegment (phoff phentsize index : Nat) : Panics ImageError (List ElfSegment) := do
  let pos ← add phoff (← mul index phentsize)
  let type ← u32 file pos "a segment header"
  if type ≠ ptLoad then
    return []
  else
    let offset ← u32 file (← add pos 4) "a segment offset"
    let vaddr ← u32 file (← add pos 8) "a segment address"
    let filesz ← u32 file (← add pos 16) "a segment file size"
    let memsz ← u32 file (← add pos 20) "a segment memory size"
    let flags ← u32 file (← add pos 24) "a segment's flags"
    if filesz > memsz then
      fail (.segmentTooLong vaddr filesz memsz)
    else if memsz = 0 then
      return []
    else if 2 ^ 32 ≤ vaddr.toNat + memsz.toNat then
      fail (.segmentWraps vaddr memsz)
    else
      match (checkedAdd offset.toNat filesz.toNat).filter (· ≤ file.length) with
      | none => fail (.truncated offset.toNat "a segment's contents")
      | some stop =>
        let bytes ← range file offset.toNat stop
        return [{ vaddr, bytes, memLen := memsz, executable := flags &&& pfX ≠ 0 }]

def symbolKind (type : Byte) (size : Word) : Option SymbolKind :=
  if type = sttFunc then some .function
  else if type = sttObject then some .object
  else if type = sttNoType ∧ size > 0 then some .untyped
  else none

/-- One pass over a symbol table. -/
def readSymbol (offset strOff strSize entry : Nat) : Panics ImageError (List Symbol) := do
  let sym ← add offset (← mul entry symSize)
  let info ← u8 file (← add sym 12) "a symbol's kind"
  let size ← u32 file (← add sym 8) "a symbol's size"
  match symbolKind (info &&& 0xF) size with
  | none => return []
  | some kind =>
    let nameAt ← u32 file sym "a symbol's name"
    let addr ← u32 file (← add sym 4) "a symbol's address"
    let name ← string file strOff strSize nameAt.toNat
    if name = "" then return [] else return [{ addr, size, name, kind }]

/-- One pass over the section table. -/
def readSymbolTable (shoff shentsize shnum index : Nat) : Panics ImageError (List Symbol) := do
  let pos ← add shoff (← mul index shentsize)
  let type ← u32 file (← add pos 4) "a section type"
  if type ≠ shtSymtab then
    return []
  else
    let offset ← u32 file (← add pos 16) "a symbol table offset"
    let size ← u32 file (← add pos 20) "a symbol table size"
    let strtabIndex ← u32 file (← add pos 24) "a string table index"
    if strtabIndex.toNat ≥ shnum then
      return []
    else
      let strAt ← add shoff (← mul strtabIndex.toNat shentsize)
      let strOff ← u32 file (← add strAt 16) "a string table offset"
      let strSize ← u32 file (← add strAt 20) "a string table size"
      gather (readSymbol file offset.toNat strOff.toNat strSize.toNat)
        (List.range (size.toNat / symSize))

/-- By address, then by name. -/
def Symbol.Before (a b : Symbol) : Prop := a.addr < b.addr ∨ a.addr = b.addr ∧ a.name ≤ b.name

instance : DecidableRel Symbol.Before := fun a b =>
  inferInstanceAs (Decidable (a.addr < b.addr ∨ a.addr = b.addr ∧ a.name ≤ b.name))

/-- By address. -/
def ElfSegment.Before (a b : ElfSegment) : Prop := a.vaddr ≤ b.vaddr

instance : DecidableRel ElfSegment.Before := fun a b =>
  inferInstanceAs (Decidable (a.vaddr ≤ b.vaddr))

def readSymbols (shoff shentsize shnum : Nat) : Panics ImageError (List Symbol) := do
  let symbols ← gather (readSymbolTable file shoff shentsize shnum) (List.range shnum)
  return symbols.insertionSort Symbol.Before

/-- The segments, when the file has a segment table. -/
def parseSegments (phoff phentsize phnum : Nat) : Panics ImageError (List ElfSegment) :=
  if phnum > 0 ∧ phentsize ≥ phdrSize then
    gather (readSegment file phoff phentsize) (List.range phnum)
  else .ok []

/-- The symbols, when it has a section table. -/
def parseSymbols (shoff shentsize shnum : Nat) : Panics ImageError (List Symbol) :=
  if shnum > 0 ∧ shentsize ≥ shdrSize then readSymbols file shoff shentsize shnum else .ok []

/-- `parse_elf`, from the two tables on. -/
def parseTables (entry : Word) (phoff shoff phentsize phnum shentsize shnum : Nat) :
    Panics ImageError ElfImage := do
  let segments ← parseSegments file phoff phentsize phnum
  if segments = [] then
    fail .noSegments
  else
    let symbols ← parseSymbols file shoff shentsize shnum
    return { entry, segments := segments.insertionSort ElfSegment.Before, symbols }

/-- Parses an ELF, taking its loadable segments and its symbols. -/
def parseElf : Panics ImageError ElfImage := do
  if file.length < ehdrSize then
    fail (.truncated file.length "the file header")
  else
    let magic ← range file 0 4
    let elfClass ← index file 4
    let elfData ← index file 5
    if magic ≠ elfMagic then
      fail .notElf
    else if elfClass ≠ elfClass32 ∨ elfData ≠ elfData2Lsb then
      fail .wrongClass
    else
      let machine ← u16 file 18 "the machine"
      if machine ≠ emRiscv then
        fail (.wrongMachine machine)
      else
        let entry ← u32 file 24 "the entry point"
        let phoff ← u32 file 28 "the segment table offset"
        let shoff ← u32 file 32 "the section table offset"
        let phentsize ← u16 file 42 "the segment entry size"
        let phnum ← u16 file 44 "the segment count"
        let shentsize ← u16 file 46 "the section entry size"
        let shnum ← u16 file 48 "the section count"
        parseTables file entry phoff.toNat shoff.toNat phentsize.toNat phnum.toNat shentsize.toNat
          shnum.toNat

end

/-! ## What a read finds -/

/-- The word at a byte of a file. -/
def wordFrom (file : List Byte) (pos : Nat) : Word :=
  word (file.getD pos 0) (file.getD (pos + 1) 0) (file.getD (pos + 2) 0) (file.getD (pos + 3) 0)

/-- The half word at a byte of a file. -/
def halfFrom (file : List Byte) (pos : Nat) : BitVec 16 := file.getD (pos + 1) 0 ++ file.getD pos 0

namespace Reader
open Panics
variable {file : List Byte} {pos : Nat} {what : String}

theorem slice_cases (file : List Byte) (pos : Nat) (what : String) (len : Nat) :
    slice file pos len what = fail (.truncated pos what) ∨
      pos + len ≤ file.length ∧ slice file pos len what = .ok ((file.drop pos).take len) := by
  rw [slice, checkedAdd]
  by_cases hsum : pos + len < 2 ^ 64
  · rw [if_pos hsum]
    by_cases hin : pos + len ≤ file.length
    · refine Or.inr ⟨hin, ?_⟩
      simp only [getRange, hin, Nat.le_add_right, and_self, if_true, Nat.add_sub_cancel_left]
    · left
      simp only [getRange, hin, and_false, if_false]
  · left
    rw [if_neg hsum]

theorem index_slice {len i : Nat} (h : pos + len ≤ file.length) (hi : i < len) :
    (index ((file.drop pos).take len) i : Panics ImageError Byte) = .ok (file.getD (pos + i) 0) := by
  apply index_eq
  have hpos : pos + i < file.length := by omega
  rw [List.getElem?_take_of_lt hi, List.getElem?_drop, List.getD_eq_getElem?_getD,
    List.getElem?_eq_getElem hpos]
  rfl

theorem u8_cases (file : List Byte) (pos : Nat) (what : String) :
    u8 file pos what = fail (.truncated pos what) ∨
    pos + 1 ≤ file.length ∧ u8 file pos what = .ok (file.getD pos 0) := by
  rw [u8]
  rcases slice_cases file pos what 1 with h | ⟨hin, h⟩
  · rw [h]
    exact Or.inl rfl
  · rw [h, ok_bind, index_slice hin (by omega)]
    exact Or.inr ⟨hin, rfl⟩

theorem u16_cases (file : List Byte) (pos : Nat) (what : String) :
    u16 file pos what = fail (.truncated pos what) ∨
    pos + 2 ≤ file.length ∧ u16 file pos what = .ok (halfFrom file pos) := by
  rw [u16]
  rcases slice_cases file pos what 2 with h | ⟨hin, h⟩
  · rw [h]
    exact Or.inl rfl
  · rw [h, ok_bind, index_slice hin (by omega), ok_bind, index_slice hin (by omega)]
    exact Or.inr ⟨hin, rfl⟩

theorem u32_cases (file : List Byte) (pos : Nat) (what : String) :
    u32 file pos what = fail (.truncated pos what) ∨
    pos + 4 ≤ file.length ∧ u32 file pos what = .ok (wordFrom file pos) := by
  rw [u32]
  rcases slice_cases file pos what 4 with h | ⟨hin, h⟩
  · rw [h]
    exact Or.inl rfl
  · rw [h, ok_bind, index_slice hin (by omega), ok_bind, index_slice hin (by omega), ok_bind,
      index_slice hin (by omega), ok_bind, index_slice hin (by omega)]
    exact Or.inr ⟨hin, rfl⟩

theorem safe_u8 : Safe (u8 file pos what) := by
  rcases u8_cases file pos what with h | ⟨-, h⟩ <;> rw [h]
  · exact safe_fail _
  · exact safe_ok _

theorem safe_u16 : Safe (u16 file pos what) := by
  rcases u16_cases file pos what with h | ⟨-, h⟩ <;> rw [h]
  · exact safe_fail _
  · exact safe_ok _

theorem safe_u32 : Safe (u32 file pos what) := by
  rcases u32_cases file pos what with h | ⟨-, h⟩ <;> rw [h]
  · exact safe_fail _
  · exact safe_ok _

theorem u16_ok {x : BitVec 16} (h : u16 file pos what = .ok x) : x = halfFrom file pos := by
  rcases u16_cases file pos what with h' | ⟨-, h'⟩ <;> rw [h'] at h <;>
    cases h
  rfl

theorem u32_ok {x : Word} (h : u32 file pos what = .ok x) : x = wordFrom file pos := by
  rcases u32_cases file pos what with h' | ⟨-, h'⟩ <;> rw [h'] at h <;>
    cases h
  rfl

theorem safe_string (table size : Nat) : Safe (string file table size pos) := by
  rw [string]
  split_ifs with hpos
  · exact safe_ok _
  · rcases slice_cases file table "a string table" size with
      h | ⟨hin, h⟩ <;> rw [h]
    · exact safe_fail _
    · have hlen : ((file.drop table).take size).length = size := by
        rw [List.length_take, List.length_drop]
        omega
      rw [ok_bind, hlen, range_eq (by omega) (by omega), ok_bind]
      dsimp only
      rw [range_eq (Nat.zero_le _), ok_bind]
      · exact safe_ok _
      · cases hidx : List.findIdx? _ _ with
        | none => exact Nat.le_refl _
        | some i =>
          obtain ⟨hi, -⟩ := List.findIdx?_eq_some_iff_getElem.mp hidx
          exact Nat.le_of_lt hi

end Reader

/-! ## No panic -/

section
open Panics Reader
variable {file : List Byte}

theorem safe_readSegment {phoff phentsize index : Nat} (h : phoff + index * phentsize < 2 ^ 63) :
    Safe (readSegment file phoff phentsize index) := by
  rw [readSegment, mul_eq (by omega), ok_bind, add_eq (by omega), ok_bind]
  generalize phoff + index * phentsize = pos at h
  refine safe_u32.bind fun type _ => ?_
  split_ifs with htype
  · exact safe_ok _
  · rw [add_eq (by omega), ok_bind]
    refine safe_u32.bind fun offset _ => ?_
    rw [add_eq (by omega), ok_bind]
    refine safe_u32.bind fun vaddr _ => ?_
    rw [add_eq (by omega), ok_bind]
    refine safe_u32.bind fun filesz _ => ?_
    rw [add_eq (by omega), ok_bind]
    refine safe_u32.bind fun memsz _ => ?_
    rw [add_eq (by omega), ok_bind]
    refine safe_u32.bind fun flags _ => ?_
    split_ifs with hlong hempty hwraps
    · exact safe_fail _
    · exact safe_ok _
    · exact safe_fail _
    · split
      · exact safe_fail _
      · rename_i stop hstop
        obtain ⟨hsum, hle⟩ := Option.filter_eq_some_iff.mp hstop
        rw [checkedAdd, if_pos (by omega)] at hsum
        obtain rfl := Option.some.inj hsum
        rw [range_eq (Nat.le_add_right _ _) (of_decide_eq_true hle), ok_bind]
        exact safe_ok _

theorem safe_readSymbol {offset strOff strSize entry : Nat} (h : offset + entry * symSize < 2 ^ 63) :
    Safe (readSymbol file offset strOff strSize entry) := by
  rw [readSymbol, mul_eq (by omega), ok_bind, add_eq (by omega), ok_bind]
  generalize offset + entry * symSize = sym at h
  rw [add_eq (by omega), ok_bind]
  refine safe_u8.bind fun info _ => ?_
  rw [add_eq (by omega), ok_bind]
  refine safe_u32.bind fun size _ => ?_
  split
  · exact safe_ok _
  · refine safe_u32.bind fun nameAt _ => ?_
    rw [add_eq (by omega), ok_bind]
    refine safe_u32.bind fun addr _ => ?_
    refine (safe_string _ _).bind fun name _ => ?_
    split_ifs
    · exact safe_ok _
    · exact safe_ok _

theorem safe_readSymbolTable {shoff shentsize shnum index : Nat} (hshoff : shoff < 2 ^ 32)
    (hshentsize : shentsize < 2 ^ 16) (hshnum : shnum < 2 ^ 16) (hindex : index < shnum) :
    Safe (readSymbolTable file shoff shentsize shnum index) := by
  have hmul : index * shentsize < 2 ^ 16 * 2 ^ 16 :=
    Nat.mul_lt_mul'' (hindex.trans hshnum) hshentsize
  rw [readSymbolTable, mul_eq (by omega), ok_bind, add_eq (by omega), ok_bind, add_eq (by omega),
    ok_bind]
  refine safe_u32.bind fun type _ => ?_
  split_ifs with htype
  · exact safe_ok _
  · rw [add_eq (by omega), ok_bind]
    refine safe_u32.bind fun offset _ => ?_
    rw [add_eq (by omega), ok_bind]
    refine safe_u32.bind fun size _ => ?_
    rw [add_eq (by omega), ok_bind]
    refine safe_u32.bind fun strtabIndex _ => ?_
    split_ifs with hstrtab
    · exact safe_ok _
    · have hmul' : strtabIndex.toNat * shentsize < 2 ^ 16 * 2 ^ 16 :=
        Nat.mul_lt_mul'' (by omega) hshentsize
      rw [mul_eq (by omega), ok_bind, add_eq (by omega), ok_bind, add_eq (by omega), ok_bind]
      refine safe_u32.bind fun strOff _ => ?_
      rw [add_eq (by omega), ok_bind]
      refine safe_u32.bind fun strSize _ => ?_
      refine safe_gather fun entry hentry => safe_readSymbol ?_
      have := List.mem_range.mp hentry
      have := offset.isLt
      have := size.isLt
      rw [symSize] at *
      omega

theorem safe_parseTables {entry : Word} {phoff shoff phentsize phnum shentsize shnum : Nat}
    (hphoff : phoff < 2 ^ 32) (hshoff : shoff < 2 ^ 32) (hphentsize : phentsize < 2 ^ 16)
    (hphnum : phnum < 2 ^ 16) (hshentsize : shentsize < 2 ^ 16) (hshnum : shnum < 2 ^ 16) :
    Safe (parseTables file entry phoff shoff phentsize phnum shentsize shnum) := by
  rw [parseTables, parseSegments, parseSymbols, readSymbols]
  refine Safe.bind ?_ fun segments _ => ?_
  · split_ifs
    · refine safe_gather fun index hindex => safe_readSegment ?_
      have hlt := List.mem_range.mp hindex
      have hmul : index * phentsize < 2 ^ 16 * 2 ^ 16 :=
        Nat.mul_lt_mul'' (hlt.trans hphnum) hphentsize
      omega
    · exact safe_ok _
  · split_ifs
    · exact safe_fail _
    · refine Safe.bind ?_ fun symbols _ => safe_ok _
      refine Safe.bind (safe_gather fun index hindex => ?_) fun symbols _ => safe_ok _
      exact safe_readSymbolTable hshoff hshentsize hshnum (List.mem_range.mp hindex)
    · exact Safe.bind (safe_ok _) fun symbols _ => safe_ok _

theorem safe_parseElf (file : List Byte) : Safe (parseElf file) := by
  rw [parseElf]
  split_ifs with hlen
  · exact safe_fail _
  · rw [ehdrSize, Nat.not_lt] at hlen
    rw [range_eq (Nat.zero_le _) (by omega), ok_bind,
      index_eq (List.getElem?_eq_getElem (by omega : 4 < file.length)), ok_bind,
      index_eq (List.getElem?_eq_getElem (by omega : 5 < file.length)), ok_bind]
    split_ifs
    · exact safe_fail _
    · exact safe_fail _
    · refine safe_u16.bind fun machine _ => ?_
      split_ifs
      · exact safe_fail _
      · refine safe_u32.bind fun entry _ => safe_u32.bind fun phoff _ => safe_u32.bind fun shoff _ =>
          safe_u16.bind fun phentsize _ => safe_u16.bind fun phnum _ =>
          safe_u16.bind fun shentsize _ => safe_u16.bind fun shnum _ => ?_
        exact safe_parseTables phoff.isLt shoff.isLt phentsize.isLt phnum.isLt shentsize.isLt
          shnum.isLt

end

/-! ## What is accepted -/

/-- An entry of the segment table. -/
structure ProgramHeader where
  type : Word
  offset : Word
  vaddr : Word
  filesz : Word
  memsz : Word
  flags : Word

/-- The entry at a byte of a file. -/
def programHeader (file : List Byte) (pos : Nat) : ProgramHeader where
  type := wordFrom file pos
  offset := wordFrom file (pos + 4)
  vaddr := wordFrom file (pos + 8)
  filesz := wordFrom file (pos + 16)
  memsz := wordFrom file (pos + 20)
  flags := wordFrom file (pos + 24)

/-- The entries of a file's segment table, in its order. -/
def programHeaders (file : List Byte) : List ProgramHeader :=
  (List.range (halfFrom file 44).toNat).map fun index =>
    programHeader file ((wordFrom file 28).toNat + index * (halfFrom file 42).toNat)

namespace ProgramHeader

/-- Memory is to be loaded. -/
def loads (h : ProgramHeader) : Bool := h.type = ptLoad ∧ h.memsz ≠ 0

/-- The slice of the file it names. -/
def slice (h : ProgramHeader) (file : List Byte) : List Byte :=
  (file.drop h.offset.toNat).take h.filesz.toNat

/-- The segment it describes. -/
def segment (h : ProgramHeader) (file : List Byte) : ElfSegment where
  vaddr := h.vaddr
  bytes := h.slice file
  memLen := h.memsz
  executable := h.flags &&& pfX ≠ 0

/-- Its contents are in the file and its memory is in the address space. -/
structure Fits (h : ProgramHeader) (file : List Byte) : Prop where
  filesz_le : h.filesz.toNat ≤ h.memsz.toNat
  contents : h.offset.toNat + h.filesz.toNat ≤ file.length
  memory : h.vaddr.toNat + h.memsz.toNat < 2 ^ 32

end ProgramHeader

/-- What the parser accepts. -/
structure ElfImage.WellFormed (elf : ElfImage) (file : List Byte) : Prop where
  nonempty : elf.segments ≠ []
  sorted : elf.segments.Pairwise fun a b => a.vaddr ≤ b.vaddr
  segments : elf.segments.Perm
    (((programHeaders file).filter (·.loads)).map fun h => h.segment file)
  fits : ∀ h ∈ programHeaders file, h.loads → h.Fits file
  bytes_le : ∀ s ∈ elf.segments, s.bytes.length ≤ s.memLen.toNat
  memLen_pos : ∀ s ∈ elf.segments, 0 < s.memLen.toNat
  inside : ∀ s ∈ elf.segments, s.vaddr.toNat + s.memLen.toNat < 2 ^ 32
  symbols_sorted : elf.symbols.Pairwise Symbol.Before
  symbols_named : ∀ symbol ∈ elf.symbols, symbol.name ≠ ""

instance : Std.Total ElfSegment.Before := ⟨fun a b => by
  simpa [ElfSegment.Before, BitVec.le_def] using Nat.le_total a.vaddr.toNat b.vaddr.toNat⟩

instance : IsTrans ElfSegment ElfSegment.Before := ⟨fun a b c hab hbc => by
  simp only [ElfSegment.Before, BitVec.le_def] at hab hbc ⊢
  omega⟩

instance : Std.Total Symbol.Before := ⟨fun a b => by
  rcases lt_trichotomy a.addr.toNat b.addr.toNat with h | h | h
  · exact Or.inl (Or.inl h)
  · have haddr := BitVec.eq_of_toNat_eq h
    rcases le_total a.name b.name with hname | hname
    · exact Or.inl (Or.inr ⟨haddr, hname⟩)
    · exact Or.inr (Or.inr ⟨haddr.symm, hname⟩)
  · exact Or.inr (Or.inl h)⟩

instance : IsTrans Symbol Symbol.Before := ⟨fun a b c hab hbc => by
  rcases hab with hab | ⟨hab, hname⟩ <;> rcases hbc with hbc | ⟨hbc, hname'⟩
  · exact Or.inl (Nat.lt_trans hab hbc)
  · exact Or.inl (hbc ▸ hab)
  · exact Or.inl (hab ▸ hbc)
  · exact Or.inr ⟨hab.trans hbc, hname.trans hname'⟩⟩

section
open Panics Reader
variable {file : List Byte}

/-- A pass over the segment table that ended pushed what its entry describes. -/
theorem readSegment_ok {phoff phentsize index : Nat} {segments : List ElfSegment}
    (hpos : phoff + index * phentsize < 2 ^ 63)
    (h : readSegment file phoff phentsize index = .ok segments) :
    let header := programHeader file (phoff + index * phentsize)
    segments = (if header.loads then [header.segment file] else []) ∧
      (header.loads → header.Fits file) := by
  rw [readSegment, mul_eq (by omega), ok_bind, add_eq (by omega), ok_bind] at h
  generalize phoff + index * phentsize = pos at h hpos ⊢
  intro header
  obtain ⟨type, htype, h⟩ := bind_ok h
  obtain rfl := u32_ok htype
  split_ifs at h with hload
  · cases h
    have hloads : header.loads = false := by
      simp [ProgramHeader.loads, header, programHeader, hload]
    simp [hloads]
  · rw [add_eq (by omega), ok_bind] at h
    obtain ⟨offset, hoffset, h⟩ := bind_ok h
    rw [add_eq (by omega), ok_bind] at h
    obtain ⟨vaddr, hvaddr, h⟩ := bind_ok h
    rw [add_eq (by omega), ok_bind] at h
    obtain ⟨filesz, hfilesz, h⟩ := bind_ok h
    rw [add_eq (by omega), ok_bind] at h
    obtain ⟨memsz, hmemsz, h⟩ := bind_ok h
    rw [add_eq (by omega), ok_bind] at h
    obtain ⟨flags, hflags, h⟩ := bind_ok h
    obtain rfl := u32_ok hoffset
    obtain rfl := u32_ok hvaddr
    obtain rfl := u32_ok hfilesz
    obtain rfl := u32_ok hmemsz
    obtain rfl := u32_ok hflags
    split_ifs at h with hlong hempty hwraps
    · cases h
    · cases h
      have hloads : header.loads = false := by
        simp [ProgramHeader.loads, header, programHeader, hempty]
      simp [hloads]
    · cases h
    · have hloads : header.loads = true := decide_eq_true ⟨not_not.mp hload, hempty⟩
      split at h
      · cases h
      · rename_i stop hstop
        obtain ⟨hsum, hle⟩ := Option.filter_eq_some_iff.mp hstop
        rw [checkedAdd, if_pos (by omega)] at hsum
        obtain rfl := Option.some.inj hsum
        have hle' := of_decide_eq_true hle
        rw [range_eq (Nat.le_add_right _ _) hle', ok_bind, Nat.add_sub_cancel_left] at h
        cases h
        refine ⟨?_, fun _ => ⟨?_, hle', ?_⟩⟩
        · rw [if_pos hloads]
          rfl
        · exact Nat.le_of_not_lt hlong
        · exact Nat.lt_of_not_le hwraps

theorem readSymbol_named {offset strOff strSize entry : Nat} {symbols : List Symbol}
    (h : readSymbol file offset strOff strSize entry = .ok symbols) :
    ∀ symbol ∈ symbols, symbol.name ≠ "" := by
  rw [readSymbol] at h
  obtain ⟨_, -, h⟩ := bind_ok h
  obtain ⟨_, -, h⟩ := bind_ok h
  obtain ⟨_, -, h⟩ := bind_ok h
  obtain ⟨_, -, h⟩ := bind_ok h
  obtain ⟨_, -, h⟩ := bind_ok h
  obtain ⟨_, -, h⟩ := bind_ok h
  split at h
  · cases h
    simp
  · obtain ⟨_, -, h⟩ := bind_ok h
    obtain ⟨_, -, h⟩ := bind_ok h
    obtain ⟨_, -, h⟩ := bind_ok h
    obtain ⟨_, -, h⟩ := bind_ok h
    split_ifs at h with hname
    · cases h
      simp
    · cases h
      simpa using hname

theorem readSymbolTable_named {shoff shentsize shnum index : Nat} {symbols : List Symbol}
    (h : readSymbolTable file shoff shentsize shnum index = .ok symbols) :
    ∀ symbol ∈ symbols, symbol.name ≠ "" := by
  rw [readSymbolTable] at h
  obtain ⟨_, -, h⟩ := bind_ok h
  obtain ⟨_, -, h⟩ := bind_ok h
  obtain ⟨_, -, h⟩ := bind_ok h
  obtain ⟨_, -, h⟩ := bind_ok h
  split_ifs at h
  · cases h
    simp
  · obtain ⟨_, -, h⟩ := bind_ok h
    obtain ⟨_, -, h⟩ := bind_ok h
    obtain ⟨_, -, h⟩ := bind_ok h
    obtain ⟨_, -, h⟩ := bind_ok h
    obtain ⟨_, -, h⟩ := bind_ok h
    obtain ⟨_, -, h⟩ := bind_ok h
    split_ifs at h
    · cases h
      simp
    · obtain ⟨_, -, h⟩ := bind_ok h
      obtain ⟨_, -, h⟩ := bind_ok h
      obtain ⟨_, -, h⟩ := bind_ok h
      obtain ⟨_, -, h⟩ := bind_ok h
      obtain ⟨_, -, h⟩ := bind_ok h
      obtain ⟨_, -, h⟩ := bind_ok h
      intro symbol hsymbol
      obtain ⟨entry, -, here, hhere, hmem⟩ := mem_of_gather h hsymbol
      exact readSymbol_named hhere symbol hmem

theorem parseSymbols_ok {shoff shentsize shnum : Nat} {symbols : List Symbol}
    (h : parseSymbols file shoff shentsize shnum = .ok symbols) :
    symbols.Pairwise Symbol.Before ∧ ∀ symbol ∈ symbols, symbol.name ≠ "" := by
  rw [parseSymbols] at h
  split_ifs at h
  · rw [readSymbols] at h
    obtain ⟨found, hfound, h⟩ := bind_ok h
    cases h
    refine ⟨List.pairwise_insertionSort _ _, ?_⟩
    intro symbol hsymbol
    obtain ⟨index, -, here, hhere, hmem⟩ :=
      mem_of_gather hfound ((List.mem_insertionSort _).mp hsymbol)
    exact readSymbolTable_named hhere symbol hmem
  · cases h
    simp

/-- The pushed segments are those of the entries that load. -/
theorem parseSegments_ok {phoff phentsize phnum : Nat} {segments : List ElfSegment}
    (hphoff : phoff < 2 ^ 32) (hphentsize : phentsize < 2 ^ 16) (hphnum : phnum < 2 ^ 16)
    (h : parseSegments file phoff phentsize phnum = .ok segments) (hne : segments ≠ []) :
    let headers := (List.range phnum).map fun index =>
      programHeader file (phoff + index * phentsize)
    segments = (headers.filter (·.loads)).map (·.segment file) ∧
      ∀ header ∈ headers, header.loads → header.Fits file := by
  rw [parseSegments] at h
  split_ifs at h
  · have hpos : ∀ index ∈ List.range phnum, phoff + index * phentsize < 2 ^ 63 := by
      intro index hindex
      have hlt := List.mem_range.mp hindex
      have hmul : index * phentsize < 2 ^ 16 * 2 ^ 16 :=
        Nat.mul_lt_mul'' (hlt.trans hphnum) hphentsize
      omega
    obtain ⟨heq, hall⟩ := gather_ok (fun index hindex found hfound =>
      (readSegment_ok (hpos index hindex) hfound).1) h
    refine ⟨?_, ?_⟩
    · rw [heq, List.filter_map, List.map_map]
      generalize List.range phnum = indices
      induction indices with
      | nil => rfl
      | cons index rest ih =>
        rw [List.flatMap_cons, ih, List.filter_cons]
        simp only [Function.comp_apply]
        split_ifs
        · rfl
        · rfl
    · intro header hheader
      obtain ⟨index, hindex, rfl⟩ := List.mem_map.mp hheader
      exact (readSegment_ok (hpos index hindex) (hall index hindex)).2
  · cases h
    exact absurd rfl hne

/-- The tables of an image the parser returned, where its header says they are. -/
theorem parseElf_ok {elf : ElfImage} (h : parseElf file = .ok elf) :
    parseTables file (wordFrom file 24) (wordFrom file 28).toNat (wordFrom file 32).toNat
      (halfFrom file 42).toNat (halfFrom file 44).toNat (halfFrom file 46).toNat
      (halfFrom file 48).toNat = .ok elf := by
  rw [parseElf] at h
  split_ifs at h
  · cases h
  · obtain ⟨_, -, h⟩ := bind_ok h
    obtain ⟨_, -, h⟩ := bind_ok h
    obtain ⟨_, -, h⟩ := bind_ok h
    split_ifs at h
    · cases h
    · cases h
    · obtain ⟨_, -, h⟩ := bind_ok h
      split_ifs at h
      · cases h
      · obtain ⟨entry, hentry, h⟩ := bind_ok h
        obtain ⟨phoff, hphoff, h⟩ := bind_ok h
        obtain ⟨shoff, hshoff, h⟩ := bind_ok h
        obtain ⟨phentsize, hphentsize, h⟩ := bind_ok h
        obtain ⟨phnum, hphnum, h⟩ := bind_ok h
        obtain ⟨shentsize, hshentsize, h⟩ := bind_ok h
        obtain ⟨shnum, hshnum, h⟩ := bind_ok h
        rw [u32_ok hentry, u32_ok hphoff, u32_ok hshoff, u16_ok hphentsize, u16_ok hphnum,
          u16_ok hshentsize, u16_ok hshnum] at h
        exact h

theorem wellFormed_of_parseElf {elf : ElfImage} (h : parseElf file = .ok elf) :
    elf.WellFormed file := by
  have htables := parseElf_ok h
  rw [parseTables] at htables
  obtain ⟨segments, hsegments, htables⟩ := bind_ok htables
  split_ifs at htables with hne
  · cases htables
  · obtain ⟨symbols, hsymbols, htables⟩ := bind_ok htables
    cases htables
    obtain ⟨heq, hfits⟩ := parseSegments_ok (BitVec.isLt _) (BitVec.isLt _) (BitVec.isLt _)
      hsegments hne
    obtain ⟨hsorted, hnamed⟩ := parseSymbols_ok hsymbols
    have hperm := List.perm_insertionSort ElfSegment.Before segments
    have hof : ∀ s ∈ segments.insertionSort ElfSegment.Before, ∃ header : ProgramHeader,
        header.loads = true ∧ header.Fits file ∧ s = header.segment file := by
      intro s hs
      have hs' := hperm.mem_iff.mp hs
      rw [heq] at hs'
      obtain ⟨header, hheader, rfl⟩ := List.mem_map.mp hs'
      obtain ⟨hmem, hloads⟩ := List.mem_filter.mp hheader
      exact ⟨header, hloads, hfits header hmem hloads, rfl⟩
    refine ⟨?_, List.pairwise_insertionSort _ _, ?_, hfits, ?_, ?_, ?_, hsorted, hnamed⟩
    · intro hnil
      change segments.insertionSort ElfSegment.Before = [] at hnil
      rw [hnil] at hperm
      exact hne hperm.symm.eq_nil
    · exact heq ▸ hperm
    · intro s hs
      obtain ⟨header, -, hfit, rfl⟩ := hof s hs
      refine le_trans ?_ hfit.filesz_le
      exact List.length_take_le _ _
    · intro s hs
      obtain ⟨header, hloads, -, rfl⟩ := hof s hs
      have hmemsz := (of_decide_eq_true hloads).2
      exact Nat.pos_of_ne_zero fun hzero => hmemsz (BitVec.eq_of_toNat_eq hzero)
    · intro s hs
      obtain ⟨header, -, hfit, rfl⟩ := hof s hs
      exact hfit.memory

end

end ClickDoom
