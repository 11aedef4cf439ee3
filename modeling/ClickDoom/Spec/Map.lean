import ClickDoom.Base.Bytes

/-! # The memory map and the halt vocabulary

The constants both engines are built against, the map of the four regions with
the lookup that places an access in one of them, and the closed list of reasons
a machine stops for.  `spec/src/map.rs`, `spec/src/halt.rs` and the two
intervals of `spec/src/checkpoint.rs`.
-/
namespace ClickDoom
export LittleEndian (Byte Word)

def ramBase : Word := 0x80000000#32
def ramSizeDefault : Word := 25165824#32
def mmioBase : Word := 0x10000000#32
def mmioSize : Word := 4096#32
def framebufferBase : Word := 0x11000000#32
def framebufferSize : Word := 64000#32
def paletteBase : Word := 0x11010000#32
def paletteSize : Word := 768#32

/-- Instructions per emulated millisecond. -/
def ipmsDefault : Word := 10000#32

theorem ipmsDefault_ne_zero : ipmsDefault ≠ 0 := by decide

theorem one_ipms_ne_zero : (1 : Word) ≠ 0 := by decide

theorem framebufferBase_lt_ramBase : framebufferBase < ramBase := by decide

theorem paletteBase_lt_ramBase : paletteBase < ramBase := by decide

/-- Retired instructions between checkpoints. -/
def checkpointInterval : Nat := 4096

/-- Retired instructions between the memory hashes. -/
def ramHashInterval : Nat := 1048576

/-! ## Register offsets within the device window -/

namespace Mmio

def ticksMs : Word := 0x00#32
def keyq : Word := 0x04#32
def exit : Word := 0x08#32
def putchar : Word := 0x0C#32
def frameCommit : Word := 0x10#32

end Mmio

/-- A key event as `KEYQ` returns it. -/
def keyEvent (pressed : Bool) (doomkey : Byte) : Word :=
  ((if pressed then 1#32 else 0#32) <<< 8) ||| doomkey.setWidth 32

inductive Region
  | ram | mmio | framebuffer | palette
  deriving DecidableEq, Repr

/-- The width of an access.  The source passes it as 1, 2 or 4. -/
inductive Width
  | byte | half | word
  deriving DecidableEq, Repr

/-- How many bytes an access of this width covers. -/
def Width.size : Width → Nat
  | .byte => 1
  | .half => 2
  | .word => 4

/-- Where each region sits. -/
structure MemoryMap where
  ramBase : Word
  ramSize : Word
  mmioBase : Word
  mmioSize : Word
  framebufferBase : Word
  framebufferSize : Word
  paletteBase : Word
  paletteSize : Word
  deriving DecidableEq

namespace MemoryMap

/-- The map the ROM is built against. -/
def clickdoom : MemoryMap where
  ramBase := ClickDoom.ramBase
  ramSize := ramSizeDefault
  mmioBase := ClickDoom.mmioBase
  mmioSize := ClickDoom.mmioSize
  framebufferBase := ClickDoom.framebufferBase
  framebufferSize := ClickDoom.framebufferSize
  paletteBase := ClickDoom.paletteBase
  paletteSize := ClickDoom.paletteSize

/-- The same map with a different RAM size. -/
def withRamSize (map : MemoryMap) (ramSize : Word) : MemoryMap := { map with ramSize }

def bounds (map : MemoryMap) : Region → Word × Word
  | .ram => (map.ramBase, map.ramSize)
  | .mmio => (map.mmioBase, map.mmioSize)
  | .framebuffer => (map.framebufferBase, map.framebufferSize)
  | .palette => (map.paletteBase, map.paletteSize)

/-- Whether `[addr, addr + width)` lies in a region.  The sums are exact, as the
source widens both sides. -/
def Holds (map : MemoryMap) (region : Region) (addr : Word) (width : Width) : Prop :=
  (map.bounds region).1.toNat ≤ addr.toNat ∧
    addr.toNat + width.size ≤ (map.bounds region).1.toNat + (map.bounds region).2.toNat

instance (map : MemoryMap) (region : Region) (addr : Word) (width : Width) :
    Decidable (map.Holds region addr width) :=
  inferInstanceAs (Decidable (_ ∧ _))

/-- Which region holds `[addr, addr + width)`, and the offset within it: the
first of RAM, MMIO, framebuffer and palette that does. -/
def classify (map : MemoryMap) (addr : Word) (width : Width) : Option (Region × Word) :=
  ([.ram, .mmio, .framebuffer, .palette].find? (map.Holds · addr width)).map
    fun region => (region, addr - (map.bounds region).1)

theorem holds_of_classify {map : MemoryMap} {addr : Word} {width : Width} {region : Region}
    {offset : Word} (h : map.classify addr width = some (region, offset)) :
    map.Holds region addr width ∧ offset = addr - (map.bounds region).1 := by
  unfold classify at h
  obtain ⟨r, hr, he⟩ := Option.map_eq_some_iff.mp h
  obtain ⟨rfl, rfl⟩ := Prod.mk.inj he
  exact ⟨by simpa using List.find?_some hr, rfl⟩

/-- An offset into a region, with the width of the access, stays inside it. -/
theorem Holds.offset_lt {map : MemoryMap} {region : Region} {addr : Word} {width : Width}
    (h : map.Holds region addr width) :
    (addr - (map.bounds region).1).toNat + width.size ≤ (map.bounds region).2.toNat := by
  obtain ⟨h1, h2⟩ := h
  rw [BitVec.toNat_sub_of_le h1]
  omega

theorem classify_ram {map : MemoryMap} {addr : Word} {width : Width}
    (h : map.Holds .ram addr width) :
    map.classify addr width = some (.ram, addr - map.ramBase) := by
  simp [classify, h, bounds]

/-- No access is in two regions at once. -/
def Separate (map : MemoryMap) : Prop :=
  ∀ addr : Word, ∀ r s : Region, map.Holds r addr .byte → map.Holds s addr .byte → r = s

/-- A word whose first byte is in RAM is in RAM, or in no region at all. -/
theorem Separate.classify_ram_or_none {map : MemoryMap} (hs : map.Separate) {addr : Word}
    (h : map.Holds .ram addr .byte) :
    map.classify addr .word = some (.ram, addr - map.ramBase) ∨ map.classify addr .word = none := by
  cases hc : map.classify addr .word with
  | none => exact Or.inr rfl
  | some p =>
    obtain ⟨region, offset⟩ := p
    obtain ⟨hh, rfl⟩ := holds_of_classify hc
    have hb : map.Holds region addr .byte :=
      ⟨hh.1, by have := hh.2; simp only [Width.size] at this ⊢; omega⟩
    obtain rfl := hs addr region .ram hb h
    exact Or.inl rfl

theorem Holds.byte {map : MemoryMap} {region : Region} {addr : Word} {width : Width}
    (h : map.Holds region addr width) : map.Holds region addr .byte := by
  obtain ⟨hlow, hhigh⟩ := h
  refine ⟨hlow, ?_⟩
  cases width <;> simp only [Width.size] at hhigh ⊢ <;> omega

/-- An access that lies in a region is placed there. -/
theorem Separate.classify_eq {map : MemoryMap} (hs : map.Separate) {region : Region} {addr : Word}
    {width : Width} (h : map.Holds region addr width) :
    map.classify addr width = some (region, addr - (map.bounds region).1) := by
  cases hc : map.classify addr width with
  | none =>
    simp only [classify, Option.map_eq_none_iff, List.find?_eq_none] at hc
    have := hc region (by cases region <;> decide)
    simp [h] at this
  | some p =>
    obtain ⟨region', offset⟩ := p
    obtain ⟨hh, rfl⟩ := holds_of_classify hc
    obtain rfl := hs addr region' region hh.byte h.byte
    rfl

theorem classify_eq_none {map : MemoryMap} {addr : Word} {width : Width}
    (h : ∀ region, ¬map.Holds region addr width) : map.classify addr width = none := by
  simp [classify, h]

/-- Every map the emulator builds keeps its regions apart: only the RAM size
varies, and RAM is the region with nothing above it. -/
theorem separate_clickdoom (ramSize : Word) : (clickdoom.withRamSize ramSize).Separate := by
  intro addr r s hr hs
  cases r <;> cases s <;> first
    | rfl
    | (exfalso
       simp only [Holds, bounds, withRamSize, clickdoom, ClickDoom.ramBase, ClickDoom.mmioBase,
         ClickDoom.mmioSize, ClickDoom.framebufferBase, ClickDoom.framebufferSize,
         ClickDoom.paletteBase, ClickDoom.paletteSize, Width.size, BitVec.reduceToNat] at hr hs
       omega)

end MemoryMap

/-- Why a machine stopped. -/
inductive HaltReason
  | illegalInsn | badAddr | selfModify | misaligned | ecall | ebreak | csr | exit
  deriving DecidableEq, Repr

namespace HaltReason

/-- Every reason but the program's own clean stop. -/
def isFault : HaltReason → Bool
  | exit => false
  | _ => true

end HaltReason
end ClickDoom
