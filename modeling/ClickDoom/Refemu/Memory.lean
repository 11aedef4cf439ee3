import ClickDoom.Refemu.Mmio

/-! # Flat physical memory

`refemu/src/memory.rs`: four regions, byte-addressable, little-endian, with a
read-only text region inside RAM.  Alignment is decided before the region and
before the width rule.

Every operation returns the memory it leaves behind beside its result, so that
what a faulting access leaves behind can be stated.
-/
namespace ClickDoom
open LittleEndian (half word bytes overwrite)

/-- What a memory access can raise. -/
inductive MemFault
  | badAddr (addr : Word)
  | misaligned (addr : Word) (width : Width)
  | selfModify (addr : Word)
  | exit (code : Word)
  deriving DecidableEq, Repr

inductive LoadError
  | belowRam (loadAddr ramBase : Word)
  | tooLarge (loadAddr : Word) (len : Nat) (ramSize : Word)
  deriving DecidableEq, Repr

/-! ## Which words a run wrote -/

/-- One bit set per watched region, in 64-bit slots, and the number of stores
that landed in each region. -/
structure WriteWatch where
  words : Region → Option (List (BitVec 64))
  stores : Region → Nat

namespace WriteWatch

/-- Watches the named regions, sized from the map. -/
def new (map : MemoryMap) (regions : List Region) : WriteWatch where
  words region :=
    if region ∈ regions then
      let count := ((map.bounds region).2.toNat + 3) / 4
      some (List.replicate ((count + 63) / 64) 0)
    else none
  stores _ := 0

/-- Sets the bit of one word. -/
def setBit (bits : List (BitVec 64)) (word : Nat) : List (BitVec 64) :=
  bits.set (word / 64) (bits.getD (word / 64) 0 ||| (1#64 <<< (word % 64)))

/-- Counts a store that landed, and marks every word it touched. -/
def record (w : WriteWatch) (region : Region) (offset : Word) (width : Width) : WriteWatch where
  stores := Function.update w.stores region (w.stores region + 1)
  words := Function.update w.words region ((w.words region).map fun bits =>
    let first := offset.toNat / 4
    let last := (offset.toNat + width.size - 1) / 4
    (List.range' first (last + 1 - first)).foldl setBit bits)

end WriteWatch

/-! ## The memory -/

/-- Reads a width little-endian. -/
def readLe (store : List Byte) (offset : Word) : Width → Word
  | .byte => (store.getD offset.toNat 0).setWidth 32
  | .half => half (store.getD offset.toNat 0) (store.getD (offset.toNat + 1) 0)
  | .word => word (store.getD offset.toNat 0) (store.getD (offset.toNat + 1) 0)
      (store.getD (offset.toNat + 2) 0) (store.getD (offset.toNat + 3) 0)

/-- Writes the low bytes of a value little-endian. -/
def writeLe (store : List Byte) (offset : Word) (width : Width) (value : Word) : List Byte :=
  overwrite store offset.toNat (bytes value width.size)

@[simp] theorem length_writeLe (store : List Byte) (offset : Word) (width : Width) (value : Word) :
    (writeLe store offset width value).length = store.length :=
  LittleEndian.length_overwrite _ _ _

/-- The three stored regions hold as many bytes as the map gives them. -/
structure Memory where
  map : MemoryMap
  ram : List Byte
  framebuffer : List Byte
  palette : List Byte
  devices : Devices
  text : Option (Word × Word)
  watch : Option WriteWatch
  ram_length : ram.length = map.ramSize.toNat
  framebuffer_length : framebuffer.length = map.framebufferSize.toNat
  palette_length : palette.length = map.paletteSize.toNat

namespace Memory

def new (map : MemoryMap) (devices : Devices) : Memory where
  map := map
  ram := List.replicate map.ramSize.toNat 0
  framebuffer := List.replicate map.framebufferSize.toNat 0
  palette := List.replicate map.paletteSize.toNat 0
  devices := devices
  text := none
  watch := none
  ram_length := List.length_replicate
  framebuffer_length := List.length_replicate
  palette_length := List.length_replicate

def watchWrites (m : Memory) (regions : List Region) : Memory :=
  { m with watch := some (WriteWatch.new m.map regions) }

def setTextRegion (m : Memory) (region : Option (Word × Word)) : Memory :=
  { m with text := region }

def setDevices (m : Memory) (devices : Devices) : Memory := { m with devices }

theorem length_loaded (m : Memory) (data : List Byte) (loadAddr : Word) :
    (overwrite m.ram (loadAddr - m.map.ramBase).toNat data).length = m.map.ramSize.toNat := by
  rw [LittleEndian.length_overwrite, m.ram_length]

/-- Loads an image.  This is not a store: it bypasses the text check. -/
def loadImage (m : Memory) (data : List Byte) (loadAddr : Word) : Except LoadError Unit × Memory :=
  if loadAddr < m.map.ramBase then (.error (.belowRam loadAddr m.map.ramBase), m)
  else
    let pos := (loadAddr - m.map.ramBase).toNat
    if pos + data.length ≤ m.ram.length then
      (.ok (), { m with
        ram := overwrite m.ram pos data
        ram_length := m.length_loaded data loadAddr })
    else (.error (.tooLarge loadAddr data.length m.map.ramSize), m)

/-- As much of `source` as fits in `size` bytes, zeroes after it. -/
def takeFilled (size : Nat) (source : List Byte) : List Byte :=
  source.take size ++ List.replicate (size - source.length) 0

theorem length_takeFilled (size : Nat) (source : List Byte) :
    (takeFilled size source).length = size := by
  simp only [takeFilled, List.length_append, List.length_take, List.length_replicate]
  omega

/-- Puts the three stored regions back, taking as much of each as fits. -/
def restoreRegions (m : Memory) (ram framebuffer palette : List Byte) : Memory :=
  { m with
    ram := takeFilled m.map.ramSize.toNat ram
    framebuffer := takeFilled m.map.framebufferSize.toNat framebuffer
    palette := takeFilled m.map.paletteSize.toNat palette
    ram_length := length_takeFilled _ _
    framebuffer_length := length_takeFilled _ _
    palette_length := length_takeFilled _ _ }

def checkAlign (addr : Word) (width : Width) : Except MemFault Unit :=
  if 1 < width.size ∧ addr.toNat % width.size ≠ 0 then .error (.misaligned addr width) else .ok ()

/-- Whether `[addr, addr + width)` touches the read-only region at all. -/
def inText (m : Memory) (addr : Word) (width : Width) : Bool :=
  match m.text with
  | none => false
  | some (start, stop) => !(addr.toNat + width.size ≤ start.toNat || stop.toNat ≤ addr.toNat)

/-- Reads a width little-endian. -/
def read (m : Memory) (addr : Word) (width : Width) (icount : Nat) :
    Except MemFault Word × Memory :=
  match checkAlign addr width with
  | .error fault => (.error fault, m)
  | .ok () =>
    match m.map.classify addr width with
    | none => (.error (.badAddr addr), m)
    | some (.ram, offset) => (.ok (readLe m.ram offset width), m)
    | some (.mmio, offset) =>
      (.ok (m.devices.read offset width icount).1,
        m.setDevices (m.devices.read offset width icount).2)
    | some (.framebuffer, offset) => (.ok (readLe m.framebuffer offset width), m)
    | some (.palette, offset) => (.ok (readLe m.palette offset width), m)

/-- Counts a store that landed, while a run is recording. -/
def record (m : Memory) (region : Region) (offset : Word) (width : Width) : Memory :=
  { m with watch := m.watch.map (·.record region offset width) }

def writeRam (m : Memory) (offset : Word) (width : Width) (value : Word) : Memory :=
  { m with
    ram := writeLe m.ram offset width value
    ram_length := by rw [length_writeLe, m.ram_length] }

def writeFramebuffer (m : Memory) (offset value : Word) : Memory :=
  { m with
    framebuffer := writeLe m.framebuffer offset .word value
    framebuffer_length := by rw [length_writeLe, m.framebuffer_length] }

def writePalette (m : Memory) (offset value : Word) : Memory :=
  { m with
    palette := writeLe m.palette offset .word value
    palette_length := by rw [length_writeLe, m.palette_length] }

/-- Writes the low bytes of `value` little-endian.  A narrow store into a pixel
region is a bad address, and a store that faulted is not counted. -/
def write (m : Memory) (addr : Word) (width : Width) (value : Word) (icount : Nat) :
    Except MemFault Unit × Memory :=
  match checkAlign addr width with
  | .error fault => (.error fault, m)
  | .ok () =>
    match m.map.classify addr width with
    | none => (.error (.badAddr addr), m)
    | some (.ram, offset) =>
      if m.inText addr width then (.error (.selfModify addr), m)
      else (.ok (), (m.writeRam offset width value).record .ram offset width)
    | some (.mmio, offset) =>
      let m' := m.setDevices (m.devices.write offset width value icount).2
      match (m.devices.write offset width value icount).1 with
      | .error code => (.error (.exit code), m')
      | .ok () => (.ok (), m'.record .mmio offset width)
    | some (.framebuffer, offset) =>
      if width ≠ .word then (.error (.badAddr addr), m)
      else (.ok (), (m.writeFramebuffer offset value).record .framebuffer offset width)
    | some (.palette, offset) =>
      if width ≠ .word then (.error (.badAddr addr), m)
      else (.ok (), (m.writePalette offset value).record .palette offset width)

/-! ## What an access leaves behind -/

/-- A read that faults changes nothing. -/
theorem read_error {m m' : Memory} {addr : Word} {width : Width} {icount : Nat} {fault : MemFault}
    (h : m.read addr width icount = (.error fault, m')) : m' = m := by
  cases ha : checkAlign addr width with
  | error fault' =>
    simp only [read, ha, Prod.mk.injEq] at h
    exact h.2.symm
  | ok u =>
    cases hc : m.map.classify addr width with
    | none =>
      simp only [read, ha, hc, Prod.mk.injEq] at h
      exact h.2.symm
    | some p =>
      obtain ⟨region, offset⟩ := p
      cases region <;> simp [read, ha, hc] at h

/-- A write that faults changes nothing: every check comes before the store, and
the exit register stores nothing. -/
theorem write_error {m m' : Memory} {addr value : Word} {width : Width} {icount : Nat}
    {fault : MemFault} (h : m.write addr width value icount = (.error fault, m')) : m' = m := by
  cases ha : checkAlign addr width with
  | error fault' =>
    simp only [write, ha, Prod.mk.injEq] at h
    exact h.2.symm
  | ok u =>
    cases hc : m.map.classify addr width with
    | none =>
      simp only [write, ha, hc, Prod.mk.injEq] at h
      exact h.2.symm
    | some p =>
      obtain ⟨region, offset⟩ := p
      cases region with
      | mmio =>
        cases hd : (m.devices.write offset width value icount).1 with
        | error code =>
          simp only [write, ha, hc, hd, Devices.write_error hd, setDevices, Prod.mk.injEq] at h
          exact h.2.symm
        | ok u => simp [write, ha, hc, hd] at h
      | ram | framebuffer | palette =>
        simp only [write, ha, hc] at h
        split_ifs at h
        · exact (Prod.mk.inj h).2.symm
        · cases h

end Memory
end ClickDoom
