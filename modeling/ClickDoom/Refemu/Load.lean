import ClickDoom.Refemu.Image

/-! # Loading an ELF

`Cpu::load` of a parsed image: each segment's bytes and the zeros after them are copied
into RAM, in the order of their addresses.  Segments may lie over each other; there the
later one is what RAM holds.
-/
namespace ClickDoom
open LittleEndian

/-! ## Loading with checked arithmetic -/

/-- `load_image`, with nothing where the copy would panic. -/
def Memory.loadImageChecked (m : Memory) (data : List Byte) (loadAddr : Word) :
    Option (Except LoadError Unit × Memory) :=
  if loadAddr < m.map.ramBase then some (.error (.belowRam loadAddr m.map.ramBase), m)
  else
    let pos := (loadAddr - m.map.ramBase).toNat
    match (Panics.checkedAdd pos data.length).filter (· ≤ m.ram.length) with
    | none => some (.error (.tooLarge loadAddr data.length m.map.ramSize), m)
    | some stop =>
      match Panics.getRange m.ram pos stop with
      | none => none
      | some slice =>
        if slice.length = data.length then
          some (.ok (), { m with
            ram := overwrite m.ram pos data
            ram_length := m.length_loaded data loadAddr })
        else none

namespace Cpu

/-- `loadSegment`, with nothing where a difference or a sum overflows. -/
def loadSegmentChecked (m : Memory) (segment : Segment) :
    Option (Except LoadError Unit × Memory) :=
  match m.loadImageChecked segment.bytes segment.vaddr with
  | none => none
  | some (.error e, m') => some (.error e, m')
  | some (.ok (), m') =>
    if segment.bytes.length ≤ segment.memLen.toNat then
      let tail := segment.memLen.toNat - segment.bytes.length
      let len := BitVec.ofNat 32 segment.bytes.length
      if 0 < tail then
        if segment.vaddr.toNat + len.toNat < 2 ^ 32 then
          m'.loadImageChecked (List.replicate tail 0) (segment.vaddr + len)
        else none
      else some (.ok (), m')
    else none

/-- `loadSegments`, the same way. -/
def loadSegmentsChecked (m : Memory) : List Segment → Option (Except LoadError Unit × Memory)
  | [] => some (.ok (), m)
  | segment :: rest =>
    match loadSegmentChecked m segment with
    | none => none
    | some (.error e, m') => some (.error e, m')
    | some (.ok (), m') => loadSegmentsChecked m' rest

/-- `load`, the same way. -/
def loadChecked (c : Cpu) (image : Image) : Option (Except LoadError Unit × Cpu) :=
  match loadSegmentsChecked c.memory image.segments with
  | none => none
  | some (.error e, m) => some (.error e, { c with cache := none, memory := m })
  | some (.ok (), m) => some (.ok (), { c with cache := none, memory := m, pc := image.entry })

end Cpu

/-! ## What is in memory -/

namespace Segment

/-- Its bytes, then zeros up to its length in memory. -/
def contents (s : Segment) : List Byte :=
  s.bytes ++ List.replicate (s.memLen.toNat - s.bytes.length) 0

/-- What it puts at an address. -/
def byteAt (s : Segment) (addr : Nat) : Option Byte :=
  if s.vaddr.toNat ≤ addr then s.contents[addr - s.vaddr.toNat]? else none

/-- Its memory is in the address space and no shorter than its bytes. -/
structure Fits (s : Segment) : Prop where
  bytes_le : s.bytes.length ≤ s.memLen.toNat
  inside : s.vaddr.toNat + s.memLen.toNat < 2 ^ 32

theorem length_contents {s : Segment} (h : s.Fits) : s.contents.length = s.memLen.toNat := by
  have := h.bytes_le
  rw [contents, List.length_append, List.length_replicate]
  omega

end Segment

/-- What the last segment over an address puts there. -/
def Image.lastByte (image : Image) (addr : Nat) : Option Byte :=
  image.segments.reverse.findSome? (·.byteAt addr)

/-! ## No panic -/

theorem Memory.loadImageChecked_eq (m : Memory) (data : List Byte) (loadAddr : Word) :
    m.loadImageChecked data loadAddr = some (m.loadImage data loadAddr) := by
  rw [loadImageChecked, loadImage]
  split_ifs with hbelow
  · rfl
  · dsimp only
    have hram : m.ram.length < 2 ^ 32 := by
      rw [m.ram_length]
      exact BitVec.isLt _
    by_cases hfit : (loadAddr - m.map.ramBase).toNat + data.length ≤ m.ram.length
    · have hsum : (Panics.checkedAdd (loadAddr - m.map.ramBase).toNat data.length).filter
          (· ≤ m.ram.length) = some ((loadAddr - m.map.ramBase).toNat + data.length) := by
        rw [Panics.checkedAdd, if_pos (by omega), Option.filter_some]
        exact if_pos (decide_eq_true hfit)
      have hlen : ((m.ram.drop (loadAddr - m.map.ramBase).toNat).take data.length).length =
          data.length := by
        rw [List.length_take, List.length_drop]
        omega
      simp only [hsum, Panics.getRange, hfit, Nat.le_add_right, and_self, if_true,
        Nat.add_sub_cancel_left, hlen]
    · have hsum : (Panics.checkedAdd (loadAddr - m.map.ramBase).toNat data.length).filter
          (· ≤ m.ram.length) = none := by
        rw [Panics.checkedAdd]
        split_ifs
        · rw [Option.filter_some]
          exact if_neg (by simpa using hfit)
        · rfl
      simp only [hsum, hfit, if_false]

namespace Cpu

theorem loadSegmentChecked_eq (m : Memory) {segment : Segment} (h : segment.Fits) :
    loadSegmentChecked m segment = some (loadSegment m segment) := by
  have hle := h.bytes_le
  have hin := h.inside
  rw [loadSegmentChecked, loadSegment, m.loadImageChecked_eq]
  rcases m.loadImage segment.bytes segment.vaddr with ⟨_ | _, m'⟩
  · rfl
  · dsimp only
    rw [if_pos hle]
    split_ifs with htail hsum
    · exact m'.loadImageChecked_eq _ _
    · rw [BitVec.toNat_ofNat] at hsum
      omega
    · rfl

theorem loadSegmentsChecked_eq (m : Memory) {segments : List Segment}
    (h : ∀ s ∈ segments, s.Fits) :
    loadSegmentsChecked m segments = some (loadSegments m segments) := by
  induction segments generalizing m with
  | nil => rfl
  | cons segment rest ih =>
    rw [loadSegmentsChecked, loadSegments, loadSegmentChecked_eq m (h _ List.mem_cons_self)]
    rcases loadSegment m segment with ⟨_ | _, m'⟩
    · rfl
    · exact ih m' fun s hs => h s (List.mem_cons_of_mem _ hs)

theorem loadChecked_eq (c : Cpu) {image : Image} (h : ∀ s ∈ image.segments, s.Fits) :
    c.loadChecked image = some (c.load image) := by
  rw [loadChecked, load, loadSegmentsChecked_eq c.memory h]
  rcases loadSegments c.memory image.segments with ⟨_ | _, m⟩ <;> rfl

end Cpu

/-! ## What a load leaves -/

theorem Memory.loadImage_ok {m : Memory} {data : List Byte} {loadAddr : Word}
    (h : (m.loadImage data loadAddr).1 = .ok ()) :
    m.map.ramBase.toNat ≤ loadAddr.toNat ∧
      loadAddr.toNat - m.map.ramBase.toNat + data.length ≤ m.ram.length ∧
      (m.loadImage data loadAddr).2.map = m.map ∧
      (m.loadImage data loadAddr).2.ram =
        overwrite m.ram (loadAddr.toNat - m.map.ramBase.toNat) data := by
  by_cases hbelow : loadAddr < m.map.ramBase
  · rw [loadImage, if_pos hbelow] at h
    cases h
  · have hle := BitVec.not_lt.mp hbelow
    rw [loadImage, if_neg hbelow] at h ⊢
    simp only [BitVec.toNat_sub_of_le hle] at h ⊢
    by_cases hfit : loadAddr.toNat - m.map.ramBase.toNat + data.length ≤ m.ram.length
    · rw [if_pos hfit]
      exact ⟨hle, hfit, rfl, rfl⟩
    · rw [if_neg hfit] at h
      cases h

namespace Cpu
variable {m : Memory}

/-- A segment that was loaded is copied as a whole. -/
theorem loadSegment_ok {segment : Segment} (hfits : segment.Fits)
    (h : (loadSegment m segment).1 = .ok ()) :
    m.map.ramBase.toNat ≤ segment.vaddr.toNat ∧
      segment.vaddr.toNat - m.map.ramBase.toNat + segment.memLen.toNat ≤ m.ram.length ∧
      (loadSegment m segment).2.map = m.map ∧
      (loadSegment m segment).2.ram =
        overwrite m.ram (segment.vaddr.toNat - m.map.ramBase.toNat) segment.contents := by
  have hle := hfits.bytes_le
  have hin := hfits.inside
  rw [loadSegment] at h ⊢
  rcases hfirst : m.loadImage segment.bytes segment.vaddr with ⟨e | _, m'⟩
  · rw [hfirst] at h
    cases h
  · rw [hfirst] at h
    dsimp only at h ⊢
    have hok : (m.loadImage segment.bytes segment.vaddr).1 = .ok () := by rw [hfirst]
    obtain ⟨hbase, hlen, hmap, hram⟩ := Memory.loadImage_ok hok
    rw [hfirst] at hmap hram
    dsimp only at hmap hram
    split_ifs at h ⊢ with htail
    · obtain ⟨-, hlen', hmap', hram'⟩ := Memory.loadImage_ok h
      have hat : (segment.vaddr + BitVec.ofNat 32 segment.bytes.length).toNat -
          m.map.ramBase.toNat =
          segment.vaddr.toNat - m.map.ramBase.toNat + segment.bytes.length := by
        rw [BitVec.toNat_add, BitVec.toNat_ofNat]
        omega
      rw [hmap, hat, hram, length_overwrite, List.length_replicate] at hlen'
      refine ⟨hbase, by omega, hmap'.trans hmap, ?_⟩
      rw [hram', hmap, hat, hram, ← overwrite_append]
      rfl
    · have hcontents : segment.contents = segment.bytes := by
        rw [Segment.contents, show segment.memLen.toNat - segment.bytes.length = 0 by omega]
        exact List.append_nil _
      refine ⟨hbase, by omega, hmap, ?_⟩
      rw [hcontents]
      exact hram

/-- After a segment, RAM holds it where it lies and what it held elsewhere. -/
theorem getElem?_loadSegment {segment : Segment} (hfits : segment.Fits)
    (h : (loadSegment m segment).1 = .ok ()) (j : Nat) :
    (loadSegment m segment).2.ram[j]? =
      (segment.byteAt (m.map.ramBase.toNat + j)).or m.ram[j]? := by
  obtain ⟨hbase, hlen, -, hram⟩ := loadSegment_ok hfits h
  rw [hram, getElem?_overwrite_eq _ _ _ (by rwa [Segment.length_contents hfits]), Segment.byteAt]
  by_cases hj : segment.vaddr.toNat ≤ m.map.ramBase.toNat + j
  · have hpos : j - (segment.vaddr.toNat - m.map.ramBase.toNat) =
        m.map.ramBase.toNat + j - segment.vaddr.toNat := by omega
    rw [if_pos (by omega), if_pos hj, hpos]
  · rw [if_neg (by omega), if_neg hj]
    rfl

/-- After all of them, the last one that lies over an address. -/
theorem getElem?_loadSegments {segments : List Segment} (hfits : ∀ s ∈ segments, s.Fits)
    (h : (loadSegments m segments).1 = .ok ()) (j : Nat) :
    (loadSegments m segments).2.ram[j]? =
      (segments.reverse.findSome? (·.byteAt (m.map.ramBase.toNat + j))).or m.ram[j]? := by
  induction segments generalizing m with
  | nil => rfl
  | cons segment rest ih =>
    have hfit := hfits segment List.mem_cons_self
    rw [loadSegments] at h ⊢
    rcases hsegment : loadSegment m segment with ⟨e | _, m'⟩
    · rw [hsegment] at h
      cases h
    · rw [hsegment] at h
      have hok : (loadSegment m segment).1 = .ok () := by rw [hsegment]
      have hget := getElem?_loadSegment hfit hok j
      obtain ⟨-, -, hmap, -⟩ := loadSegment_ok hfit hok
      rw [hsegment] at hget hmap
      dsimp only at h hget hmap ⊢
      rw [ih (fun s hs => hfits s (List.mem_cons_of_mem _ hs)) h, hget, hmap, List.reverse_cons,
        List.findSome?_append, Option.or_assoc, List.findSome?_singleton]

theorem getElem?_load {c : Cpu} {image : Image} (hfits : ∀ s ∈ image.segments, s.Fits)
    (h : (c.load image).1 = .ok ()) (j : Nat) :
    (c.load image).2.memory.ram[j]? =
      (image.lastByte (c.memory.map.ramBase.toNat + j)).or c.memory.ram[j]? := by
  rw [load] at h ⊢
  rcases hsegments : loadSegments c.memory image.segments with ⟨e | _, m⟩
  · rw [hsegments] at h
    cases h
  · have hok : (loadSegments c.memory image.segments).1 = .ok () := by rw [hsegments]
    have hget := getElem?_loadSegments hfits hok j
    rw [hsegments] at hget
    exact hget

end Cpu

/-- Whatever the bytes, parsing them ends without a panic; an image it returns is well
formed, loading it into any machine ends without a panic, and a load that succeeds leaves
in RAM what the last segment over each address puts there, and elsewhere what was
there. -/
theorem parseElf_load (file : List Byte) :
    parseElf file ≠ .error .panic ∧
      ∀ elf, parseElf file = .ok elf → elf.WellFormed file ∧
        ∀ c : Cpu, c.loadChecked elf.image = some (c.load elf.image) ∧
          ((c.load elf.image).1 = .ok () → ∀ j : Nat,
            (c.load elf.image).2.memory.ram[j]? =
              (elf.image.lastByte (c.memory.map.ramBase.toNat + j)).or c.memory.ram[j]?) := by
  refine ⟨safe_parseElf file, fun elf helf => ?_⟩
  have hwf := wellFormed_of_parseElf helf
  have hfits : ∀ s ∈ elf.image.segments, s.Fits := by
    intro s hs
    obtain ⟨segment, hsegment, rfl⟩ := List.mem_map.mp hs
    exact ⟨hwf.bytes_le segment hsegment, hwf.inside segment hsegment⟩
  exact ⟨hwf, fun c => ⟨c.loadChecked_eq hfits, Cpu.getElem?_load hfits⟩⟩

/-! ## Segments over each other -/

/-- RAM holds a segment as a whole. -/
def Segment.Held (s : Segment) (m : Memory) : Prop :=
  ∀ k < s.memLen.toNat, m.ram[s.vaddr.toNat - m.map.ramBase.toNat + k]? = s.contents[k]?

/-- A segment header for the byte of the file at `offset`, at the base of RAM. -/
def oneByteHeader (offset : Byte) : List Byte :=
  [1, 0, 0, 0] ++ [offset, 0, 0, 0] ++ [0, 0, 0, 0x80] ++ [0, 0, 0, 0x80] ++ [1, 0, 0, 0] ++
    [1, 0, 0, 0] ++ [5, 0, 0, 0] ++ [4, 0, 0, 0]

/-- A file with two segments of one byte at the same address. -/
def overlapping : List Byte :=
  elfMagic ++ [1, 1, 1, 0] ++ [0, 0, 0, 0] ++ [0, 0, 0, 0] ++ [2, 0, 0xF3, 0] ++ [1, 0, 0, 0] ++
    [0, 0, 0, 0x80] ++ [52, 0, 0, 0] ++ [0, 0, 0, 0] ++ [0, 0, 0, 0] ++ [52, 0, 32, 0] ++
    [2, 0, 40, 0] ++ [0, 0, 0, 0] ++ oneByteHeader 116 ++ oneByteHeader 117 ++ [1, 2]

def overlappingImage : ElfImage where
  entry := ramBase
  segments :=
    [ { vaddr := ramBase, bytes := [1], memLen := 1, executable := true }
    , { vaddr := ramBase, bytes := [2], memLen := 1, executable := true } ]
  symbols := []

theorem first_segment_overwritten :
    parseElf overlapping = .ok overlappingImage ∧
      ((Cpu.program [] 4).load overlappingImage.image).1 = .ok () ∧
      ¬∀ s ∈ overlappingImage.image.segments,
        s.Held ((Cpu.program [] 4).load overlappingImage.image).2.memory := by
  refine ⟨by decide +kernel, rfl, ?_⟩
  intro h
  have hfirst := h ⟨ramBase, [1], 1⟩ List.mem_cons_self 0 (by decide)
  revert hfirst
  decide

end ClickDoom
