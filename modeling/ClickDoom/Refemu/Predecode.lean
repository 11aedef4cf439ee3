import ClickDoom.Refemu.Decode
import ClickDoom.Refemu.Memory

/-! # Decoded instructions, kept for the read-only text region

`refemu/src/predecode.rs`.  The cache covers exactly the text region: a store
into it halts, so the region cannot change under the cache.
-/
namespace ClickDoom
open LittleEndian (word)

/-- One cached instruction, with the word it came from. -/
structure Entry where
  insn : Instruction
  word : Word
  deriving DecidableEq

/-- The first address covered is four-byte aligned. -/
structure DecodeCache where
  base : Word
  entries : List Entry
  base_aligned : base.toNat % 4 = 0
  deriving DecidableEq

namespace DecodeCache

/-- The word RAM holds at a byte position. -/
def ramWord (ram : List Byte) (pos : Nat) : Word :=
  word (ram.getD pos 0) (ram.getD (pos + 1) 0) (ram.getD (pos + 2) 0) (ram.getD (pos + 3) 0)

/-- Decodes `[start, stop)` up front.  Nothing when the region is empty, is not
four-byte aligned, or is not wholly inside RAM. -/
def build (m : Memory) (start stop : Word) : Option DecodeCache :=
  if h : stop ≤ start ∨ start.toNat % 4 ≠ 0 ∨ stop.toNat % 4 ≠ 0 then none
  else if start < m.map.ramBase ∨ m.map.ramBase.toNat + m.map.ramSize.toNat < stop.toNat then none
  else
    some
      { base := start
        entries := (List.range ((stop - start).toNat / 4)).map fun index =>
          let w := ramWord m.ram ((start - m.map.ramBase).toNat + index * 4)
          ⟨decode w, w⟩
        base_aligned := by
          rw [not_or, not_or] at h
          exact Classical.not_not.mp h.2.1 }

/-- The entry for `pc`, when the cache covers it. -/
def get (c : DecodeCache) (pc : Word) : Option Entry :=
  let delta := pc - c.base
  if delta.toNat % 4 ≠ 0 then none else c.entries[delta.toNat / 4]?

/-- A program counter the cache covers is four-byte aligned. -/
theorem aligned_of_get {c : DecodeCache} {pc : Word} {entry : Entry} (h : c.get pc = some entry) :
    pc.toNat % 4 = 0 := by
  simp only [get] at h
  split_ifs at h with hd
  have hb := c.base_aligned
  have hd' : (pc - c.base).toNat % 4 = 0 := Classical.not_not.mp hd
  have := c.base.isLt
  have := pc.isLt
  rw [BitVec.toNat_sub] at hd'
  omega

end DecodeCache
end ClickDoom
