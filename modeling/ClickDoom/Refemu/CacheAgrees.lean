import ClickDoom.Refemu.Halts
import ClickDoom.Refemu.Trace

/-! # Cached and uncached execution agree

The decoded instructions are a second copy of the text.  The invariant is that a
cache, when there is one, is the cache that would be built now: every operation
that can change text drops it, and a step cannot change text.
-/
namespace ClickDoom
open LittleEndian (overwrite)

/-! ## A step cannot change text -/

namespace Memory

/-- The map, the declared region and every byte inside it are what they were. -/
def KeepsText (m m' : Memory) : Prop :=
  m'.map = m.map ∧ m'.text = m.text ∧ ∀ start stop, m.text = some (start, stop) →
    ∀ i, start.toNat ≤ m.map.ramBase.toNat + i → m.map.ramBase.toNat + i < stop.toNat →
      m'.ram[i]? = m.ram[i]?

namespace KeepsText

theorem refl (m : Memory) : m.KeepsText m := ⟨rfl, rfl, fun _ _ _ _ _ _ => rfl⟩

theorem trans {m m' m'' : Memory} (h : m.KeepsText m') (h' : m'.KeepsText m'') :
    m.KeepsText m'' := by
  refine ⟨h'.1.trans h.1, h'.2.1.trans h.2.1, fun start stop ht i h1 h2 => ?_⟩
  have ht' : m'.text = some (start, stop) := h.2.1.trans ht
  have hb : m'.map.ramBase = m.map.ramBase := by rw [h.1]
  rw [h'.2.2 start stop ht' i (by rw [hb]; exact h1) (by rw [hb]; exact h2)]
  exact h.2.2 start stop ht i h1 h2

/-- A change to anything but the map, the region and RAM. -/
theorem of_eq {m m' : Memory} (hmap : m'.map = m.map) (htext : m'.text = m.text)
    (hram : m'.ram = m.ram) : m.KeepsText m' :=
  ⟨hmap, htext, fun _ _ _ _ _ _ => by rw [hram]⟩

end KeepsText

theorem read_keepsText (m : Memory) (addr : Word) (width : Width) (icount : Nat) :
    m.KeepsText (m.read addr width icount).2 := by
  unfold read
  split
  · exact .refl m
  · split
    · exact .refl m
    · exact .refl m
    · exact .of_eq rfl rfl rfl
    · exact .refl m
    · exact .refl m

/-- A store into RAM that the text check lets through touches no text byte. -/
theorem writeRam_keepsText {m : Memory} {addr : Word} {width : Width} (value : Word)
    (hh : m.map.Holds .ram addr width) (hin : m.inText addr width = false) :
    m.KeepsText (m.writeRam (addr - m.map.ramBase) width value) := by
  refine ⟨rfl, rfl, fun start stop htext i h1 h2 => ?_⟩
  have hoff : (addr - m.map.ramBase).toNat = addr.toNat - m.map.ramBase.toNat :=
    BitVec.toNat_sub_of_le hh.1
  have hbase : m.map.ramBase.toNat ≤ addr.toNat := hh.1
  have hlen : (LittleEndian.bytes value width.size).length = width.size := by
    simp [LittleEndian.bytes]
  simp only [inText, htext, Bool.not_eq_false', Bool.or_eq_true, decide_eq_true_eq] at hin
  rcases hin with hbelow | habove
  · exact LittleEndian.getElem?_overwrite_of_ge _ _ (by rw [hoff, hlen]; omega)
  · exact LittleEndian.getElem?_overwrite_of_lt _ _ (by rw [hoff]; omega)

theorem write_keepsText (m : Memory) (addr : Word) (width : Width) (value : Word) (icount : Nat) :
    m.KeepsText (m.write addr width value icount).2 := by
  unfold write
  split
  · exact .refl m
  · split
    · exact .refl m
    · rename_i offset hc
      obtain ⟨hh, rfl⟩ := MemoryMap.holds_of_classify hc
      split
      · exact .refl m
      · rename_i hin
        exact (writeRam_keepsText value hh (Bool.eq_false_iff.mpr hin)).trans (.of_eq rfl rfl rfl)
    · dsimp only
      split <;> exact .of_eq rfl rfl rfl
    · split
      · exact .refl m
      · exact .of_eq rfl rfl rfl
    · split
      · exact .refl m
      · exact .of_eq rfl rfl rfl

end Memory

namespace Cpu

/-- A step, whatever its result, keeps the text. -/
theorem stepReporting_keepsText (c : Cpu) : c.memory.KeepsText c.stepReporting.2.memory :=
  stepReporting_memory .refl .trans Memory.read_keepsText Memory.write_keepsText c

end Cpu

/-! ## The cache holds what memory holds -/

namespace DecodeCache

/-- An entry of a cache just built is what the fetch from memory would find. -/
theorem read_of_get_build {m : Memory} {start stop pc : Word} {cache : DecodeCache} {entry : Entry}
    (hb : build m start stop = some cache) (hg : cache.get pc = some entry) (icount : Nat) :
    m.read pc .word icount = (.ok entry.word, m) ∧ entry.insn = decode entry.word := by
  have hpc := aligned_of_get hg
  unfold build at hb
  split_ifs at hb with h1 h2
  obtain rfl := Option.some.inj hb
  push Not at h1 h2
  simp only [get] at hg
  split_ifs at hg with hd
  rw [List.getElem?_map, Option.map_eq_some_iff] at hg
  obtain ⟨index, hindex, rfl⟩ := hg
  obtain ⟨hlt, hidx⟩ := List.getElem?_eq_some_iff.mp hindex
  rw [List.getElem_range] at hidx
  rw [List.length_range] at hlt
  have hle : start.toNat ≤ stop.toNat := by
    have : start.toNat < stop.toNat := BitVec.not_le.mp h1.1
    omega
  have hbase : m.map.ramBase.toNat ≤ start.toNat := BitVec.not_lt.mp h2.1
  rw [BitVec.toNat_sub_of_le hle] at hlt
  have hpcstart : pc.toNat = start.toNat + (pc - start).toNat := by
    have := pc.isLt
    have := start.isLt
    have := stop.isLt
    rw [BitVec.toNat_sub] at hlt ⊢
    omega
  have hholds : m.map.Holds .ram pc .word := by
    simp only [MemoryMap.Holds, MemoryMap.bounds, Width.size]
    omega
  have hoff : (pc - m.map.ramBase).toNat = (start - m.map.ramBase).toNat + index * 4 := by
    rw [BitVec.toNat_sub_of_le (show m.map.ramBase ≤ pc from hholds.1),
      BitVec.toNat_sub_of_le hbase]
    omega
  refine ⟨?_, rfl⟩
  simp [Memory.read, Memory.checkAlign, Width.size, hpc, MemoryMap.classify_ram hholds, readLe,
    hoff, ramWord]

/-- The cache depends on text alone. -/
theorem build_of_keepsText {m m' : Memory} {start stop : Word} (h : m.KeepsText m')
    (ht : m.text = some (start, stop)) : build m' start stop = build m start stop := by
  unfold build
  simp only [h.1]
  split_ifs with h1 h2
  · rfl
  · rfl
  · push Not at h1 h2
    have hle : start.toNat < stop.toNat := BitVec.not_le.mp h1.1
    have hbase : m.map.ramBase.toNat ≤ start.toNat := BitVec.not_lt.mp h2.1
    congr 2
    apply List.map_congr_left
    intro index hindex
    rw [List.mem_range, BitVec.toNat_sub_of_le (le_of_lt hle)] at hindex
    have hword : ∀ k < 4, m'.ram.getD ((start - m.map.ramBase).toNat + index * 4 + k) 0 =
        m.ram.getD ((start - m.map.ramBase).toNat + index * 4 + k) 0 := by
      intro k hk
      rw [List.getD_eq_getElem?_getD, List.getD_eq_getElem?_getD, h.2.2 start stop ht]
      · rw [BitVec.toNat_sub_of_le hbase]
        omega
      · rw [BitVec.toNat_sub_of_le hbase]
        omega
    have h0 := hword 0 (by omega)
    have h1 := hword 1 (by omega)
    have h2 := hword 2 (by omega)
    have h3 := hword 3 (by omega)
    rw [Nat.add_zero] at h0
    simp only [ramWord, h0, h1, h2, h3]

end DecodeCache

namespace Cpu

/-- The machine with no cache. -/
def dropCache (c : Cpu) : Cpu := { c with cache := none }

/-- A cache, when there is one, is the one that would be built now. -/
def CacheFresh (c : Cpu) : Prop :=
  ∀ cache, c.cache = some cache →
    ∃ start stop, c.memory.text = some (start, stop) ∧
      DecodeCache.build c.memory start stop = some cache

theorem cacheFresh_of_none {c : Cpu} (h : c.cache = none) : c.CacheFresh := by
  intro cache hc
  rw [h] at hc
  cases hc

theorem cacheFresh_enableDecodeCache (c : Cpu) : c.enableDecodeCache.2.CacheFresh := by
  intro cache hc
  obtain ⟨⟨start, stop⟩, ht, hb⟩ := Option.bind_eq_some_iff.mp hc
  exact ⟨start, stop, ht, hb⟩

/-- A cache stays fresh through anything that keeps it and the text. -/
theorem CacheFresh.of_keepsText {c d : Cpu} (h : c.CacheFresh) (hcache : d.cache = c.cache)
    (hk : c.memory.KeepsText d.memory) : d.CacheFresh := by
  intro cache hc
  obtain ⟨start, stop, ht, hb⟩ := h cache (hcache ▸ hc)
  exact ⟨start, stop, hk.2.1.trans ht, (DecodeCache.build_of_keepsText hk ht).trans hb⟩

/-! ## One step -/

theorem execute_cache (c : Cpu) (pc word : Word) (insn : Instruction) :
    (c.execute pc word insn).2.cache = c.cache := by
  rcases c.execute_cases pc word insn with ⟨reason, -, he⟩ | ⟨target, d, hd, he⟩ | ⟨d, hd, he⟩ |
    ⟨addr, width, signed, he⟩ | ⟨addr, width, value, he⟩ <;> rw [he]
  · simp only [jump]
    split
    · rfl
    · rcases hd with rfl | ⟨value, rfl⟩ <;> rfl
  · rcases hd with rfl | ⟨value, rfl⟩ <;> rfl
  · simp only [executeLoad]
    split <;> rfl
  · simp only [executeStore]
    split <;> rfl

theorem fetch_cache (c : Cpu) : c.fetch.2.cache = c.cache := by
  simp only [fetch]
  split
  · rfl
  · split <;> rfl

theorem stepReporting_cache (c : Cpu) : c.stepReporting.2.cache = c.cache := by
  unfold stepReporting
  split
  · rfl
  · have hf := c.fetch_cache
    split
    · rename_i hfetch
      rw [hfetch] at hf
      exact hf
    · rename_i word insn d hfetch
      rw [hfetch] at hf
      have he := d.execute_cache c.pc word insn
      split <;> rename_i hexec <;> rw [hexec] at he <;> exact he.trans hf

/-- The machine as seen through a change to its memory, and without its
cache. -/
def view (g : Memory → Memory) (c : Cpu) : Cpu := { c with memory := g c.memory, cache := none }

/-- Execution commutes with any view that reads and writes commute with. -/
theorem execute_view {g : Memory → Memory}
    (hread : ∀ m addr width icount, (g m).read addr width icount =
      ((m.read addr width icount).1, g (m.read addr width icount).2))
    (hwrite : ∀ m addr width value icount, (g m).write addr width value icount =
      ((m.write addr width value icount).1, g (m.write addr width value icount).2))
    (c : Cpu) (pc word : Word) (insn : Instruction) :
    (c.view g).execute pc word insn =
      ((c.execute pc word insn).1, (c.execute pc word insn).2.view g) := by
  have hjump : ∀ target d, (c.view g).jump pc word target (view g d) =
      ((c.jump pc word target d).1, (c.jump pc word target d).2.view g) := by
    intro target d
    simp only [jump]
    split <;> rfl
  have hload : ∀ rd addr width signed, (c.view g).executeLoad pc word rd addr width signed =
      ((c.executeLoad pc word rd addr width signed).1,
        (c.executeLoad pc word rd addr width signed).2.view g) := by
    intro rd addr width signed
    have hr : (c.view g).memory.read addr width (c.view g).icount = _ :=
      hread c.memory addr width c.icount
    unfold executeLoad
    rw [hr]
    rcases c.memory.read addr width c.icount with ⟨_ | raw, m⟩ <;> rfl
  have hstore : ∀ addr width value, (c.view g).executeStore pc word addr width value =
      ((c.executeStore pc word addr width value).1,
        (c.executeStore pc word addr width value).2.view g) := by
    intro addr width value
    have hw : (c.view g).memory.write addr width value (c.view g).icount = _ :=
      hwrite c.memory addr width value c.icount
    unfold executeStore
    rw [hw]
    rcases c.memory.write addr width value c.icount with ⟨_ | u, m⟩ <;> rfl
  cases hop : insn.op with
  | jal | jalr =>
    simp only [execute, hop]
    exact hjump _ (c.setReg insn.rd (pc + 4))
  | beq | bne | blt | bge | bltu | bgeu =>
    simp only [execute, hop]
    change (if taken _ (c.reg insn.rs1) (c.reg insn.rs2) = true then _ else _) = _
    split
    · exact hjump _ c
    · rfl
  | lb | lh | lw | lbu | lhu =>
    simp only [execute, hop]
    exact hload _ _ _ _
  | sb | sh | sw =>
    simp only [execute, hop]
    exact hstore _ _ _
  | fence | ecall | ebreak | csr | illegal => simp only [execute, hop]
  | _ =>
    simp only [execute, hop]
    rfl

/-- With no cache the word comes from memory. -/
theorem fetch_of_no_cache {c : Cpu} (h : c.cache = none) :
    c.fetch = match c.memory.read c.pc .word c.icount with
      | (.error fault, m) => (.error (fetchHalt c.pc fault), c.setMemory m)
      | (.ok word, m) => (.ok (word, decode word), c.setMemory m) := by
  unfold fetch
  rw [h]
  rfl

/-- A fetch through a fresh cache finds what the fetch from memory finds. -/
theorem fetch_dropCache {c : Cpu} (h : c.CacheFresh) :
    c.dropCache.fetch = (c.fetch.1, c.fetch.2.dropCache) := by
  have hplain : c.dropCache.fetch = match c.memory.read c.pc .word c.icount with
      | (.error fault, m) => (.error (fetchHalt c.pc fault), (c.setMemory m).dropCache)
      | (.ok word, m) => (.ok (word, decode word), (c.setMemory m).dropCache) :=
    fetch_of_no_cache rfl
  rw [hplain]
  unfold fetch
  rcases hentry : c.cache.bind (·.get c.pc) with _ | entry
  · rcases c.memory.read c.pc .word c.icount with ⟨fault | word, m⟩ <;> rfl
  · obtain ⟨cache, hcache, hget⟩ := Option.bind_eq_some_iff.mp hentry
    obtain ⟨start, stop, -, hb⟩ := h cache hcache
    obtain ⟨hread, hinsn⟩ := DecodeCache.read_of_get_build hb hget c.icount
    rw [hread]
    dsimp only
    rw [hinsn]
    rfl

theorem stepReporting_dropCache {c : Cpu} (h : c.CacheFresh) :
    c.dropCache.stepReporting = (c.stepReporting.1, c.stepReporting.2.dropCache) := by
  have hout : c.dropCache.outsideText = c.outsideText := rfl
  unfold stepReporting
  rw [hout, fetch_dropCache h]
  split
  · rfl
  · rcases c.fetch with ⟨halt | ⟨word, insn⟩, d⟩
    · rfl
    · dsimp only
      have hpc : c.dropCache.pc = c.pc := rfl
      have hview := execute_view (g := id) (fun _ _ _ _ => rfl) (fun _ _ _ _ _ => rfl) d c.pc word insn
      rw [hpc, show d.dropCache = d.view id from rfl, hview]
      rcases d.execute c.pc word insn with ⟨halt | next, d'⟩ <;> rfl

theorem CacheFresh.stepReporting {c : Cpu} (h : c.CacheFresh) : c.stepReporting.2.CacheFresh :=
  h.of_keepsText c.stepReporting_cache c.stepReporting_keepsText

/-- The trace of a machine does not depend on its cache. -/
theorem collectLoop_dropCache (xxh64 : List Byte → BitVec 64) (config : TraceConfig) (left : Nat)
    {c : Cpu} (h : c.CacheFresh) :
    collectLoop xxh64 config left c.dropCache =
      ((collectLoop xxh64 config left c).1, (collectLoop xxh64 config left c).2.1,
        (collectLoop xxh64 config left c).2.2.dropCache) := by
  induction left generalizing c with
  | zero => rfl
  | succ left ih =>
    have hfresh := h.stepReporting
    simp only [collectLoop]
    rw [stepReporting_dropCache h]
    rcases hs : c.stepReporting with ⟨halt | p, d⟩
    · rfl
    · rw [hs] at hfresh
      have := ih hfresh
      simp only [this]
      rfl

/-! ## Every sequence of operations -/

/-- The operations that can touch a machine's text, and the step. -/
inductive Operation
  | loadImage (data : List Byte) (loadAddr : Word)
  | load (image : Image)
  | setTextRegion (region : Option (Word × Word))
  | restoreMemory (ram framebuffer palette : List Byte)
  | enableDecodeCache
  | step

/-- What a caller sees of an operation. -/
inductive Outcome
  | done
  | loaded (result : Except LoadError Unit)
  | stepped (result : Except Halt (Word × Instruction))

/-- One operation.  A machine run without the cache skips the call that fills
it. -/
def apply (caching : Bool) (c : Cpu) : Operation → Outcome × Cpu
  | .loadImage data loadAddr =>
    (.loaded (c.loadImage data loadAddr).1, (c.loadImage data loadAddr).2)
  | .load image => (.loaded (c.load image).1, (c.load image).2)
  | .setTextRegion region => (.done, c.setTextRegion region)
  | .restoreMemory ram framebuffer palette => (.done, c.restoreMemory ram framebuffer palette)
  | .enableDecodeCache => (.done, if caching then c.enableDecodeCache.2 else c)
  | .step => (.stepped c.stepReporting.1, c.stepReporting.2)

/-- A sequence of operations, with what the caller saw of each. -/
def applyAll (caching : Bool) (c : Cpu) : List Operation → List Outcome × Cpu
  | [] => ([], c)
  | op :: rest =>
    let (outcome, c') := c.apply caching op
    let (outcomes, c'') := applyAll caching c' rest
    (outcome :: outcomes, c'')

theorem load_dropCache (c : Cpu) (image : Image) :
    c.dropCache.load image = ((c.load image).1, (c.load image).2.dropCache) ∧
      (c.load image).2.cache = none := by
  simp only [load]
  rw [show c.dropCache.memory = c.memory from rfl]
  rcases loadSegments c.memory image.segments with ⟨e | u, m⟩ <;> exact ⟨rfl, rfl⟩

/-- One operation on a machine with a fresh cache and on the same machine with
none. -/
theorem apply_agrees {c : Cpu} (h : c.CacheFresh) (op : Operation) :
    c.dropCache.apply false op = ((c.apply true op).1, (c.apply true op).2.dropCache) ∧
      (c.apply true op).2.CacheFresh := by
  cases op with
  | loadImage data loadAddr => exact ⟨rfl, cacheFresh_of_none rfl⟩
  | load image =>
    obtain ⟨heq, hnone⟩ := c.load_dropCache image
    refine ⟨?_, cacheFresh_of_none hnone⟩
    simp only [apply, heq]
  | setTextRegion region => exact ⟨rfl, cacheFresh_of_none rfl⟩
  | restoreMemory ram framebuffer palette => exact ⟨rfl, cacheFresh_of_none rfl⟩
  | enableDecodeCache => exact ⟨rfl, c.cacheFresh_enableDecodeCache⟩
  | step =>
    refine ⟨?_, h.stepReporting⟩
    simp only [apply, stepReporting_dropCache h]

theorem applyAll_agrees {c : Cpu} (h : c.CacheFresh) (ops : List Operation) :
    c.dropCache.applyAll false ops = ((c.applyAll true ops).1, (c.applyAll true ops).2.dropCache) ∧
      (c.applyAll true ops).2.CacheFresh := by
  induction ops generalizing c with
  | nil => exact ⟨rfl, h⟩
  | cons op rest ih =>
    obtain ⟨heq, hfresh⟩ := apply_agrees h op
    obtain ⟨hrest, hfinal⟩ := ih hfresh
    refine ⟨?_, hfinal⟩
    simp only [applyAll, heq, hrest]

/-- **The decode cache is transparent.**  From any machine with no cache yet,
any sequence of operations gives the same outcomes and the same machine whether
or not the calls that fill the cache are made, and the trace taken from there on
is the same. -/
theorem decodeCache_transparent (xxh64 : List Byte → BitVec 64) (c : Cpu) (ops : List Operation) :
    (c.dropCache.applyAll true ops).1 = (c.dropCache.applyAll false ops).1 ∧
    (c.dropCache.applyAll true ops).2.dropCache = (c.dropCache.applyAll false ops).2.dropCache ∧
    ∀ config budget,
      let cached := collect xxh64 (c.dropCache.applyAll true ops).2 config budget
      let plain := collect xxh64 (c.dropCache.applyAll false ops).2 config budget
      cached.1 = plain.1 ∧ cached.2.1 = plain.2.1 ∧
        cached.2.2.dropCache = plain.2.2.dropCache := by
  have hstart : c.dropCache.CacheFresh := cacheFresh_of_none rfl
  obtain ⟨heq, hfresh⟩ := applyAll_agrees hstart ops
  have hdrop : c.dropCache.dropCache = c.dropCache := rfl
  rw [hdrop] at heq
  rw [heq]
  refine ⟨rfl, rfl, fun config budget => ?_⟩
  have hicount : (c.dropCache.applyAll true ops).2.dropCache.icount =
      (c.dropCache.applyAll true ops).2.icount := rfl
  simp only [collect, hicount, collectLoop_dropCache xxh64 config _ hfresh]
  exact ⟨trivial, trivial, rfl⟩

end Cpu
end ClickDoom
