import ClickDoom.Executor.Batches

/-! # Runs of batches

The invariant of a run, `Stands`, and the batch that keeps it.
-/
namespace ClickDoom
open ClickHouse
open LittleEndian (wordAt)

/-- A batch as the driver runs it: how many instructions, how many stores, and
the key rows that arrived before it. -/
structure BatchSpec where
  k : Word
  hwm : Word
  keys : List (BitVec 16)

namespace Database

/-- The flush of a batch, with the rows it inserts written out. -/
theorem flush_eq (db : Database) (batchId : Nat) :
    db.flush batchId =
      { db with
        ram := db.ram ++ (db.rowsOf batchId).flatMap (·.wl.rows ramBaseWord.toNat)
        framebuffer := db.framebuffer ++ (db.rowsOf batchId).flatMap (·.fbWl.rows 0)
        palette := db.palette ++ (db.rowsOf batchId).flatMap (·.palWl.rows 0)
        consoleOut := db.consoleOut ++
          (db.rowsOf batchId).flatMap fun row => consoleRows row.batchId row.consoleBytes
        cpuState := db.cpuState ++ (db.rowsOf batchId).map fun row => ⟨row.batchId, row.cpu, 0⟩ } :=
  rfl

/-- A batch and its flush. -/
def advance (L : Layout) (db : Database) (b : BatchSpec) : Database :=
  let db := ({ db with inputQueue := db.inputQueue ++ b.keys } : Database).batch (L.args b.hwm) b.k.toNat
  match db.latest with
  | none => db
  | some row => db.flush row.batchId

/-- A run: one batch after the other. -/
def run (L : Layout) (db : Database) (bs : List BatchSpec) : Database := bs.foldl (advance L) db

/-- The row just committed is the only one of its batch. -/
theorem rowsOf_append (db : Database) {row : CommitRow}
    (h : ∀ s ∈ db.batchCommit, s.batchId < row.batchId) :
    ({ db with batchCommit := db.batchCommit ++ [row] } : Database).rowsOf row.batchId = [row] := by
  have hnil : db.batchCommit.filter (·.batchId = row.batchId) = [] := by
    rw [List.filter_eq_nil_iff]
    intro s hs
    simpa using (h s hs).ne
  rw [rowsOf, List.filter_append, hnil]
  simp

end Database

/-! ## Console bytes -/

theorem readFinal_consoleRows (batchId : Nat) (consoleBytes : List Byte) :
    (Table.readFinal (consoleRows batchId consoleBytes)).map (·.2) = consoleBytes := by
  have hrow : ∀ s, s ∈ consoleRows batchId consoleBytes ↔
      ∃ n, ∃ h : n < consoleBytes.length, s = ⟨batchId * 2 ^ 32 + n, consoleBytes[n], 0⟩ := by
    intro s
    simp only [consoleRows, List.mem_map, Prod.exists, List.mem_zipIdx_iff_getElem?,
      List.getElem?_eq_some_iff]
    constructor
    · rintro ⟨byte, n, ⟨hn, hbyte⟩, rfl⟩
      exact ⟨n, hn, by rw [hbyte]⟩
    · rintro ⟨n, hn, rfl⟩
      exact ⟨_, n, ⟨hn, rfl⟩, rfl⟩
  have hsorted : ((List.range consoleBytes.length).map (batchId * 2 ^ 32 + ·)).Pairwise (· < ·) :=
    List.pairwise_map.mpr (List.pairwise_lt_range.imp fun h => Nat.add_lt_add_left h _)
  rw [Table.readFinal_eq hsorted ?_ (fun k => consoleBytes.getD (k - batchId * 2 ^ 32) 0) ?_,
    List.map_map, List.map_map]
  · apply List.ext_getElem
    · simp
    · intro n h1 h2
      simp [List.getD_eq_getElem?_getD, h2]
  · intro k
    simp only [List.mem_map, List.mem_range]
    constructor
    · rintro ⟨n, hn, rfl⟩
      exact ⟨_, (hrow _).mpr ⟨n, hn, rfl⟩, rfl⟩
    · rintro ⟨s, hs, rfl⟩
      obtain ⟨n, hn, rfl⟩ := (hrow s).mp hs
      exact ⟨n, hn, rfl⟩
  · intro k hk
    obtain ⟨n, hn, rfl⟩ := List.mem_map.mp hk
    rw [List.mem_range] at hn
    have hmem : (⟨batchId * 2 ^ 32 + n, consoleBytes[n], 0⟩ : TableRow Nat Byte) ∈
        consoleRows batchId consoleBytes := (hrow _).mpr ⟨n, hn, rfl⟩
    have hfinal := Table.final_of_unique hmem ?_
    · rw [hfinal, Nat.add_sub_cancel_left, List.getD_eq_getElem?_getD, List.getElem?_eq_getElem hn]
      rfl
    · intro s hs hkey
      obtain ⟨m, hm, rfl⟩ := (hrow s).mp hs
      obtain rfl : m = n := Nat.add_left_cancel hkey
      rfl

theorem key_consoleRows {batchId : Nat} {consoleBytes : List Byte} {s : TableRow Nat Byte}
    (h : s ∈ consoleRows batchId consoleBytes) :
    batchId * 2 ^ 32 ≤ s.key ∧ s.key < batchId * 2 ^ 32 + consoleBytes.length := by
  obtain ⟨⟨byte, n⟩, hmem, rfl⟩ := List.mem_map.mp h
  have hlt := (List.getElem?_eq_some_iff.mp (List.mem_zipIdx_iff_getElem?.mp hmem)).1
  exact ⟨Nat.le_add_right _ _, Nat.add_lt_add_left hlt _⟩

/-- A batch prints no more bytes than it has steps. -/
theorem foldBatch_console_le {v : Variant} {p : StepArgs} {cap : Captures} {acc : Acc} (k : Nat) :
    (foldBatch v p cap k acc).mmio.consoleBytes.length ≤ acc.mmio.consoleBytes.length + k := by
  have hfold : ∀ (steps : List Nat) (acc : Acc),
      (steps.foldl (buildStep v p cap) acc).mmio.consoleBytes.length ≤
        acc.mmio.consoleBytes.length + steps.length := by
    intro steps
    induction steps with
    | nil => exact fun acc => Nat.le_refl _
    | cons i rest ih =>
      intro acc
      have hstep : (buildStep v p cap acc i).mmio.consoleBytes.length ≤
          acc.mmio.consoleBytes.length + 1 := by
        rw [buildStep_eq]
        change (newConsole v (env p cap acc i) _).length ≤ _
        rw [newConsole]
        split_ifs
        · change (acc.mmio.consoleBytes ++ [_]).length ≤ _
          rw [List.length_append]
          exact Nat.le_refl _
        · exact Nat.le_succ _
      have := ih (buildStep v p cap acc i)
      rw [List.foldl_cons, List.length_cons]
      omega
  have := hfold (List.range k) acc
  rwa [List.length_range] at this

/-! ## The invariant of a run -/

/-- The database stands for a machine: the latest row is the machine's state,
`ram` spells its RAM, `framebuffer` and `palette` its pixels with rows for the
words that were stored, `console_out` its console, and the rows that announced a
frame its frames.  `all` are the key rows of the whole run. -/
structure Stands (L : Layout) (all : List (BitVec 16)) (fb pal : Nat → Prop) (db : Database)
    (row : CommitRow) (c : Cpu) (r : Registers) : Prop where
  fits : c.Fits L r
  latest : db.latest = some row
  newest : ∀ s ∈ db.batchCommit, s.batchId ≤ row.batchId
  pc : row.pc = c.pc
  regs : row.regs = c.regFile
  icount : row.icount = c.icount
  keyqPos_le : row.keyqPos.toNat ≤ all.length
  keys : r.keyQueue.map KeyEvent.row = all.drop row.keyqPos.toNat
  decoded : db.decoded = (decodeSql ramBaseWord (ramBaseWord + BitVec.ofNat 32 L.textWords)
    (ramTable L c)).map (·.dec)
  ram : Spells db.ram ramBaseWord.toNat L.ramWords c.icount (wordAt c.memory.ram) (· < L.ramWords)
  framebuffer : Spells db.framebuffer 0 16000 c.icount (wordAt c.memory.framebuffer) fb
  palette : Spells db.palette 0 192 c.icount (wordAt c.memory.palette) pal
  console : (Table.readFinal db.consoleOut).map (·.2) = r.console
  consoleKeys : ∀ s ∈ db.consoleOut, s.key < (row.batchId + 1) * 2 ^ 32
  cpu : Table.final db.cpuState row.batchId = some row.cpu
  cpuKeys : ∀ s ∈ db.cpuState, s.key ≤ row.batchId
  frames : (db.batchCommit.filter (·.hasFrame = 1)).map (·.frameNo) =
    r.frameCommits.map (·.frameNo)

namespace Stands
variable {L : Layout} {all : List (BitVec 16)} {fb pal : Nat → Prop} {db : Database}
  {row : CommitRow} {c : Cpu} {r : Registers}

/-- The words of RAM, as the fold captures them. -/
theorem ramt (h : Stands L all fb pal db row c r) :
    (Table.readFinal db.ram).map (·.2) = (ramTable L c).map (·.2) := by
  have hsorted : ((List.range L.ramWords).map (ramBaseWord.toNat + ·)).Pairwise (· < ·) :=
    List.pairwise_map.mpr (List.pairwise_lt_range.imp fun h => Nat.add_lt_add_left h _)
  rw [Table.readFinal_eq hsorted ?_ (fun k => wordAt c.memory.ram (k - ramBaseWord.toNat)) ?_,
    List.map_map, List.map_map, ramTable, List.map_map]
  · apply List.map_congr_left
    intro i _
    simp
  · intro k
    rw [h.ram.rows k]
    simp only [List.mem_map, List.mem_range]
    constructor
    · rintro ⟨i, hi, rfl⟩
      exact ⟨i, hi, rfl⟩
    · rintro ⟨i, hi, rfl⟩
      exact ⟨i, hi, rfl⟩
  · intro k hk
    obtain ⟨i, hi, rfl⟩ := List.mem_map.mp hk
    rw [List.mem_range] at hi
    have hword := h.ram.words i hi
    obtain ⟨s, hs, hkey⟩ := (h.ram.rows (ramBaseWord.toNat + i)).mpr ⟨i, hi, rfl⟩
    rw [Nat.add_sub_cancel_left, ← hword]
    cases hkept : Table.kept db.ram (ramBaseWord.toNat + i) with
    | none => exact absurd hkey (Table.kept_none.mp hkept s hs)
    | some row =>
      rw [Table.final, hkept]
      rfl

/-- The batch that starts from here, with every key of the run to come. -/
def origin (h : Stands L all fb pal db row c r) (hall : all.length < 2 ^ 32) : Origin where
  layout := L
  cpu := c
  registers := r
  popped := all.take row.keyqPos.toNat
  frameNo := 0
  fits := h.fits
  keys_lt := by
    have hlen := congrArg List.length h.keys
    have hle := h.keyqPos_le
    rw [List.length_map, List.length_drop] at hlen
    rw [List.length_take]
    omega

variable (h : Stands L all fb pal db row c r) (hall : all.length < 2 ^ 32)

theorem origin_cap : (h.origin hall).cap = { db.captures with keyqt := all } := by
  have hkeys : all.take row.keyqPos.toNat ++ r.keyQueue.map KeyEvent.row = all := by
    rw [h.keys, List.take_append_drop]
  change captures L c r (all.take row.keyqPos.toNat) = ⟨_, _, _⟩
  rw [captures, hkeys, ← h.ramt, ← h.decoded]
  rfl

theorem origin_acc : (h.origin hall).acc =
    initAcc row.pc row.regs .empty row.icount row.keyqPos := by
  have hpos : BitVec.ofNat 32 (all.take row.keyqPos.toNat).length = row.keyqPos := by
    rw [List.length_take, Nat.min_eq_left h.keyqPos_le, BitVec.ofNat_toNat, BitVec.setWidth_eq]
  change startAcc c (all.take row.keyqPos.toNat) 0 = _
  rw [startAcc, hpos, h.pc, h.regs, h.icount]
  rfl

end Stands

/-! ## What the logs of a batch spell -/

namespace Agrees
variable {o : Origin} {acc : Acc} {c : Cpu} {r : Registers} (h : Agrees o acc c r)
include h

theorem overlay_ram {i : Nat} (hi : i < o.layout.ramWords) :
    (acc.wl.overlay (BitVec.ofNat 32 i)).getD (wordAt o.cpu.memory.ram i) = wordAt c.memory.ram i := by
  have hlt := o.layout.ramWords_lt
  have hto : (BitVec.ofNat 32 i).toNat = i := by
    rw [BitVec.toNat_ofNat]
    omega
  rw [← h.ram i hi, Lanes.lookupWord_eq, hto, arrayElement_succ, ramt_getD o hi]

theorem overlay_framebuffer {i : Nat} (hi : i < 16000) :
    (acc.fbWl.overlay (BitVec.ofNat 32 i)).getD (wordAt o.cpu.memory.framebuffer i) =
      wordAt c.memory.framebuffer i := by
  rw [← h.framebuffer i hi, Lanes.lookupWord_eq,
    ← lookupWord_wordsOf (length_framebuffer o.fits) (by omega) hi, Lanes.lookupWord_empty]

theorem overlay_palette {i : Nat} (hi : i < 192) :
    (acc.palWl.overlay (BitVec.ofNat 32 i)).getD (wordAt o.cpu.memory.palette i) =
      wordAt c.memory.palette i := by
  rw [← h.palette i hi, Lanes.lookupWord_eq,
    ← lookupWord_wordsOf (length_palette o.fits) (by omega) hi, Lanes.lookupWord_empty]

end Agrees

/-- The decode table depends on the text alone, and no step changes the text. -/
theorem Agrees.decoded {o : Origin} {acc : Acc} {c : Cpu} {r : Registers} (h : Agrees o acc c r) :
    decodeSql ramBaseWord (ramBaseWord + BitVec.ofNat 32 o.layout.textWords) (ramTable o.layout c) =
      decodeSql ramBaseWord (ramBaseWord + BitVec.ofNat 32 o.layout.textWords)
        (ramTable o.layout o.cpu) := by
  rw [decodeSql, decodeSql, filter_ramTable, filter_ramTable, List.map_map, List.map_map]
  apply List.map_congr_left
  intro i hi
  rw [List.mem_range] at hi
  simp only [Function.comp_apply, h.text i hi]


/-! ## One batch -/

/-- The row of an accumulator. -/
def Acc.row (acc : Acc) (batchId : Nat) : CommitRow where
  batchId := batchId
  icount := acc.icount
  pc := acc.pc
  regs := acc.regs
  halted := acc.control.halted
  haltReason := haltReasonTransform acc.control.haltReason
  exitCode := if acc.control.haltReason = haltExit then acc.control.haltExtra else 0
  keyqPos := acc.mmio.keyqPos
  hasFrame := acc.mmio.frameCommitted
  frameNo := acc.mmio.frameNo
  wl := acc.wl
  fbWl := acc.fbWl
  palWl := acc.palWl
  consoleBytes := acc.mmio.consoleBytes
  cp := acc.cp

/-- Whether the key rows that are there when a batch starts are all that its
machine reads, out of `all`. -/
def Fed (all present : List (BitVec 16)) (c : Cpu) : Prop :=
  present <+: all ∧
    ∀ r, c.memory.devices = .registers r → all.length ≤ present.length + r.keyQueue.length

namespace Stands
variable {L : Layout} {all : List (BitVec 16)} {fb pal : Nat → Prop} {db : Database}
  {row : CommitRow} {c : Cpu} {r : Registers} (h : Stands L all fb pal db row c r)
  (hall : all.length < 2 ^ 32)

/-- The accumulator a batch leaves. -/
def acc (h : Stands L all fb pal db row c r) (hall : all.length < 2 ^ 32) (b : BatchSpec) : Acc :=
  foldBatch .baseline (L.args b.hwm) (h.origin hall).cap b.k.toNat (h.origin hall).acc

variable (b : BatchSpec) (hpixels : ∀ d, c.Reaches d → ¬d.LoadsPixels)
  (hfed : Fed all (db.inputQueue ++ b.keys) (c.runBatch b.hwm.toNat b.k.toNat 0).cpu)

/-- The batch commits the row of its accumulator, whichever of the later keys have
arrived. -/
theorem batch_eq {r' : Registers} (hrun : RunAgrees (h.origin hall) (h.origin hall).acc
      (h.acc hall b) c (c.runBatch b.hwm.toNat b.k.toNat 0) r')
    (hfed : Fed all (db.inputQueue ++ b.keys) (c.runBatch b.hwm.toNat b.k.toNat 0).cpu) :
    ({ db with inputQueue := db.inputQueue ++ b.keys } : Database).batch (L.args b.hwm) b.k.toNat =
      { db with
        inputQueue := db.inputQueue ++ b.keys
        batchCommit := db.batchCommit ++ [(h.acc hall b).row (row.batchId + 1)] } := by
  have hlatest : ({ db with inputQueue := db.inputQueue ++ b.keys } : Database).latest = some row :=
    h.latest
  have hconsumed := hrun.agrees.keys_consumed
  have hpos : (h.acc hall b).mmio.keyqPos.toNat ≤ (db.inputQueue ++ b.keys).length := by
    have hleft := hfed.2 r' hrun.agrees.fits.devices
    have hlen := congrArg List.length h.keys
    have hle := h.keyqPos_le
    rw [List.length_map, List.length_drop] at hlen
    change _ = (all.take row.keyqPos.toNat).length + r.keyQueue.length at hconsumed
    rw [List.length_take] at hconsumed
    omega
  have hfold : foldBatch .baseline (L.args b.hwm)
      ({ db with inputQueue := db.inputQueue ++ b.keys } : Database).captures b.k.toNat
        (initAcc row.pc row.regs .empty row.icount row.keyqPos) = h.acc hall b := by
    have hcap := h.origin_cap hall
    have hkeyqt : (h.origin hall).cap.keyqt = all := by rw [hcap]
    have hpresent : ({ db with inputQueue := db.inputQueue ++ b.keys } : Database).captures =
        { (h.origin hall).cap with keyqt := db.inputQueue ++ b.keys } := by
      rw [hcap]
      rfl
    rw [hpresent, ← h.origin_acc hall, foldBatch, arrayFold, Stands.acc, foldBatch, arrayFold]
    exact foldl_present (by rw [hkeyqt]; exact hfed.1) (by rw [hkeyqt]; exact hall) _ _ hpos
  rw [Database.batch, hlatest]
  change ({ db with inputQueue := _, batchCommit := db.batchCommit ++ [Database.batchRow _ _ _ row] } :
    Database) = _
  rw [Database.batchRow, hfold]
  rfl

theorem frames_eq {L : Layout} {c : Cpu} {r : Registers} (h : c.Fits L r) :
    c.frames = r.frameCommits := by
  rw [Cpu.frames, h.devices]
  rfl

include h in
theorem lt_next : ∀ s ∈ db.batchCommit, s.batchId < row.batchId + 1 :=
  fun s hs => Nat.lt_succ_of_le (h.newest s hs)

theorem wl_lt : ∀ a ∈ (h.acc hall b).wl.addr, a.toNat < L.ramWords := by
  have hto : (L.args b.hwm).ramWords.toNat = L.ramWords := L.toNat_ramWords
  have hinit : ∀ a ∈ (h.origin hall).acc.wl.addr, a.toNat < (L.args b.hwm).ramWords.toNat :=
    fun a ha => absurd ha List.not_mem_nil
  rw [← hto]
  refine foldBatch_wl_lt b.k.toNat ?_ hinit
  rw [hto]
  exact lt_of_lt_of_le L.text_pos L.text_le

theorem consoleBytes_lt : (h.acc hall b).mmio.consoleBytes.length < 2 ^ 32 := by
  have hlen : (h.acc hall b).mmio.consoleBytes.length ≤ 0 + b.k.toNat :=
    foldBatch_console_le b.k.toNat
  have hk := b.k.isLt
  omega

section
variable {r' : Registers} (hrun : RunAgrees (h.origin hall) (h.origin hall).acc (h.acc hall b) c
  (c.runBatch b.hwm.toNat b.k.toNat 0) r')
include hrun

/-- The database after the batch and what its flush inserts. -/
theorem advance_eq
    (hfed : Fed all (db.inputQueue ++ b.keys) (c.runBatch b.hwm.toNat b.k.toNat 0).cpu) :
    let row' := (h.acc hall b).row (row.batchId + 1)
    db.advance L b =
      { db with
        inputQueue := db.inputQueue ++ b.keys
        batchCommit := db.batchCommit ++ [row']
        ram := db.ram ++ row'.wl.rows ramBaseWord.toNat
        framebuffer := db.framebuffer ++ row'.fbWl.rows 0
        palette := db.palette ++ row'.palWl.rows 0
        consoleOut := db.consoleOut ++ consoleRows row'.batchId row'.consoleBytes
        cpuState := db.cpuState ++ [⟨row'.batchId, row'.cpu, 0⟩] } := by
  intro row'
  have hold : ∀ s ∈ db.batchCommit, s.batchId < row'.batchId := h.lt_next
  have hbatch := h.batch_eq hall b hrun hfed
  change _ = Database.mk (db.batchCommit ++ [row']) _ _ _ _ _ _ _ _ at hbatch
  -- of the row only its number matters from here on
  clear_value row'
  have hlatest := Database.latest_append { db with inputQueue := db.inputQueue ++ b.keys } row'
    fun s hs => (hold s hs).le
  have hrows := Database.rowsOf_append { db with inputQueue := db.inputQueue ++ b.keys } hold
  rw [Database.advance, hbatch]
  simp only [hlatest]
  rw [Database.flush_eq, hrows]
  simp

theorem ram_next : Spells (db.ram ++ (h.acc hall b).wl.rows ramBaseWord.toNat)
    ramBaseWord.toNat L.ramWords (c.runBatch b.hwm.toNat b.k.toNat 0).cpu.icount
    (wordAt (c.runBatch b.hwm.toNat b.k.toNat 0).cpu.memory.ram) (· < L.ramWords) := by
  have hwords := L.ramWords_lt
  have hflush := h.ram.flush (by omega) (l := (h.acc hall b).wl) hrun.agrees.wl hrun.icount_le
  refine hflush.congr (fun i hi => hrun.agrees.overlay_ram hi) fun i => ?_
  constructor
  · rintro (hi | ⟨a, ha, rfl⟩)
    · exact hi
    · exact h.wl_lt hall b a ha
  · exact Or.inl

theorem framebuffer_next : Spells (db.framebuffer ++ (h.acc hall b).fbWl.rows 0) 0 16000
    (c.runBatch b.hwm.toNat b.k.toNat 0).cpu.icount
    (wordAt (c.runBatch b.hwm.toNat b.k.toNat 0).cpu.memory.framebuffer)
    (fun i => fb i ∨ ∃ a ∈ c.touched .framebuffer
      ((c.runBatch b.hwm.toNat b.k.toNat 0).cpu.icount - c.icount), i = a.toNat) := by
  have hflush := h.framebuffer.flush (by omega) (l := (h.acc hall b).fbWl) hrun.agrees.fbWl
    hrun.icount_le
  refine hflush.congr (fun i hi => hrun.agrees.overlay_framebuffer hi) fun i => ?_
  rw [hrun.framebuffer]
  rfl

theorem palette_next : Spells (db.palette ++ (h.acc hall b).palWl.rows 0) 0 192
    (c.runBatch b.hwm.toNat b.k.toNat 0).cpu.icount
    (wordAt (c.runBatch b.hwm.toNat b.k.toNat 0).cpu.memory.palette)
    (fun i => pal i ∨ ∃ a ∈ c.touched .palette
      ((c.runBatch b.hwm.toNat b.k.toNat 0).cpu.icount - c.icount), i = a.toNat) := by
  have hflush := h.palette.flush (by omega) (l := (h.acc hall b).palWl) hrun.agrees.palWl
    hrun.icount_le
  refine hflush.congr (fun i hi => hrun.agrees.overlay_palette hi) fun i => ?_
  rw [hrun.palette]
  rfl

theorem console_next : (Table.readFinal (db.consoleOut ++
    consoleRows (row.batchId + 1) (h.acc hall b).mmio.consoleBytes)).map (·.2) = r'.console := by
  rw [Table.readFinal_append, List.map_append, readFinal_consoleRows, h.console]
  · exact hrun.agrees.console.symm
  · intro s hs t ht
    exact lt_of_lt_of_le (h.consoleKeys s hs) (key_consoleRows ht).1

/-- A batch commits one frame at most, and its row announces it. -/
theorem frames_next : ((db.batchCommit ++ [(h.acc hall b).row (row.batchId + 1)]).filter
    (·.hasFrame = 1)).map (·.frameNo) = r'.frameCommits.map (·.frameNo) := by
  obtain ⟨commits, hcommits, hno, hcommitted⟩ := hrun.agrees.frames
  change r'.frameCommits = r.frameCommits ++ commits at hcommits
  have hone := hrun.commits
  rw [frames_eq hrun.agrees.fits, frames_eq h.fits, hcommits] at hone
  have hnew : ((h.acc hall b).row (row.batchId + 1)).hasFrame = (if commits = [] then 0 else 1) ∧
      ((h.acc hall b).row (row.batchId + 1)).frameNo =
        (commits.getLast?.map (·.frameNo)).getD 0 := ⟨hcommitted, hno⟩
  rw [hcommits, List.filter_append, List.map_append, h.frames, List.map_append]
  congr 1
  rcases hone with hnone | ⟨commit, hcommit⟩
  · obtain rfl : commits = [] := by simpa using hnone
    simp [hnew.1]
  · obtain rfl : commits = [commit] := by simpa using hcommit
    simp [hnew.1, hnew.2]

end

include hpixels hfed in
/-- A batch and its flush take the database from the machine to the machine the
batch leaves. -/
theorem advance :
    ∃ r', RunAgrees (h.origin hall) (h.origin hall).acc (h.acc hall b) c
        (c.runBatch b.hwm.toNat b.k.toNat 0) r' ∧
      (db.advance L b).batchCommit = db.batchCommit ++ [(h.acc hall b).row (row.batchId + 1)] ∧
      Stands L all
        (fun i => fb i ∨ ∃ a ∈ c.touched .framebuffer
          ((c.runBatch b.hwm.toNat b.k.toNat 0).cpu.icount - c.icount), i = a.toNat)
        (fun i => pal i ∨ ∃ a ∈ c.touched .palette
          ((c.runBatch b.hwm.toNat b.k.toNat 0).cpu.icount - c.icount), i = a.toNat)
        (db.advance L b) ((h.acc hall b).row (row.batchId + 1))
        (c.runBatch b.hwm.toNat b.k.toNat 0).cpu r' := by
  obtain ⟨r', hrun⟩ := foldBatch_agrees (h.origin hall) b.hwm b.k hpixels
  change RunAgrees (h.origin hall) (h.origin hall).acc (h.acc hall b) c
    (c.runBatch b.hwm.toNat b.k.toNat 0) r' at hrun
  have hagrees := hrun.agrees
  have hdb := h.advance_eq hall b hrun hfed
  have hcap := h.origin_cap hall
  refine ⟨r', hrun, by rw [hdb], ?_⟩
  rw [hdb]
  exact
    { fits := hagrees.fits
      latest := Database.latest_append _ _ fun s hs => (h.lt_next s hs).le
      newest := by
        intro s hs
        rcases List.mem_append.mp hs with hs | hs
        · exact (h.lt_next s hs).le
        · rw [List.mem_singleton.mp hs]
      pc := hagrees.pc
      regs := hagrees.regs
      icount := hagrees.icount
      keyqPos_le := by
        have hpos := hagrees.keyqPos_le
        rwa [hcap] at hpos
      keys := by
        have hkeys := hagrees.keys
        rwa [hcap] at hkeys
      decoded := by
        have hdec := hagrees.decoded
        change decodeSql _ (_ + BitVec.ofNat 32 L.textWords) (ramTable L _) =
          decodeSql _ (_ + BitVec.ofNat 32 L.textWords) (ramTable L c) at hdec
        rw [hdec]
        exact h.decoded
      ram := h.ram_next hall b hrun
      framebuffer := h.framebuffer_next hall b hrun
      palette := h.palette_next hall b hrun
      console := h.console_next hall b hrun
      consoleKeys := by
        intro s hs
        change s.key < (row.batchId + 1 + 1) * 2 ^ 32
        rcases List.mem_append.mp hs with hs | hs
        · exact (h.consoleKeys s hs).trans_le (Nat.mul_le_mul_right _ (by omega))
        · have hlt := (key_consoleRows hs).2
          rw [Nat.succ_mul]
          exact hlt.trans (Nat.add_lt_add_left (h.consoleBytes_lt hall b) _)
      cpu := by
        rw [Table.final_append_singleton, if_pos rfl]
        intro s hs hkey
        have := h.cpuKeys s hs
        have hkey' : s.key = row.batchId + 1 := hkey
        omega
      cpuKeys := by
        intro s hs
        change s.key ≤ row.batchId + 1
        rcases List.mem_append.mp hs with hs | hs
        · exact (h.cpuKeys s hs).trans (Nat.le_succ _)
        · rw [List.mem_singleton.mp hs]
          exact le_rfl
      frames := h.frames_next hall b hrun }

end Stands

/-! ## A whole run -/

/-- Every batch of a run finds the keys it reads: `queue` are the rows that are
there before it. -/
def FedRun (all : List (BitVec 16)) : List (BitVec 16) → Cpu → List BatchSpec → Prop
  | _, _, [] => True
  | queue, c, b :: bs =>
    Fed all (queue ++ b.keys) (c.runBatch b.hwm.toNat b.k.toNat 0).cpu ∧
      FedRun all (queue ++ b.keys) (c.runBatch b.hwm.toNat b.k.toNat 0).cpu bs

/-- The machine a run of batches leaves. -/
def Cpu.runBatches (c : Cpu) (bs : List BatchSpec) : Cpu :=
  bs.foldl (fun c b => (c.runBatch b.hwm.toNat b.k.toNat 0).cpu) c

/-- The words of a region with rows of their own, once the machine has come from
`c` to `d`. -/
def Stored (present : Nat → Prop) (region : Region) (c d : Cpu) (i : Nat) : Prop :=
  present i ∨ ∃ a ∈ c.touched region (d.icount - c.icount), i = a.toNat

theorem stored_trans {present : Nat → Prop} {region : Region} {c d e : Cpu} (hcd : c.Reaches d)
    (hde : d.Reaches e) (i : Nat) :
    Stored (Stored present region c d) region d e i ↔ Stored present region c e i := by
  have hle := hcd.icount_le
  have hle' := hde.icount_le
  have hsub : e.icount - c.icount = d.icount - c.icount + (e.icount - d.icount) := by omega
  have htouched := hcd.touched region (e.icount - d.icount)
  rw [← hsub] at htouched
  simp only [Stored, htouched, List.mem_append, or_and_right, exists_or, or_assoc]

namespace Stands
variable {L : Layout} {all : List (BitVec 16)} {fb pal : Nat → Prop} {db : Database}
  {row : CommitRow} {c : Cpu} {r : Registers}

/-- What a run leaves stands for the machine its batches have reached. -/
theorem run (h : Stands L all fb pal db row c r) (hall : all.length < 2 ^ 32)
    (bs : List BatchSpec) (hpixels : ∀ d, c.Reaches d → ¬d.LoadsPixels)
    (hfed : FedRun all db.inputQueue c bs) :
    ∃ row' r', c.Reaches (c.runBatches bs) ∧
      (db.run L bs).inputQueue = db.inputQueue ++ bs.flatMap (·.keys) ∧
      Stands L all (Stored fb .framebuffer c (c.runBatches bs))
        (Stored pal .palette c (c.runBatches bs)) (db.run L bs) row' (c.runBatches bs) r' := by
  induction bs generalizing db row c r fb pal with
  | nil =>
    refine ⟨row, r, .refl, (List.append_nil _).symm, { h with
      framebuffer := h.framebuffer.congr (fun _ _ => rfl) ?_
      palette := h.palette.congr (fun _ _ => rfl) ?_ }⟩ <;>
    · intro i
      simp [Stored, Cpu.touched, Cpu.runBatches]
  | cons b bs ih =>
    obtain ⟨hfed, hrest⟩ := hfed
    obtain ⟨r₁, hrun, -, hstands⟩ := h.advance hall b hpixels hfed
    have hreach := hrun.reaches
    have hqueue : (db.advance L b).inputQueue = db.inputQueue ++ b.keys := by
      rw [Database.advance, h.batch_eq hall b hrun hfed]
      split <;> rfl
    rw [← hqueue] at hrest
    obtain ⟨row', r', hd, hkeys, hfinal⟩ := ih hstands
      (fun d hd => hpixels d (hreach.trans hd)) hrest
    refine ⟨row', r', hreach.trans hd, ?_, { hfinal with
      framebuffer := hfinal.framebuffer.congr (fun _ _ => rfl) ?_
      palette := hfinal.palette.congr (fun _ _ => rfl) ?_ }⟩
    · rw [hqueue] at hkeys
      rw [List.flatMap_cons, ← List.append_assoc, ← hkeys]
      rfl
    · exact stored_trans hreach hd
    · exact stored_trans hreach hd

end Stands

/-! ## A fresh run -/

/-- The row a run of the machine starts from: the seed of the reset state, at the
machine's own count and program counter. -/
def Cpu.seedRow (c : Cpu) : CommitRow :=
  { Database.seedRow c.regFile with icount := c.icount, pc := c.pc }

/-- The database of a machine before its first batch, with nothing drawn: the image
in `ram`, its decode table, and the seed row flushed. -/
def Database.loaded (L : Layout) (c : Cpu) : Database where
  batchCommit := [c.seedRow]
  ram := (List.range L.ramWords).map fun i => ⟨ramBaseWord.toNat + i, wordAt c.memory.ram i, 0⟩
  framebuffer := []
  palette := []
  consoleOut := []
  cpuState := [⟨0, c.seedRow.cpu, 0⟩]
  framesOut := []
  inputQueue := []
  decoded := (decodeSql ramBaseWord (ramBaseWord + BitVec.ofNat 32 L.textWords)
    (ramTable L c)).map (·.dec)

theorem wordAt_replicate (n i : Nat) : wordAt (List.replicate n 0) i = 0 := by
  have hzero : ∀ j, (List.replicate n (0 : Byte)).getD j 0 = 0 := by
    intro j
    rw [List.getD_eq_getElem?_getD, List.getElem?_replicate]
    split <;> rfl
  rw [wordAt, hzero, hzero, hzero, hzero]
  rfl

theorem stands_loaded {L : Layout} {c : Cpu} {r : Registers} (hfits : c.Fits L r)
    (hfb : c.memory.framebuffer = List.replicate 64000 0)
    (hpal : c.memory.palette = List.replicate 768 0) (hconsole : r.console = [])
    (hframes : r.frameCommits = []) :
    Stands L (r.keyQueue.map KeyEvent.row) (fun _ => False) (fun _ => False) (.loaded L c)
      c.seedRow c r where
  fits := hfits
  latest := rfl
  newest s hs := by rw [List.mem_singleton.mp hs]
  pc := rfl
  regs := rfl
  icount := rfl
  keyqPos_le := Nat.zero_le _
  keys := rfl
  decoded := rfl
  ram := by
    have hmem : ∀ s, s ∈ (Database.loaded L c).ram ↔ ∃ i < L.ramWords,
        s = ⟨ramBaseWord.toNat + i, wordAt c.memory.ram i, 0⟩ := by
      intro s
      simp only [Database.loaded, List.mem_map, List.mem_range, eq_comm]
    refine ⟨?_, ?_, ?_⟩
    · intro s hs
      obtain ⟨i, -, rfl⟩ := (hmem s).mp hs
      exact Nat.zero_le _
    · intro i hi
      have hrow := Table.final_of_unique ((hmem _).mpr ⟨i, hi, rfl⟩) ?_
      · rw [hrow]
        rfl
      · intro s hs hkey
        obtain ⟨j, -, rfl⟩ := (hmem s).mp hs
        obtain rfl : j = i := Nat.add_left_cancel hkey
        rfl
    · intro k
      constructor
      · rintro ⟨s, hs, rfl⟩
        obtain ⟨i, hi, rfl⟩ := (hmem s).mp hs
        exact ⟨i, hi, rfl⟩
      · rintro ⟨i, hi, rfl⟩
        exact ⟨_, (hmem _).mpr ⟨i, hi, rfl⟩, rfl⟩
  framebuffer := by
    refine ⟨fun s hs => absurd hs List.not_mem_nil, fun i _ => ?_, by simp [Database.loaded]⟩
    rw [hfb, wordAt_replicate]
    rfl
  palette := by
    refine ⟨fun s hs => absurd hs List.not_mem_nil, fun i _ => ?_, by simp [Database.loaded]⟩
    rw [hpal, wordAt_replicate]
    rfl
  console := by simp [hconsole, Database.loaded, Table.readFinal, Table.keys]
  consoleKeys s hs := absurd hs List.not_mem_nil
  cpu := rfl
  cpuKeys s hs := by
    rw [List.mem_singleton.mp hs]
    exact Nat.le_refl _
  frames := by
    rw [hframes]
    rfl

/-! ## Where the batches are cut makes no difference -/

/-- What the tables show of a machine: its committed state, its memory read
`FINAL`, its console and the frames announced. -/
structure Database.Shows (db : Database) (L : Layout) (all : List (BitVec 16)) (row : CommitRow)
    (d : Cpu) : Prop where
  pc : row.pc = d.pc
  regs : row.regs = d.regFile
  icount : row.icount = d.icount
  cpu : Table.final db.cpuState row.batchId = some row.cpu
  ram : ∀ i < L.ramWords, (Table.final db.ram (ramBaseWord.toNat + i)).getD 0 = wordAt d.memory.ram i
  framebuffer : ∀ i < 16000, (Table.final db.framebuffer i).getD 0 = wordAt d.memory.framebuffer i
  palette : ∀ i < 192, (Table.final db.palette i).getD 0 = wordAt d.memory.palette i
  devices : ∃ r, d.memory.devices = .registers r ∧
    row.keyqPos.toNat + r.keyQueue.length = all.length ∧
    (Table.readFinal db.consoleOut).map (·.2) = r.console ∧
    (db.batchCommit.filter (·.hasFrame = 1)).map (·.frameNo) = r.frameCommits.map (·.frameNo)

theorem Stands.shows {L : Layout} {all : List (BitVec 16)} {fb pal : Nat → Prop} {db : Database}
    {row : CommitRow} {c : Cpu} {r : Registers} (h : Stands L all fb pal db row c r) :
    db.Shows L all row c where
  pc := h.pc
  regs := h.regs
  icount := h.icount
  cpu := h.cpu
  ram := h.ram.words
  framebuffer i hi := by
    have := h.framebuffer.words i hi
    rwa [Nat.zero_add] at this
  palette i hi := by
    have := h.palette.words i hi
    rwa [Nat.zero_add] at this
  devices := by
    have hlen := congrArg List.length h.keys
    have hle := h.keyqPos_le
    rw [List.length_map, List.length_drop] at hlen
    exact ⟨r, h.fits.devices, by omega, h.console, h.frames⟩

/-- Two runs from one database that have come equally far show the same: the
machine the reference emulator has after as many instructions.  The frame number
of the latest row is its own batch's and no part of this; the frames announced
are. -/
theorem run_split_invariant {L : Layout} {all : List (BitVec 16)} {fb pal : Nat → Prop}
    {db : Database} {row : CommitRow} {c : Cpu} {r : Registers}
    (h : Stands L all fb pal db row c r) (hall : all.length < 2 ^ 32)
    (hfb : ∀ i, fb i → i < 16000) (hpal : ∀ i, pal i → i < 192)
    (hpixels : ∀ d, c.Reaches d → ¬d.LoadsPixels) {bs bs' : List BatchSpec}
    (hfed : FedRun all db.inputQueue c bs) (hfed' : FedRun all db.inputQueue c bs')
    {row₁ row₂ : CommitRow} (hlatest : (db.run L bs).latest = some row₁)
    (hlatest' : (db.run L bs').latest = some row₂) (hcount : row₁.icount = row₂.icount) :
    (db.run L bs).Shows L all row₁ (c.after (row₁.icount - c.icount)) ∧
      (db.run L bs').Shows L all row₂ (c.after (row₁.icount - c.icount)) ∧
      row₁.keyqPos = row₂.keyqPos ∧
      (∀ k, Table.final (db.run L bs).ram k = Table.final (db.run L bs').ram k) ∧
      (∀ k, Table.final (db.run L bs).framebuffer k = Table.final (db.run L bs').framebuffer k) ∧
      (∀ k, Table.final (db.run L bs).palette k = Table.final (db.run L bs').palette k) ∧
      (Table.readFinal (db.run L bs).consoleOut).map (·.2) =
        (Table.readFinal (db.run L bs').consoleOut).map (·.2) := by
  obtain ⟨s₁, r₁, hd, -, h₁⟩ := h.run hall bs hpixels hfed
  obtain ⟨s₂, r₂, hd', -, h₂⟩ := h.run hall bs' hpixels hfed'
  obtain rfl : s₁ = row₁ := Option.some.inj (h₁.latest.symm.trans hlatest)
  obtain rfl : s₂ = row₂ := Option.some.inj (h₂.latest.symm.trans hlatest')
  generalize c.runBatches bs = d at hd h₁
  generalize c.runBatches bs' = d' at hd' h₂
  obtain rfl : d = d' := by
    refine hd.unique hd' ?_
    rw [← h₁.icount, hcount, h₂.icount]
  have hat : c.after (s₁.icount - c.icount) = d := by
    rw [h₁.icount]
    exact hd.after.symm
  have hmap : c.memory.map = L.map := h.fits.map
  have hbound : ∀ {present : Nat → Prop} {region : Region} {n : Nat}, (∀ i, present i → i < n) →
      (L.map.bounds region).2.toNat ≤ 4 * n → ∀ i, Stored present region c d i → i < n := by
    rintro present region n hp hn i (hi | ⟨a, ha, rfl⟩)
    · exact hp i hi
    · exact Cpu.touched_lt hmap hn _ a ha
  have hr : r₁ = r₂ := Devices.registers.inj (h₁.fits.devices.symm.trans h₂.fits.devices)
  rw [hat]
  refine ⟨h₁.shows, h₂.shows, ?_, h₁.ram.final_eq h₂.ram (fun _ => id),
    h₁.framebuffer.final_eq h₂.framebuffer (hbound hfb (Nat.le_refl 64000)),
    h₁.palette.final_eq h₂.palette (hbound hpal (Nat.le_refl 768)), ?_⟩
  · have hlen := congrArg List.length h₁.keys
    have hlen' := congrArg List.length h₂.keys
    have hle := h₁.keyqPos_le
    have hle' := h₂.keyqPos_le
    rw [List.length_map, List.length_drop] at hlen hlen'
    apply BitVec.eq_of_toNat_eq
    rw [hr] at hlen
    omega
  · rw [h₁.console, h₂.console, hr]

/-! ### A program that announces a frame -/

/-- Four words of RAM, all of them text. -/
def Layout.text4 : Layout where
  ramWords := 4
  textWords := 4
  ipms := 1
  text_pos := by decide
  text_le := by decide
  ram_lt := ram_lt_four
  ipms_ne_zero := one_ipms_ne_zero

/-- `lui x1, 0x10000`, `addi x2, x0, 7`, `sw x2, 16(x1)` and `addi x3, x0, 1`:
the third announces frame 7. -/
def Cpu.announces : Cpu :=
  .new (((Memory.new Layout.text4.map (.registers (.new 1 one_ipms_ne_zero))).loadImage
    [0xB7, 0x00, 0x00, 0x10, 0x13, 0x01, 0x70, 0x00, 0x23, 0xA8, 0x20, 0x00, 0x93, 0x01, 0x10, 0x00]
    ramBase).2.setTextRegion (some (ramBase, Layout.text4.textStop))) ramBase

theorem announces_fits : Cpu.announces.Fits .text4 (.new 1 (by decide)) where
  map := rfl
  text := rfl
  devices := rfl
  ipms := rfl
  fresh := Cpu.cacheFresh_of_none rfl
  aligned := rfl

theorem announces_stands : Stands .text4 [] (fun _ => False) (fun _ => False)
    (.loaded .text4 .announces) Cpu.announces.seedRow .announces (.new 1 (by decide)) :=
  stands_loaded announces_fits rfl rfl rfl rfl

theorem announces_never_loads (d : Cpu) (hd : Cpu.announces.Reaches d) : ¬d.LoadsPixels :=
  announces_fits.never_loadsPixels (by decide) d hd

/-- Without key rows there are none to miss. -/
theorem fedRun_nil (c : Cpu) (bs : List BatchSpec) (h : ∀ b ∈ bs, b.keys = []) :
    FedRun [] [] c bs := by
  induction bs generalizing c with
  | nil => trivial
  | cons b bs ih =>
    have hb := h b List.mem_cons_self
    refine ⟨⟨by rw [hb]; exact List.nil_prefix, fun _ _ => Nat.zero_le _⟩, ?_⟩
    rw [hb]
    exact ih _ fun b hb => h b (List.mem_cons_of_mem _ hb)

/-- Cut after the frame, or between every two instructions. -/
theorem run_split_invariant_announces :
    ∃ row₁ row₂, ((Database.loaded .text4 .announces).run .text4 [⟨3, 8, []⟩, ⟨1, 8, []⟩]).latest =
        some row₁ ∧
      ((Database.loaded .text4 .announces).run .text4
        [⟨1, 8, []⟩, ⟨1, 8, []⟩, ⟨1, 8, []⟩, ⟨1, 8, []⟩]).latest = some row₂ ∧
      row₁.icount = row₂.icount ∧ row₁.keyqPos = row₂.keyqPos := by
  have hfed := fedRun_nil .announces [⟨3, 8, []⟩, ⟨1, 8, []⟩] (by simp)
  have hfed' := fedRun_nil .announces [⟨1, 8, []⟩, ⟨1, 8, []⟩, ⟨1, 8, []⟩, ⟨1, 8, []⟩] (by simp)
  obtain ⟨row₁, r₁, -, -, h₁⟩ := announces_stands.run (by decide) _ announces_never_loads hfed
  obtain ⟨row₂, r₂, -, -, h₂⟩ := announces_stands.run (by decide) _ announces_never_loads hfed'
  have hcount : row₁.icount = row₂.icount := by
    rw [h₁.icount, h₂.icount]
    rfl
  exact ⟨row₁, row₂, h₁.latest, h₂.latest, hcount,
    (run_split_invariant announces_stands (by decide) (fun _ => False.elim) (fun _ => False.elim)
      announces_never_loads hfed hfed' h₁.latest h₂.latest hcount).2.2.1⟩

/-- The latest row's frame number is not the machine's: after the batch that
announced frame 7 the next one commits frame number zero. -/
theorem frameNo_not_carried :
    ∃ row, ((Database.loaded .text4 .announces).run .text4 [⟨3, 8, []⟩, ⟨1, 8, []⟩]).latest =
        some row ∧
      row.icount = 4 ∧ row.frameNo = 0 ∧
      (Cpu.announces.after 4).frames = [⟨7, 2⟩] := by
  have hfed := fedRun_nil .announces [⟨3, 8, []⟩] (by simp)
  obtain ⟨row₁, r₁, hreach, hqueue, h₁⟩ := announces_stands.run (by decide) [⟨3, 8, []⟩]
    announces_never_loads hfed
  obtain ⟨r₂, hrun₂, -, h₂⟩ := h₁.advance (by decide) ⟨1, 8, []⟩
    (fun d hd => announces_never_loads d (hreach.trans hd))
    ⟨by rw [hqueue]; exact List.nil_prefix, fun _ _ => Nat.zero_le _⟩
  refine ⟨_, h₂.latest, ?_, ?_, rfl⟩
  · rw [h₂.icount]
    rfl
  · -- the second batch announces nothing
    obtain ⟨commits, hcommits, hno, -⟩ := hrun₂.agrees.frames
    have hframes₁ : r₁.frameCommits = [⟨7, 2⟩] := (Stands.frames_eq h₁.fits).symm.trans rfl
    have hframes₂ : r₂.frameCommits = [⟨7, 2⟩] := (Stands.frames_eq h₂.fits).symm.trans rfl
    change r₂.frameCommits = r₁.frameCommits ++ commits at hcommits
    rw [hframes₁, hframes₂] at hcommits
    obtain rfl : commits = [] := by simpa using hcommits
    exact hno

end ClickDoom
