import ClickDoom.Base.Table
import ClickDoom.Executor.Agreement

/-! # The database of a run

The tables of `sqlcpu/schema.sql` and the statements of a batch: the insert of
`fold::batch`, the flushes and the retention of `executor/src/commit.rs`, the
readout of `driver/src/render.rs` and the seed of `driver/src/emulation/bootstrap.rs`.
A statement is a function of the database, and each flush names the batch it acts
on.

`batch_commit` and `frames_out` are lists of rows in the order they were inserted.
`ram`, `framebuffer`, `palette`, `console_out` and `cpu_state` replace rows; the
last two have no version column.  Counts and batch numbers are unbounded numbers.
-/
namespace ClickDoom
open ClickHouse

/-! ## Rows -/

/-- A row of `batch_commit`. -/
structure CommitRow where
  batchId : Nat
  icount : Nat
  pc : Word
  regs : List Word
  halted : Byte
  haltReason : String
  exitCode : Word
  keyqPos : Word
  hasFrame : Byte
  frameNo : Word
  wl : Lanes
  fbWl : Lanes
  palWl : Lanes
  consoleBytes : List Byte
  cp : Checkpoints
  deriving DecidableEq, Inhabited

/-- A row of `cpu_state`. -/
structure CpuRow where
  batchId : Nat
  icount : Nat
  pc : Word
  regs : List Word
  halted : Byte
  haltReason : String
  exitCode : Word
  deriving DecidableEq, Inhabited

/-- A row of `frames_out`. -/
structure FrameRow where
  frameNo : Word
  committedIcount : Nat
  fb : List Byte
  palette : List Byte
  deriving DecidableEq

structure Database where
  batchCommit : List CommitRow
  ram : List (TableRow Nat Word)
  framebuffer : List (TableRow Nat Word)
  palette : List (TableRow Nat Word)
  consoleOut : List (TableRow Nat Byte)
  cpuState : List (TableRow Nat CpuRow)
  framesOut : List FrameRow
  inputQueue : List (BitVec 16)
  decoded : List DecRow

/-- The name `halt_reason` keeps for a code. -/
def haltReasonTransform (code : Byte) : String :=
  multiIf
    [ (code = haltIllegalInsn, "ILLEGAL_INSN")
    , (code = haltSelfModify, "SELF_MODIFY")
    , (code = haltBadAddr, "BAD_ADDR")
    , (code = haltMisaligned, "MISALIGNED")
    , (code = haltEcall, "ECALL")
    , (code = haltEbreak, "EBREAK")
    , (code = haltCsr, "CSR")
    , (code = haltExit, "EXIT") ]
    ""

/-- The words of a log as rows, `base` added to each address. -/
def Lanes.rows (l : Lanes) (base : Nat) : List (TableRow Nat Word) :=
  (l.addr.zip (l.val.zip l.icount)).map fun (a, v, n) => ⟨base + a.toNat, v, n⟩

/-- The bytes of a batch as rows of `console_out`: the batch number in the high
half of the key, the byte's place in the low half. -/
def consoleRows (batchId : Nat) (consoleBytes : List Byte) : List (TableRow Nat Byte) :=
  consoleBytes.zipIdx.map fun (byte, n) => ⟨batchId * 2 ^ 32 + n, byte, 0⟩

def CommitRow.cpu (row : CommitRow) : CpuRow where
  batchId := row.batchId
  icount := row.icount
  pc := row.pc
  regs := row.regs
  halted := row.halted
  haltReason := row.haltReason
  exitCode := row.exitCode

namespace Database

/-! ## The batch -/

/-- `ORDER BY batch_id DESC LIMIT 1`. -/
def latest (db : Database) : Option CommitRow :=
  db.batchCommit.foldl (fun best row => match best with
    | none => some row
    | some kept => if kept.batchId ≤ row.batchId then some row else some kept) none

/-- The arrays the fold captures. -/
def captures (db : Database) : Captures where
  ramt := (Table.readFinal db.ram).map (·.2)
  dec := db.decoded
  keyqt := db.inputQueue

/-- The row a batch commits after `prev`. -/
def batchRow (db : Database) (p : StepArgs) (k : Nat) (prev : CommitRow) : CommitRow :=
  let r := foldBatch .baseline p db.captures k
    (initAcc prev.pc prev.regs .empty prev.icount prev.keyqPos)
  { batchId := prev.batchId + 1
    icount := r.icount
    pc := r.pc
    regs := r.regs
    halted := r.control.halted
    haltReason := haltReasonTransform r.control.haltReason
    exitCode := if r.control.haltReason = haltExit then r.control.haltExtra else 0
    keyqPos := r.mmio.keyqPos
    hasFrame := r.mmio.frameCommitted
    frameNo := r.mmio.frameNo
    wl := r.wl
    fbWl := r.fbWl
    palWl := r.palWl
    consoleBytes := r.mmio.consoleBytes
    cp := r.cp }

/-- The batch's one write.  Without a row to start from the statement fails, and
writes nothing. -/
def batch (db : Database) (p : StepArgs) (k : Nat) : Database :=
  match db.latest with
  | none => db
  | some prev => { db with batchCommit := db.batchCommit ++ [db.batchRow p k prev] }

/-! ## The flushes -/

/-- The rows of one batch. -/
def rowsOf (db : Database) (batchId : Nat) : List CommitRow :=
  db.batchCommit.filter (·.batchId = batchId)

def ramFlush (batchId : Nat) (db : Database) : Database :=
  { db with ram := db.ram ++ (db.rowsOf batchId).flatMap (·.wl.rows ramBaseWord.toNat) }

def framebufferFlush (batchId : Nat) (db : Database) : Database :=
  { db with framebuffer := db.framebuffer ++ (db.rowsOf batchId).flatMap (·.fbWl.rows 0) }

def paletteFlush (batchId : Nat) (db : Database) : Database :=
  { db with palette := db.palette ++ (db.rowsOf batchId).flatMap (·.palWl.rows 0) }

def consoleOutFlush (batchId : Nat) (db : Database) : Database :=
  { db with
    consoleOut := db.consoleOut ++
      (db.rowsOf batchId).flatMap fun row => consoleRows row.batchId row.consoleBytes }

def cpuStateFlush (batchId : Nat) (db : Database) : Database :=
  { db with
    cpuState := db.cpuState ++ (db.rowsOf batchId).map fun row => ⟨row.batchId, row.cpu, 0⟩ }

/-- The flushes of a batch, in the order the driver runs them. -/
def flush (batchId : Nat) (db : Database) : Database :=
  cpuStateFlush batchId (consoleOutFlush batchId (paletteFlush batchId
    (framebufferFlush batchId (ramFlush batchId db))))

/-! ## Readout, retention and seed -/

/-- The words of a pixel table, zero where nothing was stored. -/
def denseWords (rows : List (TableRow Nat Word)) (n : Nat) : List Word :=
  (List.range n).map fun i => (Table.final rows i).getD 0

def regionBytes (words : List Word) : List Byte := words.flatMap (LittleEndian.bytes · 4)

/-- Reads the batch's frame out of the pixel tables, unless it has none or its
number has been read out. -/
def frameReadout (batchId : Nat) (db : Database) : Database :=
  { db with
    framesOut := db.framesOut ++
      ((db.rowsOf batchId).filter fun row =>
          row.hasFrame = 1 ∧ row.frameNo ∉ db.framesOut.map (·.frameNo)).map fun row =>
        { frameNo := row.frameNo
          committedIcount := row.icount
          fb := regionBytes (denseWords db.framebuffer 16000)
          palette := regionBytes (denseWords db.palette 192) } }

/-- Drops the rows that lag `n` batches behind; the difference does not go below
zero. -/
def retention (batchId n : Nat) (db : Database) : Database :=
  { db with batchCommit := db.batchCommit.filter fun row => ¬row.batchId < batchId - n }

/-- The row of the reset state. -/
def seedRow (regs : List Word) : CommitRow where
  batchId := 0
  icount := 0
  pc := ramBase
  regs := regs
  halted := 0
  haltReason := ""
  exitCode := 0
  keyqPos := 0
  hasFrame := 0
  frameNo := 0
  wl := .empty
  fbWl := .empty
  palWl := .empty
  consoleBytes := []
  cp := ⟨[], [], []⟩

/-- Seeds the reset state, unless a row of batch zero is there. -/
def seed (regs : List Word) (db : Database) : Database :=
  if db.rowsOf 0 = [] then { db with batchCommit := db.batchCommit ++ [seedRow regs] } else db

/-! ## The latest row -/

/-- The row of a list with the greatest batch number, the last of them. -/
def IsLatest (rows : List CommitRow) (row : CommitRow) : Prop :=
  ∃ older newer, rows = older ++ row :: newer ∧ (∀ s ∈ older, s.batchId ≤ row.batchId) ∧
    ∀ s ∈ newer, s.batchId < row.batchId

theorem IsLatest.le {rows : List CommitRow} {row : CommitRow} (h : IsLatest rows row) :
    ∀ s ∈ rows, s.batchId ≤ row.batchId := by
  obtain ⟨older, newer, rfl, hold, hnew⟩ := h
  intro s hs
  rcases List.mem_append.mp hs with hs | hs
  · exact hold s hs
  · rcases List.mem_cons.mp hs with rfl | hs
    · exact Nat.le_refl _
    · exact (hnew s hs).le

theorem IsLatest.mem {rows : List CommitRow} {row : CommitRow} (h : IsLatest rows row) :
    row ∈ rows := by
  obtain ⟨older, newer, rfl, -, -⟩ := h
  exact List.mem_append_right _ List.mem_cons_self

/-- Dropping rows that are not the latest leaves it. -/
theorem IsLatest.filter {rows : List CommitRow} {row : CommitRow} (h : IsLatest rows row)
    {keep : CommitRow → Bool} (hkeep : keep row = true) : IsLatest (rows.filter keep) row := by
  obtain ⟨older, newer, rfl, hold, hnew⟩ := h
  refine ⟨older.filter keep, newer.filter keep, ?_, ?_, ?_⟩
  · rw [List.filter_append, List.filter_cons_of_pos hkeep]
  · exact fun s hs => hold s (List.mem_of_mem_filter hs)
  · exact fun s hs => hnew s (List.mem_of_mem_filter hs)

/-- A row no earlier than the others, appended, is the latest. -/
theorem isLatest_append {rows : List CommitRow} {row : CommitRow}
    (h : ∀ s ∈ rows, s.batchId ≤ row.batchId) : IsLatest (rows ++ [row]) row :=
  ⟨rows, [], rfl, h, fun _ hs => absurd hs List.not_mem_nil⟩

/-- A row earlier than the latest, appended, leaves it. -/
theorem IsLatest.append {rows : List CommitRow} {row : CommitRow} (h : IsLatest rows row)
    {s : CommitRow} (hs : s.batchId < row.batchId) : IsLatest (rows ++ [s]) row := by
  obtain ⟨older, newer, rfl, hold, hnew⟩ := h
  refine ⟨older, newer ++ [s], by simp, hold, ?_⟩
  intro t ht
  rcases List.mem_append.mp ht with ht | ht
  · exact hnew t ht
  · rw [List.mem_singleton.mp ht]
    exact hs

theorem latest_cases (db : Database) :
    (db.batchCommit = [] ∧ db.latest = none) ∨
      ∃ row, db.latest = some row ∧ IsLatest db.batchCommit row := by
  rw [latest]
  generalize db.batchCommit = rows
  induction rows using List.reverseRecOn with
  | nil => exact .inl ⟨rfl, rfl⟩
  | append_singleton rows last ih =>
    right
    rw [List.foldl_append, List.foldl_cons, List.foldl_nil]
    rcases ih with ⟨rfl, hnone⟩ | ⟨kept, hkept, hlatest⟩
    · exact ⟨last, rfl, isLatest_append fun s hs => absurd hs List.not_mem_nil⟩
    · rw [hkept]
      by_cases hle : kept.batchId ≤ last.batchId
      · exact ⟨last, if_pos hle, isLatest_append fun s hs => (hlatest.le s hs).trans hle⟩
      · exact ⟨kept, if_neg hle, hlatest.append (Nat.lt_of_not_le hle)⟩

theorem IsLatest.unique {rows : List CommitRow} {row row' : CommitRow} (h : IsLatest rows row)
    (h' : IsLatest rows row') : row = row' := by
  have hle := h.le row' h'.mem
  have hle' := h'.le row h.mem
  obtain ⟨older, newer, hrows, -, hnew⟩ := h
  obtain ⟨older', newer', hrows', -, hnew'⟩ := h'
  rw [hrows, List.append_eq_append_iff] at hrows'
  rcases hrows' with ⟨mid, -, hmid⟩ | ⟨mid, -, hmid⟩
  · cases mid with
    | nil => exact (List.cons.inj hmid).1
    | cons first mid =>
      have hlater : row' ∈ newer := by
        rw [(List.cons.inj hmid).2]
        exact List.mem_append_right _ List.mem_cons_self
      exact absurd (hnew row' hlater) (Nat.not_lt.mpr hle')
  · cases mid with
    | nil => exact (List.cons.inj hmid).1.symm
    | cons first mid =>
      have hlater : row ∈ newer' := by
        rw [(List.cons.inj hmid).2]
        exact List.mem_append_right _ List.mem_cons_self
      exact absurd (hnew' row hlater) (Nat.not_lt.mpr hle)

theorem latest_eq_some {db : Database} {row : CommitRow} :
    db.latest = some row ↔ IsLatest db.batchCommit row := by
  rcases db.latest_cases with ⟨hnil, hnone⟩ | ⟨row', hsome, hlatest⟩
  · rw [hnone, hnil]
    exact iff_of_false (by simp) fun h => absurd h.mem List.not_mem_nil
  · rw [hsome, Option.some_inj]
    exact ⟨fun h => h ▸ hlatest, fun h => hlatest.unique h⟩

theorem latest_append (db : Database) (row : CommitRow)
    (h : ∀ r ∈ db.batchCommit, r.batchId ≤ row.batchId) :
    ({ db with batchCommit := db.batchCommit ++ [row] } : Database).latest = some row :=
  latest_eq_some.mpr (isLatest_append h)

end Database

/-! ## A log as rows -/

namespace Lanes

/-- The last value a log has for a word. -/
def overlay (l : Lanes) (wa : Word) : Option Word :=
  if 0 < arrayLastIndex (· = wa) l.addr then some (arrayElement l.val (arrayLastIndex (· = wa) l.addr))
  else none

theorem lookupWord_eq (l : Lanes) (ramt : List Word) (wa : Word) :
    lookupWord l ramt wa = (l.overlay wa).getD (arrayElement ramt (wa.toNat + 1)) := by
  rw [lookupWord, overlay]
  split <;> rfl

theorem overlay_push {l : Lanes} (h : l.val.length = l.addr.length) (addr val : Word) (n : Nat)
    (wa : Word) : (l.push addr val n).overlay wa = if addr = wa then some val else l.overlay wa := by
  have hindex : arrayLastIndex (· = wa) (l.push addr val n).addr =
      if addr = wa then l.addr.length + 1 else arrayLastIndex (· = wa) l.addr := by
    simp [Lanes.push, arrayPushBack, arrayLastIndex_append]
  rw [overlay, hindex]
  by_cases ha : addr = wa
  · simp [ha, Lanes.push, arrayPushBack, arrayElement_succ, ← h]
  · simp only [ha, if_false]
    rw [overlay]
    have hle := arrayLastIndex_le_length (· = wa) l.addr
    rw [← h] at hle
    cases hi : arrayLastIndex (· = wa) l.addr with
    | zero => simp
    | succ i =>
      rw [hi] at hle
      simp [Lanes.push, arrayPushBack, arrayElement_succ, List.getD_eq_getElem?_getD,
        List.getElem?_append_left hle]

/-- A log is empty, or a shorter log and one write. -/
theorem push_induction {motive : Lanes → Prop} (hempty : motive .empty)
    (hpush : ∀ l a v n, l.val.length = l.addr.length → l.icount.length = l.addr.length →
      motive l → motive (l.push a v n)) (l : Lanes) (hval : l.val.length = l.addr.length)
    (hicount : l.icount.length = l.addr.length) : motive l := by
  obtain ⟨addr, val, icount⟩ := l
  induction addr using List.reverseRecOn generalizing val icount with
  | nil =>
    obtain rfl := List.length_eq_zero_iff.mp hval
    obtain rfl := List.length_eq_zero_iff.mp hicount
    exact hempty
  | append_singleton addr a ih =>
    have hval' : val ≠ [] := by
      rintro rfl
      simp at hval
    have hicount' : icount ≠ [] := by
      rintro rfl
      simp at hicount
    obtain ⟨val, v, rfl⟩ : ∃ vs v, val = vs ++ [v] :=
      ⟨val.dropLast, val.getLast hval', (List.dropLast_append_getLast hval').symm⟩
    obtain ⟨icount, n, rfl⟩ : ∃ ns n, icount = ns ++ [n] :=
      ⟨icount.dropLast, icount.getLast hicount', (List.dropLast_append_getLast hicount').symm⟩
    have h1 : val.length = addr.length := by simpa using hval
    have h2 : icount.length = addr.length := by simpa using hicount
    exact hpush ⟨addr, val, icount⟩ a v n h1 h2 (ih val icount h1 h2)

theorem rows_push {l : Lanes} (hval : l.val.length = l.addr.length)
    (hicount : l.icount.length = l.addr.length) (a v : Word) (n base : Nat) :
    (l.push a v n).rows base = l.rows base ++ [⟨base + a.toNat, v, n⟩] := by
  simp [rows, push, arrayPushBack, List.zip_append, hval, hicount]

/-- Every row of a log has one of its stamps. -/
theorem version_mem {l : Lanes} {base : Nat} {row : TableRow Nat Word} (h : row ∈ l.rows base) :
    row.version ∈ l.icount := by
  obtain ⟨⟨a, v, n⟩, hmem, rfl⟩ := List.mem_map.mp h
  exact (List.of_mem_zip (List.of_mem_zip hmem).2).2

/-- A log flushed into a table hides the words it has a value for. -/
theorem final_rows {l : Lanes} {lo hi : Nat} (hl : l.Stamped lo hi)
    {table : List (TableRow Nat Word)} (hold : ∀ r ∈ table, r.version ≤ lo) (base : Nat) (wa : Word) :
    Table.final (table ++ l.rows base) (base + wa.toNat) =
      (l.overlay wa).or (Table.final table (base + wa.toNat)) := by
  have hincreasing := hl.increasing
  have hbounds := hl.bounds
  refine push_induction (motive := fun l => l.icount.Pairwise (· < ·) →
      (∀ n ∈ l.icount, lo < n ∧ n ≤ hi) → Table.final (table ++ l.rows base) (base + wa.toNat) =
        (l.overlay wa).or (Table.final table (base + wa.toNat))) ?_ ?_ l hl.length_val
      hl.length_icount hincreasing hbounds
  · intro _ _
    simp [rows, empty, overlay, arrayLastIndex]
  · intro l a v n hval hicount ih hinc hbnd
    change (l.icount ++ [n]).Pairwise (· < ·) at hinc
    change ∀ m ∈ l.icount ++ [n], lo < m ∧ m ≤ hi at hbnd
    obtain ⟨hinc', -, hlast⟩ := List.pairwise_append.mp hinc
    have ih := ih hinc' fun m hm => hbnd m (List.mem_append_left _ hm)
    rw [rows_push hval hicount, ← List.append_assoc, Table.final_append_singleton, ih,
      overlay_push hval]
    · have hkey : base + a.toNat = base + wa.toNat ↔ a = wa := by
        rw [Nat.add_left_cancel_iff, BitVec.toNat_inj]
      rw [if_congr hkey rfl rfl]
      split <;> rfl
    · intro r hr _
      rcases List.mem_append.mp hr with hr | hr
      · exact (hold r hr).trans (hbnd n (by simp)).1.le
      · exact (hlast _ (version_mem hr) n (by simp)).le

end Lanes
end ClickDoom
