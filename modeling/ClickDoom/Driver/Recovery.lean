import ClickDoom.Driver.Compared

/-! # Crashes and restarts

The loop of `emulation run` one statement at a time.  A process may die between any
two statements; the next one seeds, reads the latest row, and derives it again
before it commits anything.  Everything but `batch_commit` is derived from it, one
row at a time, and deriving a row twice leaves every table reading as after once.
-/
namespace ClickDoom
open ClickHouse

/-! ## Statements -/

/-- A statement that derives from one committed row. -/
inductive Stmt
  | ramFlush | framebufferFlush | paletteFlush | consoleOutFlush | cpuStateFlush
  | retention | frameReadout
  deriving DecidableEq

namespace Stmt

def exec (batchId : Nat) : Stmt → Database → Database
  | ramFlush => Database.ramFlush batchId
  | framebufferFlush => Database.framebufferFlush batchId
  | paletteFlush => Database.paletteFlush batchId
  | consoleOutFlush => Database.consoleOutFlush batchId
  | cpuStateFlush => Database.cpuStateFlush batchId
  | retention => Database.retention batchId batchCommitRetention
  | frameReadout => Database.frameReadout batchId

/-- `flush`. -/
def flushes : List Stmt :=
  [ramFlush, framebufferFlush, paletteFlush, consoleOutFlush, cpuStateFlush]

/-- `recover`. -/
def recovery : List Stmt := flushes ++ [frameReadout]

/-- What follows the commit of a row. -/
def ofRow (row : CommitRow) : List Stmt :=
  flushes ++ retention :: if row.halted ≠ 1 ∧ row.hasFrame = 1 then [frameReadout] else []

/-- Runs statements on one batch. -/
def execAll (batchId : Nat) (todo : List Stmt) (db : Database) : Database :=
  todo.foldl (fun db stmt => stmt.exec batchId db) db

/-- Only a readout may be missing. -/
theorem eq_of_notMem_ofRow {row : CommitRow} {stmt : Stmt} (h : stmt ∉ ofRow row) :
    stmt = frameReadout ∧ ¬(row.halted ≠ 1 ∧ row.hasFrame = 1) := by
  have hmem : ∀ s ∈ flushes ++ [retention], s ∈ ofRow row := by
    intro s hs
    rw [ofRow, List.append_cons]
    exact List.mem_append_left _ hs
  have hreadout : stmt = frameReadout := by
    cases stmt <;> first | rfl | exact absurd (hmem _ (by decide)) h
  refine ⟨hreadout, fun hframe => h ?_⟩
  rw [ofRow, if_pos hframe, hreadout]
  decide

theorem readsLast_ofRow (row : CommitRow) : frameReadout ∉ (ofRow row).dropLast := by
  rw [ofRow]
  split <;> decide

theorem execAll_recovery (batchId : Nat) (db : Database) :
    execAll batchId recovery db = db.recover batchId := rfl

end Stmt

/-! ## The driver -/

/-- The process: dead, or with statements left for a batch; `ends` when the loop
breaks after them. -/
inductive Process
  | down
  | working (batchId : Nat) (todo : List Stmt) (ends : Bool)
  deriving DecidableEq

structure Driver where
  db : Database
  process : Process

inductive Event
  | crash
  | restart
  | statement
  | commit (keys : List (BitVec 16))
  deriving DecidableEq

namespace RunArgs
variable (args : RunArgs)

/-- The loop breaks after this row. -/
def ends (row : CommitRow) : Bool := row.halted = 1 || args.stops row

/-- A process that has inserted a batch's row reads it back, and stops if another's
is the latest. -/
def afterCommit (batchId : Nat) (db : Database) : Option Driver :=
  match db.latest with
  | none => none
  | some row =>
    if row.batchId ≠ batchId + 1 then none
    else some ⟨db, .working row.batchId (Stmt.ofRow row) (args.ends row)⟩

/-- One event.  A commit takes the key rows that have arrived since the last. -/
def drive (d : Driver) : Event → Option Driver
  | .crash =>
    match d.process with
    | .down => none
    | .working .. => some { d with process := .down }
  | .restart =>
    match d.process with
    | .down => (d.db.seed resetRegs).latest.map fun row =>
        ⟨d.db.seed resetRegs, .working row.batchId Stmt.recovery false⟩
    | .working .. => none
  | .statement =>
    match d.process with
    | .working batchId (stmt :: todo) ends =>
      some ⟨stmt.exec batchId d.db, .working batchId todo ends⟩
    | _ => none
  | .commit keys =>
    match d.process, d.db.latest with
    | .working batchId [] false, some prev =>
      if args.targetIcount ≤ prev.icount then none
      else args.afterCommit batchId (({ d.db with inputQueue := d.db.inputQueue ++ keys } :
        Database).batch args.step (args.stepK prev.icount))
    | _, _ => none

/-- A batch of the loop with nothing in between, after `prev`. -/
def wholeTurn (db : Database) (prev : CommitRow) (keys : List (BitVec 16)) : CommitRow × Database :=
  let db := ({ db with inputQueue := db.inputQueue ++ keys } : Database)
  let row := db.batchRow args.step (args.stepK prev.icount) prev
  (row, Stmt.execAll row.batchId (Stmt.ofRow row) (db.batch args.step (args.stepK prev.icount)))

/-- The databases of the uninterrupted run at the head of its loop: the key rows
of each batch, the rows committed, and what the tables hold. -/
inductive Uninterrupted (start : Database) :
    List (List (BitVec 16)) → List CommitRow → Database → Prop
  | start {row : CommitRow} (h : (start.seed resetRegs).latest = some row) :
    Uninterrupted start [] [] (start.resumed row)
  | turn {feed : List (List (BitVec 16))} {rows : List CommitRow} {db : Database} {prev : CommitRow}
    (keys : List (BitVec 16)) (h : Uninterrupted start feed rows db) (hprev : db.latest = some prev)
    (htarget : prev.icount < args.targetIcount) (hgoes : args.ends prev = false) :
    Uninterrupted start (feed ++ [keys]) (rows ++ [(args.wholeTurn db prev keys).1])
      (args.wholeTurn db prev keys).2

end RunArgs

/-! ## What a row owes the tables -/

/-- The tables read alike, and the frames read out are the same. -/
def Stmt.Paid (db u : Database) : Stmt → Prop
  | .ramFlush => Table.Alike db.ram u.ram
  | .framebufferFlush => Table.Alike db.framebuffer u.framebuffer
  | .paletteFlush => Table.Alike db.palette u.palette
  | .consoleOutFlush => Table.Alike db.consoleOut u.consoleOut
  | .cpuStateFlush => Table.Alike db.cpuState u.cpuState
  | .retention => True
  | .frameReadout => db.framesOut = u.framesOut

theorem Stmt.paid_self (db : Database) (stmt : Stmt) : stmt.Paid db db := by
  cases stmt <;> first | exact Table.Alike.refl _ | exact trivial | rfl

/-- Recovery leaves nothing but the retention undone. -/
theorem Stmt.paid_of_notMem_recovery (db u : Database) (stmt : Stmt) (h : stmt ∉ recovery) :
    stmt.Paid db u := by
  cases stmt <;> first | exact absurd (by decide) h | trivial

/-- The frame a readout finds for a row. -/
def Database.frameOf (db : Database) (row : CommitRow) : FrameRow where
  frameNo := row.frameNo
  committedIcount := row.icount
  fb := regionBytes (denseWords db.framebuffer 16000)
  palette := regionBytes (denseWords db.palette 192)

theorem Database.frameReadout_eq {db : Database} {batchId : Nat} {row : CommitRow}
    (h : db.rowsOf batchId = [row]) :
    db.frameReadout batchId =
      { db with
        framesOut := db.framesOut ++
          if row.hasFrame = 1 ∧ row.frameNo ∉ db.framesOut.map (·.frameNo) then [db.frameOf row]
          else [] } := by
  rw [frameReadout, h, List.filter_cons, List.filter_nil]
  simp only [decide_eq_true_eq]
  split <;> rfl

/-- `db` has derived its latest row in part, `u` in full: each flush once more, done
before or not, makes the table read as `u`'s. -/
structure Owes (db u : Database) (row : CommitRow) : Prop where
  latest : db.latest = some row
  rows : db.rowsOf row.batchId = [row]
  decoded : db.decoded = u.decoded
  inputQueue : db.inputQueue = u.inputQueue
  ram : Table.Alike (db.ram ++ row.wl.rows ramBaseWord.toNat) u.ram
  framebuffer : Table.Alike (db.framebuffer ++ row.fbWl.rows 0) u.framebuffer
  palette : Table.Alike (db.palette ++ row.palWl.rows 0) u.palette
  consoleOut : Table.Alike (db.consoleOut ++ consoleRows row.batchId row.consoleBytes) u.consoleOut
  cpuState : Table.Alike (db.cpuState ++ [⟨row.batchId, row.cpu, 0⟩]) u.cpuState
  frames : db.framesOut = u.framesOut ∨
    row.hasFrame = 1 ∧ row.frameNo ∉ db.framesOut.map (·.frameNo) ∧
      u.framesOut = db.framesOut ++ [u.frameOf row]
  readOut : row.hasFrame = 1 → row.frameNo ∈ u.framesOut.map (·.frameNo)

namespace Owes
variable {db u : Database} {row : CommitRow}

theorem exec_latest (h : Owes db u row) (stmt : Stmt) :
    (stmt.exec row.batchId db).latest = some row := by
  cases stmt with
  | retention => exact Database.latest_eq_some.mpr ((Database.latest_eq_some.mp h.latest).retained _)
  | _ => exact h.latest

/-- A flush pays what it is for, and is still owed: redoing it changes nothing. -/
theorem exec (h : Owes db u row) (stmt : Stmt)
    (hpaid : stmt = .frameReadout → Table.Alike db.framebuffer u.framebuffer ∧
      Table.Alike db.palette u.palette) :
    Owes (stmt.exec row.batchId db) u row ∧ stmt.Paid (stmt.exec row.batchId db) u := by
  have hrows := h.rows
  cases stmt with
  | ramFlush =>
    have hdb : Stmt.exec row.batchId .ramFlush db =
        { db with ram := db.ram ++ row.wl.rows ramBaseWord.toNat } := by
      simp only [Stmt.exec, Database.ramFlush, hrows, List.flatMap_singleton]
    rw [hdb]
    exact ⟨{ h with ram := (Table.alike_append_append _ _).trans h.ram }, h.ram⟩
  | framebufferFlush =>
    have hdb : Stmt.exec row.batchId .framebufferFlush db =
        { db with framebuffer := db.framebuffer ++ row.fbWl.rows 0 } := by
      simp only [Stmt.exec, Database.framebufferFlush, hrows, List.flatMap_singleton]
    rw [hdb]
    exact ⟨{ h with framebuffer := (Table.alike_append_append _ _).trans h.framebuffer },
      h.framebuffer⟩
  | paletteFlush =>
    have hdb : Stmt.exec row.batchId .paletteFlush db =
        { db with palette := db.palette ++ row.palWl.rows 0 } := by
      simp only [Stmt.exec, Database.paletteFlush, hrows, List.flatMap_singleton]
    rw [hdb]
    exact ⟨{ h with palette := (Table.alike_append_append _ _).trans h.palette }, h.palette⟩
  | consoleOutFlush =>
    have hdb : Stmt.exec row.batchId .consoleOutFlush db =
        { db with consoleOut := db.consoleOut ++ consoleRows row.batchId row.consoleBytes } := by
      simp only [Stmt.exec, Database.consoleOutFlush, hrows, List.flatMap_singleton]
    rw [hdb]
    exact ⟨{ h with consoleOut := (Table.alike_append_append _ _).trans h.consoleOut },
      h.consoleOut⟩
  | cpuStateFlush =>
    have hdb : Stmt.exec row.batchId .cpuStateFlush db =
        { db with cpuState := db.cpuState ++ [⟨row.batchId, row.cpu, 0⟩] } := by
      simp only [Stmt.exec, Database.cpuStateFlush, hrows, List.map_singleton]
    rw [hdb]
    exact ⟨{ h with cpuState := (Table.alike_append_append _ _).trans h.cpuState }, h.cpuState⟩
  | retention =>
    refine ⟨{ h with
      latest := h.exec_latest .retention
      rows := ?_ }, trivial⟩
    have hkeeps : (db.settle row.batchId).rowsOf row.batchId = _ := Database.rowsOf_settle _
    exact hkeeps.trans hrows
  | frameReadout =>
    obtain ⟨hfb, hpal⟩ := hpaid rfl
    have hframe : db.frameOf row = u.frameOf row := by
      simp only [Database.frameOf, Database.denseWords, hfb.final_eq, hpal.final_eq]
    have hdb : Stmt.exec row.batchId .frameReadout db = { db with framesOut := u.framesOut } := by
      rw [Stmt.exec, Database.frameReadout_eq hrows]
      congr 1
      rcases h.frames with hsame | ⟨hone, hnew, hu⟩
      · rw [if_neg, List.append_nil, hsame]
        rintro ⟨hone, hnew⟩
        rw [hsame] at hnew
        exact hnew (h.readOut hone)
      · rw [if_pos ⟨hone, hnew⟩, hu, hframe]
    rw [hdb]
    exact ⟨{ h with frames := .inl rfl }, rfl⟩


/-- Seeding once more leaves what is owed as it was. -/
theorem seed (h : Owes db u row) : Owes (db.seed resetRegs) u row := by
  rw [Database.seed]
  split
  · rename_i hnone
    have hne : row.batchId ≠ 0 := by
      intro hzero
      have hrows := h.rows
      rw [hzero, hnone] at hrows
      cases hrows
    refine { h with
      latest := ?_
      rows := ?_ }
    · exact Database.latest_eq_some.mpr
        ((Database.latest_eq_some.mp h.latest).append (Nat.pos_of_ne_zero hne))
    · change List.filter _ (db.batchCommit ++ [Database.seedRow resetRegs]) = [row]
      have hrest : [Database.seedRow resetRegs].filter (·.batchId = row.batchId) = [] := by
        rw [List.filter_cons_of_neg, List.filter_nil]
        rw [decide_eq_true_eq]
        exact hne.symm
      rw [List.filter_append, hrest, List.append_nil]
      exact h.rows
  · exact h

end Owes

/-- `u` is `b` with its latest row derived. -/
structure Derived (b u : Database) (row : CommitRow) : Prop where
  decoded : u.decoded = b.decoded
  inputQueue : u.inputQueue = b.inputQueue
  ram : u.ram = b.ram ++ row.wl.rows ramBaseWord.toNat
  framebuffer : u.framebuffer = b.framebuffer ++ row.fbWl.rows 0
  palette : u.palette = b.palette ++ row.palWl.rows 0
  consoleOut : u.consoleOut = b.consoleOut ++ consoleRows row.batchId row.consoleBytes
  cpuState : u.cpuState = b.cpuState ++ [⟨row.batchId, row.cpu, 0⟩]
  framesOut : u.framesOut = b.framesOut ++
    if row.hasFrame = 1 ∧ row.frameNo ∉ b.framesOut.map (·.frameNo) then [u.frameOf row] else []

theorem derived_recover {b : Database} {row : CommitRow} (h : b.rowsOf row.batchId = [row]) :
    Derived b (b.recover row.batchId) row := by
  have hflush := b.flush_eq row.batchId
  rw [h] at hflush
  have hrows : (b.flush row.batchId).rowsOf row.batchId = [row] := h
  rw [Database.recover, Database.frameReadout_eq hrows, hflush]
  constructor <;> simp only [List.flatMap_singleton, List.map_singleton, Database.frameOf]

theorem derived_settle {b : Database} {row : CommitRow} (h : b.rowsOf row.batchId = [row]) :
    Derived b ((b.settle row.batchId).frameReadout row.batchId) row := by
  have hflush := b.flush_eq row.batchId
  rw [h] at hflush
  have hrows : (b.settle row.batchId).rowsOf row.batchId = [row] :=
    (Database.rowsOf_settle _).trans h
  rw [Database.frameReadout_eq hrows, Database.settle, hflush]
  constructor <;>
    simp only [List.flatMap_singleton, List.map_singleton, Database.frameOf, Database.retention]

/-- A database that reads as `b` and has committed the row `u` has derived. -/
theorem Derived.owes {b u db : Database} {row : CommitRow} (h : Derived b u row)
    (hlatest : db.latest = some row) (hrows : db.rowsOf row.batchId = [row])
    (hdecoded : db.decoded = b.decoded) (hqueue : db.inputQueue = b.inputQueue)
    (hpaid : ∀ stmt : Stmt, stmt.Paid db b) : Owes db u row where
  latest := hlatest
  rows := hrows
  decoded := hdecoded.trans h.decoded.symm
  inputQueue := hqueue.trans h.inputQueue.symm
  ram := by
    rw [h.ram]
    exact (hpaid .ramFlush).append _
  framebuffer := by
    rw [h.framebuffer]
    exact (hpaid .framebufferFlush).append _
  palette := by
    rw [h.palette]
    exact (hpaid .paletteFlush).append _
  consoleOut := by
    rw [h.consoleOut]
    exact (hpaid .consoleOutFlush).append _
  cpuState := by
    rw [h.cpuState]
    exact (hpaid .cpuStateFlush).append _
  frames := by
    have hsame : db.framesOut = b.framesOut := hpaid .frameReadout
    rw [h.framesOut, hsame]
    by_cases hnew : row.hasFrame = 1 ∧ row.frameNo ∉ b.framesOut.map (·.frameNo)
    · exact .inr ⟨hnew.1, hnew.2, by rw [if_pos hnew]⟩
    · exact .inl (by rw [if_neg hnew, List.append_nil])
  readOut := by
    intro hone
    rw [h.framesOut, List.map_append, List.mem_append]
    by_cases hold : row.frameNo ∈ b.framesOut.map (·.frameNo)
    · exact .inl hold
    · rw [if_pos ⟨hone, hold⟩]
      exact .inr List.mem_cons_self

/-- The numbers read out are those of the rows derived, once each. -/
theorem Derived.frames {b u : Database} {row : CommitRow} (h : Derived b u row)
    {rows : List CommitRow} (hnodup : (b.framesOut.map (·.frameNo)).Nodup)
    (hmem : ∀ n, n ∈ b.framesOut.map (·.frameNo) ↔ ∃ r ∈ rows, r.hasFrame = 1 ∧ r.frameNo = n) :
    (u.framesOut.map (·.frameNo)).Nodup ∧
      ∀ n, n ∈ u.framesOut.map (·.frameNo) ↔
        ∃ r ∈ rows ++ [row], r.hasFrame = 1 ∧ r.frameNo = n := by
  have hboth : ∀ n, (∃ r ∈ rows ++ [row], r.hasFrame = 1 ∧ r.frameNo = n) ↔
      (∃ r ∈ rows, r.hasFrame = 1 ∧ r.frameNo = n) ∨ row.hasFrame = 1 ∧ row.frameNo = n := by
    intro n
    simp only [List.mem_append, List.mem_singleton, or_and_right, exists_or, exists_eq_left]
  have hframesOut := h.framesOut
  by_cases hnew : row.hasFrame = 1 ∧ row.frameNo ∉ b.framesOut.map (·.frameNo)
  · rw [if_pos hnew] at hframesOut
    rw [hframesOut, List.map_append, List.map_singleton]
    refine ⟨List.Nodup.append hnodup (List.nodup_singleton _) ?_, fun n => ?_⟩
    · intro n hn hn'
      rw [List.mem_singleton.mp hn'] at hn
      exact hnew.2 hn
    · rw [List.mem_append, hmem, List.mem_singleton, hboth]
      exact or_congr_right ⟨fun h => ⟨hnew.1, h.symm⟩, fun h => h.2.symm⟩
  · rw [if_neg hnew, List.append_nil] at hframesOut
    rw [hframesOut]
    refine ⟨hnodup, fun n => ?_⟩
    rw [hboth, ← hmem]
    refine (or_iff_left_of_imp ?_).symm
    rintro ⟨hone, rfl⟩
    by_contra hnot
    exact hnew ⟨hone, hnot⟩

/-! ## The invariant of the driver -/

/-- What a process has done for the latest row: whatever it has no statement left
for is paid, and a readout comes last. -/
structure Process.Tracks (process : Process) (db u : Database) (row : CommitRow) : Prop where
  batchId : ∀ {batchId todo ends}, process = .working batchId todo ends → batchId = row.batchId
  paid : ∀ {batchId todo ends}, process = .working batchId todo ends →
    ∀ stmt : Stmt, stmt ∉ todo → stmt.Paid db u
  readsLast : ∀ {batchId todo ends}, process = .working batchId todo ends →
    .frameReadout ∉ todo.dropLast

/-- The driver tracks the uninterrupted run's database. -/
structure Driver.Tracks (d : Driver) (u : Database) (row : CommitRow) : Prop where
  owes : Owes d.db u row
  process : d.process.Tracks d.db u row

theorem Process.Tracks.working {db u : Database} {row : CommitRow} {todo : List Stmt} {ends : Bool}
    (hpaid : ∀ stmt : Stmt, stmt ∉ todo → stmt.Paid db u)
    (hlast : Stmt.frameReadout ∉ todo.dropLast) :
    (Process.working row.batchId todo ends).Tracks db u row where
  batchId h := by cases h; rfl
  paid h := by cases h; exact hpaid
  readsLast h := by cases h; exact hlast

/-- A statement leaves the others' tables alone. -/
theorem Stmt.Paid.exec {db u : Database} {stmt other : Stmt} (h : other.Paid db u)
    (hne : other ≠ stmt) (batchId : Nat) : other.Paid (stmt.exec batchId db) u := by
  cases stmt <;> cases other <;> first | exact absurd rfl hne | exact h

/-! ## A whole turn -/

/-- A batch that halts announces no frame. -/
theorem Database.halted_hasFrame (p : StepArgs) (k : Nat) (db : Database) (prev : CommitRow)
    (h : (db.batchRow p k prev).halted = 1) : (db.batchRow p k prev).hasFrame = 0 :=
  foldBatch_frame k prev.pc prev.regs prev.icount prev.keyqPos h

/-- The statements after a commit: the flushes, the retention and the readout, which
finds nothing where the row has no frame. -/
theorem Stmt.execAll_ofRow {db : Database} {row : CommitRow} (hrows : db.rowsOf row.batchId = [row])
    (hhalted : row.halted = 1 → row.hasFrame = 0) :
    execAll row.batchId (ofRow row) db = (db.settle row.batchId).frameReadout row.batchId := by
  rw [ofRow]
  by_cases hframe : row.hasFrame = 1
  · have hgoes : row.halted ≠ 1 := by
      intro hone
      rw [hhalted hone] at hframe
      exact absurd hframe (by decide)
    rw [if_pos ⟨hgoes, hframe⟩]
    rfl
  · have hsettled : (db.settle row.batchId).rowsOf row.batchId = [row] :=
      (Database.rowsOf_settle _).trans hrows
    rw [if_neg fun h => hframe h.2, Database.frameReadout_eq hsettled, if_neg fun h => hframe h.1,
      List.append_nil]
    rfl

namespace RunArgs
variable (args : RunArgs) {db : Database} {prev : CommitRow} (keys : List (BitVec 16))

/-- The database of a whole turn: its row derived, and the latest. -/
theorem wholeTurn_spec (h : db.latest = some prev) :
    Derived { db with inputQueue := db.inputQueue ++ keys } (args.wholeTurn db prev keys).2
        (args.wholeTurn db prev keys).1 ∧
      (args.wholeTurn db prev keys).2.latest = some (args.wholeTurn db prev keys).1 ∧
      (args.wholeTurn db prev keys).1.batchId = prev.batchId + 1 := by
  have hlatest : ({ db with inputQueue := db.inputQueue ++ keys } : Database).latest = some prev := h
  have hsettle := Database.settle_batch args.step (args.stepK prev.icount) hlatest
  have hbatch := Database.batch_eq args.step (args.stepK prev.icount) hlatest
  have hid := Database.batchId_lt args.step (args.stepK prev.icount) hlatest
  have hhalted := Database.halted_hasFrame args.step (args.stepK prev.icount)
    { db with inputQueue := db.inputQueue ++ keys } prev
  have hnext : (({ db with inputQueue := db.inputQueue ++ keys } : Database).batchRow args.step
    (args.stepK prev.icount) prev).batchId = prev.batchId + 1 := rfl
  rw [wholeTurn]
  dsimp only
  generalize ({ db with inputQueue := db.inputQueue ++ keys } : Database).batchRow args.step
    (args.stepK prev.icount) prev = row at *
  rw [hbatch] at hsettle ⊢
  have hrows := Database.rowsOf_append { db with inputQueue := db.inputQueue ++ keys } hid
  rw [Stmt.execAll_ofRow hrows hhalted]
  refine ⟨?_, ?_, hnext⟩
  · have hderived := derived_settle hrows
    exact ⟨hderived.decoded, hderived.inputQueue, hderived.ram, hderived.framebuffer,
      hderived.palette, hderived.consoleOut, hderived.cpuState, hderived.framesOut⟩
  · rw [hnext]
    exact hsettle.1

theorem afterFlush_db {xxh64 : List Byte → BitVec 64} {trace : List Line} {s s' : RunState}
    {row : CommitRow} {last : Bool} (h : args.afterFlush xxh64 trace s db row = .ok (s', last)) :
    s'.db = (if row.halted ≠ 1 ∧ row.hasFrame = 1 then db.frameReadout row.batchId else db) ∧
      last = args.ends row := by
  rw [afterFlush] at h
  obtain ⟨inside, -, h⟩ := bind_ok h
  obtain ⟨atEnd, -, h⟩ := bind_ok h
  rw [ends, stops]
  by_cases hhalted : row.halted = 1
  · rw [if_pos hhalted] at h
    cases h
    rw [if_neg fun hand => hand.1 hhalted, decide_eq_true hhalted, Bool.true_or]
    exact ⟨rfl, rfl⟩
  · rw [if_neg hhalted] at h
    rw [decide_eq_false hhalted, Bool.false_or]
    by_cases hframe : row.hasFrame = 1
    · rw [if_pos hframe] at h
      cases h
      rw [if_pos ⟨hhalted, hframe⟩, decide_eq_true hframe, Bool.true_and]
      exact ⟨rfl, rfl⟩
    · rw [if_neg hframe] at h
      cases h
      rw [if_neg fun hand => hframe hand.2, decide_eq_false hframe, Bool.false_and]
      exact ⟨rfl, rfl⟩

/-- A turn of the loop that compares without an error runs these statements. -/
theorem turn_wholeTurn {xxh64 : List Byte → BitVec 64} {trace : List Line} {s s' : RunState}
    {last : Bool} (hs : s.At prev)
    (h : args.turn xxh64 trace { s with db := { s.db with inputQueue := s.db.inputQueue ++ keys } } =
      .ok (s', last)) :
    s'.db = (args.wholeTurn s.db prev keys).2 ∧ last = args.ends (args.wholeTurn s.db prev keys).1 := by
  have hs' : ({ s with db := { s.db with inputQueue := s.db.inputQueue ++ keys } } :
    RunState).At prev := ⟨hs.latest, hs.icount, hs.batchId⟩
  rw [turn_eq hs'] at h
  obtain ⟨hdb, hlast⟩ := args.afterFlush_db h
  have hid : (({ s.db with inputQueue := s.db.inputQueue ++ keys } : Database).batchRow args.step
    (args.stepK prev.icount) prev).batchId = prev.batchId + 1 := rfl
  refine ⟨?_, hlast⟩
  rw [hdb, wholeTurn]
  dsimp only
  generalize ({ s.db with inputQueue := s.db.inputQueue ++ keys } : Database).batchRow args.step
    (args.stepK prev.icount) prev = row at hid ⊢
  rw [← hid, Stmt.ofRow]
  split <;> rfl

end RunArgs

namespace Driver.Tracks
variable {args : RunArgs} {d d' : Driver} {u : Database} {row : CommitRow}

theorem crash (h : d.Tracks u row) : Tracks { d with process := .down } u row :=
  ⟨h.owes, ⟨fun h => (nomatch h), fun h => (nomatch h), fun h => (nomatch h)⟩⟩

theorem restart (h : d.Tracks u row) (hdrive : args.drive d .restart = some d') :
    d'.Tracks u row := by
  have howes := h.owes.seed
  rw [RunArgs.drive] at hdrive
  split at hdrive
  · rw [howes.latest] at hdrive
    cases hdrive
    exact ⟨howes, .working (Stmt.paid_of_notMem_recovery _ _) (by decide)⟩
  · cases hdrive

/-- The next statement of a process. -/
theorem exec {db : Database} {stmt : Stmt} {todo : List Stmt} {ends : Bool}
    (h : Tracks ⟨db, .working row.batchId (stmt :: todo) ends⟩ u row) :
    Tracks ⟨stmt.exec row.batchId db, .working row.batchId todo ends⟩ u row := by
  have hpaid := h.process.paid rfl
  have hlast := h.process.readsLast rfl
  -- nothing is left after a readout, so the pixels are paid before it
  have hpixels : stmt = .frameReadout → todo = [] := by
    rintro rfl
    cases todo with
    | nil => rfl
    | cons next rest => exact absurd List.mem_cons_self hlast
  obtain ⟨howes, hdone⟩ := h.owes.exec stmt (by
    rintro rfl
    rw [hpixels rfl] at hpaid
    exact ⟨hpaid .framebufferFlush (by decide), hpaid .paletteFlush (by decide)⟩)
  refine ⟨howes, .working ?_ ?_⟩
  · intro other hother
    by_cases hsame : other = stmt
    · rw [hsame]
      exact hdone
    · exact (hpaid other fun hmem => (List.mem_cons.mp hmem).elim hsame hother).exec hsame _
  · cases todo with
    | nil => exact List.not_mem_nil
    | cons next rest =>
      intro hmem
      exact hlast (List.mem_cons_of_mem _ hmem)

theorem statement (h : d.Tracks u row) (hdrive : args.drive d .statement = some d') :
    d'.Tracks u row := by
  obtain ⟨db, process⟩ := d
  rw [RunArgs.drive] at hdrive
  split at hdrive
  · rename_i batchId stmt todo ends hprocess
    obtain rfl : process = _ := hprocess
    cases hdrive
    obtain rfl := h.process.batchId rfl
    exact h.exec
  · cases hdrive

/-- A commit at the head of the loop: the row is the uninterrupted run's next. -/
theorem commit (h : d.Tracks u row) (hu : u.latest = some row) {keys : List (BitVec 16)}
    (hdrive : args.drive d (.commit keys) = some d') :
    row.icount < args.targetIcount ∧
      d'.Tracks (args.wholeTurn u row keys).2 (args.wholeTurn u row keys).1 := by
  rw [RunArgs.drive, h.owes.latest] at hdrive
  split at hdrive
  · rename_i batchId prev hprocess hprev
    obtain rfl := Option.some.inj hprev
    have hpaid := h.process.paid hprocess
    obtain rfl := h.process.batchId hprocess
    split at hdrive
    · cases hdrive
    · rename_i htarget
      refine ⟨Nat.lt_of_not_le htarget, ?_⟩
      obtain ⟨hderived, -, hid⟩ := args.wholeTurn_spec keys hu
      -- the captured arrays are the same, so the rows are
      have hcaptures : ({ d.db with inputQueue := d.db.inputQueue ++ keys } : Database).captures =
          ({ u with inputQueue := u.inputQueue ++ keys } : Database).captures := by
        have hram : Table.Alike d.db.ram u.ram := hpaid .ramFlush List.not_mem_nil
        simp only [Database.captures, hram.readFinal_eq, h.owes.decoded, h.owes.inputQueue]
      have hrow : ({ d.db with inputQueue := d.db.inputQueue ++ keys } : Database).batchRow args.step
          (args.stepK row.icount) row = (args.wholeTurn u row keys).1 := by
        rw [RunArgs.wholeTurn, Database.batchRow, Database.batchRow, hcaptures]
      have hlatest : ({ d.db with inputQueue := d.db.inputQueue ++ keys } : Database).latest =
        some row := h.owes.latest
      have hlt := Database.batchId_lt args.step (args.stepK row.icount) hlatest
      have hbatch := Database.batch_eq args.step (args.stepK row.icount) hlatest
      have hnew := Database.latest_batch args.step (args.stepK row.icount) hlatest
      have hhalted := Database.halted_hasFrame args.step (args.stepK row.icount)
        { d.db with inputQueue := d.db.inputQueue ++ keys } row
      rw [hrow] at hlt hbatch hnew hhalted
      generalize (args.wholeTurn u row keys).1 = next at *
      generalize (args.wholeTurn u row keys).2 = after at *
      rw [hbatch] at hnew hdrive
      rw [RunArgs.afterCommit, hnew] at hdrive
      dsimp only at hdrive
      rw [if_neg (not_not.mpr hid)] at hdrive
      cases hdrive
      have hrows := Database.rowsOf_append { d.db with inputQueue := d.db.inputQueue ++ keys } hlt
      have hsame : d.db.framesOut = u.framesOut := hpaid .frameReadout List.not_mem_nil
      refine ⟨hderived.owes hnew hrows h.owes.decoded ?_ ?_, .working ?_ ?_⟩
      · change d.db.inputQueue ++ keys = u.inputQueue ++ keys
        rw [h.owes.inputQueue]
      · intro stmt
        have hstmt := hpaid stmt List.not_mem_nil
        cases stmt <;> exact hstmt
      · intro stmt hstmt
        obtain ⟨rfl, hnone⟩ := Stmt.eq_of_notMem_ofRow hstmt
        have hframe : ¬next.hasFrame = 1 := by
          intro hone
          refine hnone ⟨fun hhalts => ?_, hone⟩
          rw [hhalted hhalts] at hone
          exact absurd hone (by decide)
        change d.db.framesOut = after.framesOut
        rw [hderived.framesOut, if_neg fun h => hframe h.1, List.append_nil]
        exact hsame
      · exact Stmt.readsLast_ofRow next
  · cases hdrive

end Driver.Tracks

/-! ## Runs with crashes -/

/-- The key rows of the batches among the events. -/
def Event.committed (es : List Event) : List (List (BitVec 16)) :=
  es.filterMap fun
    | .commit keys => some keys
    | _ => none

namespace RunArgs
variable (args : RunArgs)

/-- A restart finds the row of batch zero, or nothing at all; a commit follows no row
the loop breaks after. -/
def Meets (d : Driver) : Event → Prop
  | .restart => d.db.batchCommit = [] ∨ d.db.rowsOf 0 ≠ []
  | .commit _ => ∀ row, d.db.latest = some row → args.ends row = false
  | _ => True

/-- The states a driver gets to, whatever happens to it, if its events meet that. -/
inductive Driven (start : Driver) : List Event → Driver → Prop
  | nil : Driven start [] start
  | snoc {es : List Event} {d d' : Driver} {e : Event} (h : Driven start es d)
    (hmeets : args.Meets d e) (hdrive : args.drive d e = some d') : Driven start (es ++ [e]) d'

variable {args} {start : Database}

theorem Uninterrupted.latest {feed : List (List (BitVec 16))} {rows : List CommitRow} {u : Database}
    (h : args.Uninterrupted start feed rows u) : ∃ row, u.latest = some row := by
  cases h with
  | start hlatest => exact ⟨_, hlatest⟩
  | turn keys h hprev _ _ => exact ⟨_, (args.wholeTurn_spec keys hprev).2.1⟩

/-- A fresh database, seeded. -/
theorem seed_fresh (hfresh : start.batchCommit = []) :
    start.seed resetRegs = { start with batchCommit := [Database.seedRow resetRegs] } := by
  rw [Database.seed, if_pos (by rw [Database.rowsOf, hfresh]; rfl), hfresh]
  rfl

/-- A driver tracks the uninterrupted run that commits the same batches. -/
theorem Driven.tracks (hfresh : start.batchCommit = []) {es : List Event} {d : Driver}
    (h : args.Driven ⟨start, .down⟩ es d) :
    (Event.committed es = [] ∧ d = ⟨start, .down⟩) ∨
      ∃ rows u row, args.Uninterrupted start (Event.committed es) rows u ∧ u.latest = some row ∧
        d.Tracks u row := by
  induction h with
  | nil => exact .inl ⟨rfl, rfl⟩
  | @snoc es d d' e h hmeets hdrive ih =>
    right
    have hcommitted : Event.committed (es ++ [e]) = Event.committed es ++ Event.committed [e] :=
      List.filterMap_append
    rw [hcommitted]
    rcases ih with ⟨hnone, rfl⟩ | ⟨rows, u, row, hun, hu, htracks⟩
    · -- nothing has run yet, and only a restart can be next
      cases e with
      | crash => cases hdrive
      | statement => cases hdrive
      | commit keys => cases hdrive
      | restart =>
        have hseed := seed_fresh hfresh
        have hlatest : (start.seed resetRegs).latest = some (Database.seedRow resetRegs) := by
          rw [hseed]
          rfl
        have hrows : (start.seed resetRegs).rowsOf 0 = [Database.seedRow resetRegs] := by
          rw [hseed]
          rfl
        refine ⟨[], start.resumed (Database.seedRow resetRegs), Database.seedRow resetRegs, ?_,
          hlatest, ?_⟩
        · rw [hnone]
          exact .start hlatest
        · rw [drive] at hdrive
          dsimp only at hdrive
          rw [hlatest] at hdrive
          cases hdrive
          exact ⟨(derived_recover hrows).owes hlatest hrows rfl rfl (Stmt.paid_self _),
            .working (Stmt.paid_of_notMem_recovery _ _) (by decide)⟩
    · cases e with
      | crash =>
        refine ⟨rows, u, row, (List.append_nil _).symm ▸ hun, hu, ?_⟩
        rw [drive] at hdrive
        split at hdrive
        · cases hdrive
        · cases hdrive
          exact htracks.crash
      | restart =>
        exact ⟨rows, u, row, (List.append_nil _).symm ▸ hun, hu, htracks.restart hdrive⟩
      | statement =>
        exact ⟨rows, u, row, (List.append_nil _).symm ▸ hun, hu, htracks.statement hdrive⟩
      | commit keys =>
        obtain ⟨htarget, hnext⟩ := htracks.commit hu hdrive
        have hgoes : args.ends row = false := hmeets row htracks.owes.latest
        exact ⟨_, _, _, .turn keys hun hu htarget hgoes, (args.wholeTurn_spec keys hu).2.1, hnext⟩


/-- The frames of the uninterrupted run: one row for every number committed. -/
theorem Uninterrupted.frames (hfresh : start.batchCommit = []) (hframes : start.framesOut = [])
    {feed : List (List (BitVec 16))} {rows : List CommitRow} {u : Database}
    (h : args.Uninterrupted start feed rows u) :
    (u.framesOut.map (·.frameNo)).Nodup ∧
      ∀ n, n ∈ u.framesOut.map (·.frameNo) ↔ ∃ row ∈ rows, row.hasFrame = 1 ∧ row.frameNo = n := by
  induction h with
  | @start row hlatest =>
    have hseed := seed_fresh hfresh
    obtain rfl : Database.seedRow resetRegs = row := by
      rw [hseed] at hlatest
      exact Option.some.inj hlatest
    have hrows : (start.seed resetRegs).rowsOf 0 = [Database.seedRow resetRegs] := by
      rw [hseed]
      rfl
    have hnone : (start.resumed (Database.seedRow resetRegs)).framesOut = [] := by
      have hderived : Derived (start.seed resetRegs) (start.resumed (Database.seedRow resetRegs))
        (Database.seedRow resetRegs) := derived_recover hrows
      have hzero : ¬(Database.seedRow resetRegs).hasFrame = 1 := by
        change ¬(0 : Byte) = 1
        decide
      rw [hderived.framesOut, if_neg fun h => hzero h.1, hseed, List.append_nil]
      exact hframes
    change ((start.resumed (Database.seedRow resetRegs)).framesOut.map (·.frameNo)).Nodup ∧ _
    rw [hnone]
    exact ⟨List.nodup_nil, by simp⟩
  | @turn feed rows db prev keys h hprev htarget hgoes ih =>
    obtain ⟨hnodup, hmem⟩ := ih
    exact (args.wholeTurn_spec keys hprev).1.frames hnodup hmem

end RunArgs

/-! ## Where a driver is headed -/

/-- The tables read the same. -/
structure Reads (db u : Database) : Prop where
  latest : db.latest = u.latest
  ram : Table.readFinal db.ram = Table.readFinal u.ram
  framebuffer : Table.readFinal db.framebuffer = Table.readFinal u.framebuffer
  palette : Table.readFinal db.palette = Table.readFinal u.palette
  consoleOut : Table.readFinal db.consoleOut = Table.readFinal u.consoleOut
  cpuState : Table.readFinal db.cpuState = Table.readFinal u.cpuState
  framesOut : db.framesOut = u.framesOut

namespace Driver

/-- The database once the process has done what it has left; a dead one's successor
recovers first. -/
def settled (d : Driver) : Database :=
  match d.process with
  | .working batchId todo _ => Stmt.execAll batchId todo d.db
  | .down =>
    match (d.db.seed resetRegs).latest with
    | none => d.db
    | some row => (d.db.seed resetRegs).recover row.batchId

variable {u : Database} {row : CommitRow}

theorem Tracks.reads_execAll (hu : u.latest = some row) {todo : List Stmt} {ends : Bool}
    {db : Database} (h : Tracks ⟨db, .working row.batchId todo ends⟩ u row) :
    Reads (Stmt.execAll row.batchId todo db) u := by
  induction todo generalizing db with
  | nil =>
    have hpaid := h.process.paid rfl
    exact
      { latest := h.owes.latest.trans hu.symm
        ram := (hpaid .ramFlush List.not_mem_nil).readFinal_eq
        framebuffer := (hpaid .framebufferFlush List.not_mem_nil).readFinal_eq
        palette := (hpaid .paletteFlush List.not_mem_nil).readFinal_eq
        consoleOut := (hpaid .consoleOutFlush List.not_mem_nil).readFinal_eq
        cpuState := (hpaid .cpuStateFlush List.not_mem_nil).readFinal_eq
        framesOut := hpaid .frameReadout List.not_mem_nil }
  | cons stmt todo ih => exact ih h.exec

theorem Tracks.reads (hu : u.latest = some row) {d : Driver} (h : d.Tracks u row) :
    Reads d.settled u := by
  obtain ⟨db, process⟩ := d
  cases process with
  | working batchId todo ends =>
    obtain rfl := h.process.batchId rfl
    exact h.reads_execAll hu
  | down =>
    have howes := h.owes.seed
    rw [settled, howes.latest]
    have htracks : Tracks ⟨db.seed resetRegs, .working row.batchId Stmt.recovery false⟩ u row :=
      ⟨howes, .working (Stmt.paid_of_notMem_recovery _ _) (by decide)⟩
    exact htracks.reads_execAll hu

end Driver

/-- Whatever crashes and restarts come in between, the driver is headed for the tables
of the uninterrupted run, with one frame read out for each number committed; a
restart's seed changes nothing, and no statement drops the latest row. -/
theorem crash_recovery {args : RunArgs} {start : Database} (hfresh : start.batchCommit = [])
    (hframes : start.framesOut = []) {es : List Event} {d : Driver}
    (hrun : args.Driven ⟨start, .down⟩ es d) :
    (∃ rows u, args.Uninterrupted start (Event.committed es) rows u ∧ Reads d.settled u ∧
        (d.settled.framesOut.map (·.frameNo)).Nodup ∧
        ∀ n, n ∈ d.settled.framesOut.map (·.frameNo) ↔
          ∃ row ∈ rows, row.hasFrame = 1 ∧ row.frameNo = n) ∧
      ∀ e d', args.Meets d e → args.drive d e = some d' →
        (e = .restart → d.db.batchCommit ≠ [] → d'.db = d.db) ∧
          (e = .statement → d'.db.latest = d.db.latest) := by
  constructor
  · rcases hrun.tracks hfresh with ⟨hnone, rfl⟩ | ⟨rows, u, row, hun, hu, htracks⟩
    · have hlatest : (start.seed resetRegs).latest = some (Database.seedRow resetRegs) := by
        rw [RunArgs.seed_fresh hfresh]
        rfl
      have hun : args.Uninterrupted start [] [] (start.resumed (Database.seedRow resetRegs)) :=
        .start hlatest
      have hsettled : Driver.settled ⟨start, .down⟩ = start.resumed (Database.seedRow resetRegs) := by
        rw [Driver.settled, hlatest]
        rfl
      rw [hnone, hsettled]
      exact ⟨[], _, hun, ⟨rfl, rfl, rfl, rfl, rfl, rfl, rfl⟩, hun.frames hfresh hframes⟩
    · have hreads := htracks.reads hu
      refine ⟨rows, u, hun, hreads, ?_⟩
      rw [hreads.framesOut]
      exact hun.frames hfresh hframes
  · intro e d' hmeets hdrive
    constructor
    · rintro rfl hne
      have hzero : d.db.rowsOf 0 ≠ [] := hmeets.resolve_left hne
      rw [RunArgs.drive] at hdrive
      split at hdrive
      · obtain ⟨row, -, rfl⟩ := Option.map_eq_some_iff.mp hdrive
        rw [Database.seed, if_neg hzero]
      · cases hdrive
    · rintro rfl
      rcases hrun.tracks hfresh with ⟨-, rfl⟩ | ⟨rows, u, row, -, -, htracks⟩
      · cases hdrive
      · rw [htracks.owes.latest, (htracks.statement hdrive).owes.latest]

/-! ### A guest that spins, and one that breaks -/

/-- `jal x0, 0`. -/
def Cpu.spins : Cpu :=
  .new (((Memory.new Layout.four.map (.registers (.new 1 one_ipms_ne_zero))).loadImage
    [0x6F, 0x00, 0x00, 0x00] ramBase).2.setTextRegion (some (ramBase, Layout.four.textStop))) ramBase

/-- Its database, loaded but not seeded. -/
def Database.spins : Database := { Database.loaded .four .spins with batchCommit := [], cpuState := [] }

/-- A run of one or two instructions a batch. -/
def RunArgs.spins : RunArgs := ⟨Layout.four.args 8, 2, 8192, none⟩

/-- Several events, if each can happen. -/
def RunArgs.drives (args : RunArgs) (d : Driver) (es : List Event) : Option Driver :=
  es.foldlM (fun d e => args.drive d e) d

/-- A start with its recovery. -/
def Event.recovered : List Event := .restart :: List.replicate 6 .statement

/-- A batch without a frame. -/
def Event.batch : List Event := .commit [] :: List.replicate 6 .statement

/-- Its database too, for a guest whose third instruction announces frame 7. -/
def Database.announces : Database :=
  { Database.loaded .text4 .announces with batchCommit := [], cpuState := [] }

/-- A run of three instructions a batch. -/
def RunArgs.announces : RunArgs := ⟨Layout.text4.args 8, 3, 8192, none⟩

/-- A batch that dies after one flush, the next start with its recovery, and another batch. -/
def Event.interrupted : List Event :=
  Event.recovered ++ [.commit [], .statement, .crash] ++ Event.recovered ++ [.commit []]

instance (args : RunArgs) (d : Driver) (e : Event) : Decidable (args.Meets d e) :=
  match e with
  | .restart => decidable_of_iff (d.db.batchCommit.isEmpty = true ∨ (d.db.rowsOf 0).isEmpty = false)
      (by simp [RunArgs.Meets])
  | .commit _ => decidable_of_iff (d.db.latest.all fun row => !args.ends row)
      (by simp [RunArgs.Meets, Option.all_eq_true])
  | .crash => .isTrue trivial
  | .statement => .isTrue trivial

/-- Several events, each of which can happen and meets the condition. -/
def RunArgs.drivesMeeting (args : RunArgs) (d : Driver) : List Event → Option Driver
  | [] => some d
  | e :: es => if args.Meets d e then (args.drive d e).bind (args.drivesMeeting · es) else none

theorem RunArgs.Driven.append {args : RunArgs} {start d d' : Driver} {before es : List Event}
    (h : args.Driven start before d) (hdrives : args.drivesMeeting d es = some d') :
    args.Driven start (before ++ es) d' := by
  induction es generalizing before d with
  | nil =>
    cases hdrives
    rw [List.append_nil]
    exact h
  | cons e es ih =>
    rw [RunArgs.drivesMeeting] at hdrives
    split at hdrives
    · obtain ⟨next, hdrive, hrest⟩ := Option.bind_eq_some_iff.mp hdrives
      rw [List.append_cons]
      exact ih (h.snoc ‹_› hdrive) hrest
    · cases hdrives

/-- A batch that announces a frame, cut short, recovered and followed by another: the frame
is read out once. -/
theorem crash_recovery_spins :
    ∃ d rows, RunArgs.announces.Driven ⟨.announces, .down⟩ Event.interrupted d ∧
      d.settled.framesOut.map (·.frameNo) = [7] ∧
      (d.settled.framesOut.map (·.frameNo)).Nodup ∧
      (∃ u, RunArgs.announces.Uninterrupted .announces [[], []] rows u ∧ Reads d.settled u) ∧
      ∃ row ∈ rows, row.hasFrame = 1 ∧ row.frameNo = 7 := by
  have hread : (RunArgs.announces.drivesMeeting ⟨.announces, .down⟩ Event.interrupted).map
      (fun d => d.settled.framesOut.map (·.frameNo)) = some [7] := by
    decide +kernel
  obtain ⟨d, hdrives, hframes⟩ := Option.map_eq_some_iff.mp hread
  have hrun : RunArgs.announces.Driven ⟨.announces, .down⟩ Event.interrupted d :=
    RunArgs.Driven.nil.append hdrives
  obtain ⟨rows, u, hun, hreads, hnodup, hmem⟩ := (crash_recovery rfl rfl hrun).1
  refine ⟨d, rows, hrun, hframes, hnodup, ⟨u, hun, hreads⟩, (hmem 7).mp ?_⟩
  rw [hframes]
  exact List.mem_singleton_self 7

/-- After the seventeenth batch retention has dropped row zero, and a restart seeds it
again.  And a restart after a batch that halted commits another, which the
uninterrupted run would not. -/
theorem restart_seeds_again :
    ((RunArgs.spins.drives ⟨.spins, .down⟩
        (Event.recovered ++ (List.replicate 17 Event.batch).flatten ++ [.crash])).bind fun d =>
      (RunArgs.spins.drive d .restart).map fun d' =>
        (d.db.batchCommit.map (·.batchId), d'.db.batchCommit.map (·.batchId))) =
      some (List.range' 1 17, List.range' 1 17 ++ [0]) ∧
    (RunArgs.spins.drives ⟨.breaks, .down⟩
        (Event.recovered ++ [.commit [], .crash] ++ Event.recovered ++ [.commit []])).map (fun d =>
      d.db.batchCommit.map fun row => (row.batchId, row.icount, RunArgs.spins.ends row)) =
      some [(0, 0, false), (1, 1, true), (2, 1, true)] := by
  constructor
  · decide +kernel
  · decide +kernel

end ClickDoom
