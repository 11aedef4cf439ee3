import ClickDoom.Executor.Boundaries

/-! # The batch loops of the driver

`driver/src/emulation/run.rs` and `driver/src/emulation/diff.rs`: both commit batch
after batch, flush each, and compare the checkpoints against the reference
emulator's trace.  `run` reads them from the batch's own columns and from its row,
`diff` cuts its batches at every boundary and reads the row only.

A line of the trace is its tab separated fields.  The loops keep the counts they
compared; the source keeps how many.  An interrupt, and the key rows that arrive
between batches, come from outside: a run is given the rows that arrive before each
batch it starts, and is interrupted where they end.
-/
namespace ClickDoom
open ClickHouse

abbrev Line := List String

/-- `BATCH_COMMIT_RETENTION_N`. -/
def batchCommitRetention : Nat := 16

/-! ## Lines -/

/-- A number in `w` lower case hex digits. -/
def hexDigits (w n : Nat) : String :=
  String.ofList ((List.range w).reverse.map fun i => Nat.digitChar (n / 16 ^ i % 16))

section
variable (xxh64 : List Byte → BitVec 64)

/-- The hash of the program counter and the registers, each little-endian. -/
def regHashOf (pc : Word) (regs : List Word) : BitVec 64 :=
  xxh64 (Database.regionBytes (pc :: regs))

/-- A line without the memory hashes. -/
def registerLine (icount : Nat) (pc : Word) (regs : List Word) : Line :=
  [toString icount, hexDigits 8 pc.toNat, hexDigits 16 (regHashOf xxh64 pc regs).toNat]

namespace Database

/-- Of two rows of `cpu_state`, the one with the greater batch number. -/
def laterCpu (best : Option (TableRow Nat CpuRow)) (row : TableRow Nat CpuRow) :
    Option (TableRow Nat CpuRow) :=
  match best with
  | none => some row
  | some kept => if kept.key ≤ row.key then some row else some kept

/-- The latest row of `cpu_state`. -/
def latestCpu (db : Database) : Option CpuRow := (db.cpuState.foldl laterCpu none).map (·.value)

/-- `reg_checkpoint_sql`. -/
def regCheckpoint (db : Database) : Option Line :=
  db.latestCpu.map fun row => registerLine xxh64 row.icount row.pc row.regs

/-- `checkpoint_sql`. -/
def checkpoint (db : Database) : Option Line :=
  db.latestCpu.map fun row =>
    registerLine xxh64 row.icount row.pc row.regs ++
      [ hexDigits 16 (xxh64 (regionBytes ((Table.readFinal db.ram).map (·.2)))).toNat
      , hexDigits 16 (xxh64 (regionBytes (denseWords db.framebuffer 16000) ++
          regionBytes (denseWords db.palette 192))).toNat ]

/-- `batch_checkpoints_sql`: the checkpoints a batch carries, in the order of their
counts. -/
def batchCheckpoints (db : Database) (batchId : Nat) : List CpEntry :=
  ((db.rowsOf batchId).flatMap (·.cp.entries)).mergeSort (·.icount ≤ ·.icount)

/-- The line of the batch's end: with the memory hashes where the trace has them. -/
def endCheckpoint (db : Database) (icount : Nat) : Option Line :=
  if icount % ramHashInterval = 0 then db.checkpoint xxh64 else db.regCheckpoint xxh64

end Database
end

/-- `trace_line_for`. -/
def traceLineFor (trace : List Line) (icount : Nat) : Option Line :=
  trace.find? (·.head? = some (toString icount))

/-- `register_fields`. -/
def registerFields (line : Line) : Line := line.take 3

/-! ## `emulation run` -/

inductive RunError
  | noRow
  | batchIdMoved (expected found : Nat)
  | noTraceLine (icount : Nat)
  | checkpointMismatch (icount : Nat) (expected actual : Line)
  | framesOutGap (rows distinct lowest highest : Nat)
  | checkpointCountShortfall (compared expected start stop : Nat)
  | fatalHalt (reason : String) (icount target : Nat)
  deriving DecidableEq

/-- What a run stopped for. -/
inductive RunStop
  | interrupted
  | haltedAtOrPastTarget (reason : String)
  | reachedTarget
  deriving DecidableEq

structure RunOutcome where
  stop : RunStop
  finalBatchId : Nat
  finalIcount : Nat
  framesObserved : Nat
  regCheckpointsCompared : Nat
  deriving DecidableEq

/-- The variables of the loop. -/
structure RunState where
  db : Database
  icount : Nat
  batchId : Nat
  haltedReason : String
  reachedTarget : Bool
  interrupted : Bool
  framesObserved : Nat
  compared : List Nat

/-- The arguments of `emulation run` the loop reads; the builder's, the high-water
mark among them, are in `step`. -/
structure RunArgs where
  step : StepArgs
  k : Word
  targetIcount : Nat
  stopAtFrame : Option Word

/-- Where a batch that starts at `icount` may get to at most: the next multiple of
`interval`, or the target. -/
def stopAt (interval icount target : Nat) : Nat := min ((icount / interval + 1) * interval) target

/-- Compares one line against the trace, of which `expect` is asked. -/
def compareLine (trace : List Line) (icount : Nat) (expect : Line → Line) (actual : Line) :
    Except RunError Unit :=
  match traceLineFor trace icount with
  | none => .error (.noTraceLine icount)
  | some line =>
    if actual = expect line then .ok () else .error (.checkpointMismatch icount (expect line) actual)

/-- `compare_batch_checkpoints`: the counts compared, up to the first line that
differs. -/
def compareBatchCheckpoints (xxh64 : List Byte → BitVec 64) (trace : List Line) :
    List CpEntry → Except RunError (List Nat)
  | [] => .ok []
  | e :: entries => do
    compareLine trace e.icount registerFields (registerLine xxh64 e.icount e.pc e.regs)
    let rest ← compareBatchCheckpoints xxh64 trace entries
    return e.icount :: rest

/-- The boundary a batch ends on, out of its row. -/
def compareEnd (xxh64 : List Byte → BitVec 64) (trace : List Line) (db : Database) (icount : Nat) :
    Except RunError (List Nat) :=
  if isBoundary icount then
    match db.endCheckpoint xxh64 icount with
    | none => .error .noRow
    | some actual => do
      compareLine trace icount
        (if icount % ramHashInterval = 0 then id else registerFields) actual
      return [icount]
  else .ok []

/-- The flushes of a committed batch, and the retention after them. -/
def Database.settle (batchId : Nat) (db : Database) : Database :=
  (db.flush batchId).retention batchId batchCommitRetention

namespace RunArgs
variable (args : RunArgs)

def stepK (icount : Nat) : Nat :=
  let remaining := stopAt ramHashInterval icount args.targetIcount - icount
  if 0 < remaining ∧ remaining < args.k.toNat then remaining else args.k.toNat

/-- `--stop-at-frame` is reached. -/
def stopsAtFrame (frameNo : Word) : Bool :=
  match args.stopAtFrame with
  | none => false
  | some frame => frame ≤ frameNo

/-- What follows the flush of a batch: its checkpoints are compared, a halt ends the
loop, and a frame is read out.  The second part says whether the loop ends. -/
def afterFlush (xxh64 : List Byte → BitVec 64) (trace : List Line) (s : RunState) (db : Database)
    (row : CommitRow) : Except RunError (RunState × Bool) := do
  let inside ← compareBatchCheckpoints xxh64 trace (db.batchCheckpoints row.batchId)
  let atEnd ← compareEnd xxh64 trace db row.icount
  let s := { s with
    db := db, icount := row.icount, batchId := row.batchId
    compared := s.compared ++ (inside ++ atEnd) }
  if row.halted = 1 then return ({ s with haltedReason := row.haltReason }, true)
  else if row.hasFrame = 1 then
    return ({ s with
        db := db.frameReadout row.batchId, framesObserved := s.framesObserved + 1
        reachedTarget := args.stopsAtFrame row.frameNo },
      args.stopsAtFrame row.frameNo)
  else return (s, false)

/-- One turn of the loop, and whether it is the last. -/
def turn (xxh64 : List Byte → BitVec 64) (trace : List Line) (s : RunState) :
    Except RunError (RunState × Bool) :=
  let db := s.db.batch args.step (args.stepK s.icount)
  match db.latest with
  | none => .error .noRow
  | some row =>
    if row.batchId ≠ s.batchId + 1 then .error (.batchIdMoved (s.batchId + 1) row.batchId)
    else args.afterFlush xxh64 trace s (db.settle (s.batchId + 1)) row

/-- The loop, over the key rows that arrive before each batch. -/
def loop (xxh64 : List Byte → BitVec 64) (trace : List Line) :
    List (List (BitVec 16)) → RunState → Except RunError RunState
  | [], s => .ok { s with interrupted := true }
  | keys :: feed, s =>
    if args.targetIcount ≤ s.icount then .ok { s with reachedTarget := true }
    else do
      let db := { s.db with inputQueue := s.db.inputQueue ++ keys }
      let (s, last) ← args.turn xxh64 trace { s with db := db }
      if last then return s else loop xxh64 trace feed s

end RunArgs

namespace RunState

/-- The state the loop starts in, resumed at `row`. -/
def start (db : Database) (row : CommitRow) : RunState where
  db := db
  icount := row.icount
  batchId := row.batchId
  haltedReason := ""
  reachedTarget := false
  interrupted := false
  framesObserved := 0
  compared := []

variable (s : RunState) (resume : Nat)

/-- Every boundary between the resume point and here, once each. -/
def expected : Nat := s.icount / checkpointInterval - resume / checkpointInterval

/-- The count check. -/
def countCheck : Except RunError Unit :=
  if s.compared.length ≠ s.expected resume then
    .error (.checkpointCountShortfall s.compared.length (s.expected resume) resume s.icount)
  else .ok ()

/-- The frame numbers read out have no gap and none twice. -/
def framesOutCheck : Except RunError Unit :=
  let frames := s.db.framesOut.map (·.frameNo.toNat)
  let lowest := frames.min?.getD 0
  let highest := frames.max?.getD 0
  let span := highest - lowest + 1
  if 0 < frames.length ∧ (frames.length ≠ span ∨ frames.dedup.length ≠ span) then
    .error (.framesOutGap frames.length frames.dedup.length lowest highest)
  else .ok ()

/-- What the run reports once the loop has ended. -/
def finish (targetIcount : Nat) : Except RunError RunOutcome := do
  s.framesOutCheck
  s.countCheck resume
  let outcome stop : RunOutcome := ⟨stop, s.batchId, s.icount, s.framesObserved, s.compared.length⟩
  if s.interrupted then return outcome .interrupted
  else if s.haltedReason ≠ "" then
    if s.icount < targetIcount then .error (.fatalHalt s.haltedReason s.icount targetIcount)
    else return outcome (.haltedAtOrPastTarget s.haltedReason)
  else return outcome .reachedTarget

end RunState

/-- `recover`: redoes every derivation of the batch's row. -/
def Database.recover (batchId : Nat) (db : Database) : Database :=
  (db.flush batchId).frameReadout batchId

/-- `RESET_REGS`. -/
def resetRegs : List Word := List.replicate 31 0

/-- The database a run starts its loop from. -/
def Database.resumed (db : Database) (row : CommitRow) : Database :=
  (db.seed resetRegs).recover row.batchId

/-- `emulation run`. -/
def RunArgs.run (args : RunArgs) (xxh64 : List Byte → BitVec 64) (trace : List Line)
    (feed : List (List (BitVec 16))) (db : Database) : Except RunError RunOutcome :=
  match (db.seed resetRegs).latest with
  | none => .error .noRow
  | some row => do
    let s ← args.loop xxh64 trace feed (.start (db.resumed row) row)
    s.finish row.icount args.targetIcount

/-! ## `emulation diff` -/

inductive DiffError
  | noRow
  | sqlcpuOutranRefemuHalt (icount refemuHaltIcount : Nat) (refemuHaltReason : String)
  | noTraceLine (icount : Nat)
  | checkpointMismatch (icount : Nat) (expected actual : Line)
  | sqlcpuHaltedAlone (reason : String) (icount target : Nat)
  | refemuHaltedAlone (reason : String) (icount : Nat)
  | haltShapeMismatch (refemuReason : String) (refemuIcount : Nat) (sqlcpuReason : String)
      (sqlcpuIcount : Nat)
  | oracleTraceShortfall (interval actual expected finalIcount : Nat)
  | countShortfall (interval compared expected finalIcount : Nat)
  deriving DecidableEq

/-- Where and why the reference emulator halted. -/
structure RefemuHalt where
  reason : String
  icount : Nat

/-- What `diff` is given: the builder's arguments, the target, and the reference
emulator's trace and halt report. -/
structure DiffArgs where
  step : StepArgs
  targetIcount : Nat
  trace : List Line
  refemuHalt : Option RefemuHalt

structure DiffState where
  db : Database
  icount : Nat
  compared : List Nat
  ramHashCompared : List Nat
  halted : Bool
  haltReason : String
  batchesRun : Nat

namespace DiffArgs
variable (args : DiffArgs) (xxh64 : List Byte → BitVec 64)

/-- The comparison at the end of a batch. -/
def compareEnd (db : Database) (icount : Nat) : Except DiffError (List Nat) :=
  if isBoundary icount then
    match args.refemuHalt.filter (·.icount < icount) with
    | some halt => .error (.sqlcpuOutranRefemuHalt icount halt.icount halt.reason)
    | none =>
      match db.endCheckpoint xxh64 icount, traceLineFor args.trace icount with
      | none, _ => .error .noRow
      | _, none => .error (.noTraceLine icount)
      | some actual, some line =>
        if actual = line then .ok [icount] else .error (.checkpointMismatch icount line actual)
  else .ok []

/-- A batch goes up to the next boundary, or the target. -/
def stepK (icount : Nat) : Nat := stopAt checkpointInterval icount args.targetIcount - icount

/-- One turn of the loop. -/
def turn (s : DiffState) : Except DiffError DiffState :=
  let db := s.db.batch args.step (args.stepK s.icount)
  let db := db.settle (s.batchesRun + 1)
  match db.latestCpu with
  | none => .error .noRow
  | some row => do
    let compared ← args.compareEnd xxh64 db row.icount
    return { s with
      db := db, icount := row.icount, batchesRun := s.batchesRun + 1
      compared := s.compared ++ compared
      ramHashCompared := s.ramHashCompared ++ compared.filter (· % ramHashInterval = 0)
      halted := row.halted = 1
      haltReason := if row.halted = 1 then row.haltReason else s.haltReason }

/-- The loop.  Every batch that does not halt counts on, so as many turns as the
target are enough. -/
def loop : Nat → DiffState → Except DiffError DiffState
  | 0, s => .ok s
  | turns + 1, s =>
    if s.icount < args.targetIcount ∧ s.halted = false then do
      let s ← args.turn xxh64 s
      loop turns s
    else .ok s

/-- The state the loop starts in: a database of its own, seeded and flushed. -/
def start (db : Database) : DiffState where
  db := (db.seed resetRegs).cpuStateFlush 0
  icount := 0
  compared := []
  ramHashCompared := []
  halted := false
  haltReason := ""
  batchesRun := 0

/-- The two engines halted alike. -/
def haltShape (s : DiffState) : Except DiffError Unit :=
  match s.halted, args.refemuHalt with
  | true, none => .error (.sqlcpuHaltedAlone s.haltReason s.icount args.targetIcount)
  | false, some halt =>
    if halt.icount ≤ s.icount then .error (.refemuHaltedAlone halt.reason halt.icount) else .ok ()
  | true, some halt =>
    if s.icount ≠ halt.icount ∨ s.haltReason ≠ halt.reason then
      .error (.haltShapeMismatch halt.reason halt.icount s.haltReason s.icount)
    else .ok ()
  | false, none => .ok ()

/-- `trace_rows_in_range`: the lines up to a count, and those of them with the
memory hashes. -/
def traceRowsInRange (finalIcount : Nat) : Nat × Nat :=
  let rows := args.trace.filter fun line => (line.head?.bind String.toNat?).any (· ≤ finalIcount)
  (rows.length, (rows.filter (·.length = 5)).length)

/-- One interval's count check. -/
def countCheck (interval rows compared finalIcount : Nat) : Except DiffError Unit :=
  if rows ≠ finalIcount / interval then
    .error (.oracleTraceShortfall interval rows (finalIcount / interval) finalIcount)
  else if compared ≠ finalIcount / interval then
    .error (.countShortfall interval compared (finalIcount / interval) finalIcount)
  else .ok ()

/-- The differential comparison, on a database of its own. -/
def run (db : Database) : Except DiffError DiffState := do
  let s ← args.loop xxh64 args.targetIcount (start db)
  args.haltShape s
  let rows := args.traceRowsInRange s.icount
  countCheck checkpointInterval rows.1 s.compared.length s.icount
  countCheck ramHashInterval rows.2 s.ramHashCompared.length s.icount
  return s

end DiffArgs
end ClickDoom
