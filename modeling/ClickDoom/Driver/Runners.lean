import ClickDoom.Driver.Recovery

/-! # Two runners against one database

Two drivers, each one statement at a time, in any order.  The batch number is chosen
inside the insert, so a row may be folded over tables that still lack the write log
of the row before it.  The runner that did so finds another number than the one it
expected when it reads its row back, and stops before it flushes anything.
-/
namespace ClickDoom
open ClickHouse

/-- Where a runner is. -/
inductive Phase
  | off
  | seeding
  | seeded
  | working (batchId icount : Nat) (todo : List Stmt) (ends : Bool)
  | checking (batchId : Nat)
  | stopped (error : Option RunError)
  deriving DecidableEq

/-- The database, the rows whose flush is followed, and both runners.  The rows
followed are those of the latest number at the start and those committed since; an
older row of the start database is taken as that database has it. -/
structure Runners where
  db : Database
  history : List CommitRow
  phase : Bool → Phase

/-- What a runner does next: its next statement, with the key rows that have arrived,
or an error out of a comparison, which comes after the flushes. -/
inductive Act
  | next (keys : List (BitVec 16))
  | quit (error : RunError)

namespace Runners

/-- Moves one runner. -/
def set (s : Runners) (who : Bool) (phase : Phase) : Runners :=
  { s with phase := Function.update s.phase who phase }

/-- The insert of a batch by a runner that stands at `icount`. -/
def insert (args : RunArgs) (s : Runners) (icount : Nat) (keys : List (BitVec 16)) : Runners :=
  let db := ({ s.db with inputQueue := s.db.inputQueue ++ keys } : Database)
  match db.latest with
  | none => s
  | some prev =>
    { s with
      db := db.batch args.step (args.stepK icount)
      history := s.history ++ [db.batchRow args.step (args.stepK icount) prev] }

/-- The id check. -/
def check (args : RunArgs) (s : Runners) (batchId : Nat) : Phase :=
  match s.db.latest with
  | none => .stopped (some .noRow)
  | some row =>
    if row.batchId ≠ batchId + 1 then .stopped (some (.batchIdMoved (batchId + 1) row.batchId))
    else .working (batchId + 1) row.icount (Stmt.ofRow row) (args.ends row)

/-- One statement of one runner. -/
def act (args : RunArgs) (who : Bool) (s : Runners) : Act → Option Runners
  | .quit error =>
    match s.phase who with
    | .working _ _ todo _ =>
      if todo = [] ∨ todo = [.frameReadout] then some (s.set who (.stopped (some error))) else none
    | _ => none
  | .next keys =>
    match s.phase who with
    | .off => some (s.set who (if s.db.rowsOf 0 = [] then .seeding else .seeded))
    | .seeding =>
      some (set { s with db := { s.db with
        batchCommit := s.db.batchCommit ++ [Database.seedRow resetRegs] } } who .seeded)
    | .seeded =>
      match s.db.latest with
      | none => some (s.set who (.stopped (some .noRow)))
      | some row => some (s.set who (.working row.batchId row.icount Stmt.recovery false))
    | .working batchId icount (stmt :: todo) ends =>
      some (set { s with db := stmt.exec batchId s.db } who (.working batchId icount todo ends))
    | .working batchId icount [] ends =>
      if ends = true ∨ args.targetIcount ≤ icount then some (s.set who (.stopped none))
      else some ((s.insert args icount keys).set who (.checking batchId))
    | .checking batchId => some (s.set who (s.check args batchId))
    | .stopped _ => none

end Runners

/-- The rows an earlier run may have left underived: those no number exceeds. -/
def Database.newest (db : Database) : List CommitRow :=
  db.batchCommit.filter fun row => ∀ r ∈ db.batchCommit, r.batchId ≤ row.batchId

/-- Any order of the two runners' statements. -/
inductive Interleaved (args : RunArgs) (start : Database) : Runners → Prop
  | start : Interleaved args start ⟨start, start.newest, fun _ => .off⟩
  | act {s s' : Runners} (h : Interleaved args start s) (who : Bool) (a : Act)
    (hact : s.act args who a = some s') : Interleaved args start s'

/-! ## What is flushed stays flushed -/

/-- The rows of one flush are in their table. -/
def Stmt.Done (db : Database) (row : CommitRow) : Stmt → Prop
  | .ramFlush => ∀ r ∈ row.wl.rows ramBaseWord.toNat, r ∈ db.ram
  | .framebufferFlush => ∀ r ∈ row.fbWl.rows 0, r ∈ db.framebuffer
  | .paletteFlush => ∀ r ∈ row.palWl.rows 0, r ∈ db.palette
  | .consoleOutFlush => ∀ r ∈ consoleRows row.batchId row.consoleBytes, r ∈ db.consoleOut
  | .cpuStateFlush => (⟨row.batchId, row.cpu, 0⟩ : TableRow Nat CpuRow) ∈ db.cpuState
  | .retention => True
  | .frameReadout => True

/-- The whole write log of a row has reached the tables. -/
def Flushed (db : Database) (row : CommitRow) : Prop := ∀ stmt ∈ Stmt.flushes, stmt.Done db row

/-- No table has lost a row. -/
structure Grows (db db' : Database) : Prop where
  ram : ∀ r ∈ db.ram, r ∈ db'.ram
  framebuffer : ∀ r ∈ db.framebuffer, r ∈ db'.framebuffer
  palette : ∀ r ∈ db.palette, r ∈ db'.palette
  consoleOut : ∀ r ∈ db.consoleOut, r ∈ db'.consoleOut
  cpuState : ∀ r ∈ db.cpuState, r ∈ db'.cpuState

theorem Grows.refl (db : Database) : Grows db db :=
  ⟨fun _ => id, fun _ => id, fun _ => id, fun _ => id, fun _ => id⟩

theorem Grows.trans {a b c : Database} (h : Grows a b) (h' : Grows b c) : Grows a c :=
  ⟨fun r hr => h'.ram r (h.ram r hr), fun r hr => h'.framebuffer r (h.framebuffer r hr),
    fun r hr => h'.palette r (h.palette r hr), fun r hr => h'.consoleOut r (h.consoleOut r hr),
    fun r hr => h'.cpuState r (h.cpuState r hr)⟩

theorem Stmt.Done.mono {db db' : Database} {row : CommitRow} {stmt : Stmt} (h : stmt.Done db row)
    (hgrows : Grows db db') : stmt.Done db' row := by
  cases stmt with
  | ramFlush => exact fun r hr => hgrows.ram r (h r hr)
  | framebufferFlush => exact fun r hr => hgrows.framebuffer r (h r hr)
  | paletteFlush => exact fun r hr => hgrows.palette r (h r hr)
  | consoleOutFlush => exact fun r hr => hgrows.consoleOut r (h r hr)
  | cpuStateFlush => exact hgrows.cpuState _ h
  | retention => trivial
  | frameReadout => trivial

theorem Flushed.mono {db db' : Database} {row : CommitRow} (h : Flushed db row)
    (hgrows : Grows db db') : Flushed db' row := fun stmt hstmt => (h stmt hstmt).mono hgrows

theorem Stmt.grows_exec (batchId : Nat) (stmt : Stmt) (db : Database) :
    Grows db (stmt.exec batchId db) := by
  cases stmt <;> constructor <;> intro r hr <;>
    first | exact hr | exact List.mem_append_left _ hr

/-- A flush of a batch flushes every row of it. -/
theorem Stmt.done_exec {db : Database} {row : CommitRow} (h : row ∈ db.batchCommit) (stmt : Stmt) :
    stmt.Done (stmt.exec row.batchId db) row := by
  have hrow : row ∈ db.rowsOf row.batchId := List.mem_filter.mpr ⟨h, decide_eq_true rfl⟩
  cases stmt with
  | cpuStateFlush => exact List.mem_append_right _ (List.mem_map.mpr ⟨row, hrow, rfl⟩)
  | retention => trivial
  | frameReadout => trivial
  | _ => exact fun r hr => List.mem_append_right _ (List.mem_flatMap.mpr ⟨row, hrow, hr⟩)

/-- A statement keeps every table's rows and the rows of the latest number. -/
structure Kept (db db' : Database) (row : CommitRow) : Prop where
  grows : Grows db db'
  latest : db'.latest = some row
  mem : ∀ r ∈ db'.batchCommit, r ∈ db.batchCommit
  keeps : ∀ r ∈ db.batchCommit, r.batchId = row.batchId → r ∈ db'.batchCommit

theorem Stmt.kept_exec {db : Database} {row : CommitRow} (h : db.latest = some row) {batchId : Nat}
    (hle : batchId ≤ row.batchId) (stmt : Stmt) : Kept db (stmt.exec batchId db) row := by
  have hgrows := stmt.grows_exec batchId db
  cases stmt with
  | retention =>
    have hkeep : ∀ n, n = row.batchId → ¬n < batchId - batchCommitRetention := by
      intro n hn
      omega
    refine ⟨hgrows, ?_, fun r hr => List.mem_of_mem_filter hr, fun r hr hid => ?_⟩
    · exact Database.latest_eq_some.mpr
        ((Database.latest_eq_some.mp h).filter (decide_eq_true (hkeep _ rfl)))
    · exact List.mem_filter.mpr ⟨hr, decide_eq_true (hkeep _ hid)⟩
  | _ => exact ⟨hgrows, h, fun r hr => hr, fun r hr _ => hr⟩

/-- A row committed, after key rows have arrived. -/
def Database.commit (db : Database) (keys : List (BitVec 16)) (new : CommitRow) : Database :=
  { db with inputQueue := db.inputQueue ++ keys, batchCommit := db.batchCommit ++ [new] }

theorem Database.grows_commit (db : Database) (keys : List (BitVec 16)) (new : CommitRow) :
    Grows db (db.commit keys new) :=
  ⟨fun _ => id, fun _ => id, fun _ => id, fun _ => id, fun _ => id⟩

/-! ## The invariant -/

/-- Every followed row before number `n` is flushed. -/
def AllBefore (db : Database) (history : List CommitRow) (n : Nat) : Prop :=
  ∀ row ∈ history, row.batchId < n → Flushed db row

/-- A runner that has not read the latest row yet. -/
def Phase.Starting : Phase → Prop
  | .off | .seeding | .seeded => True
  | _ => False

/-- A runner whose batch is the latest. -/
def Phase.Current (last : Nat) : Phase → Prop
  | .working batchId .. => batchId = last
  | .checking batchId => batchId + 1 = last
  | _ => True

/-- What a runner relies on, as long as its batch is the latest. -/
def Phase.Fine (db : Database) (history : List CommitRow) (last : Nat) : Phase → Prop
  | .working batchId _ todo _ => batchId ≤ last ∧ (batchId = last → AllBefore db history last ∧
      ∀ stmt ∈ Stmt.flushes, stmt ∉ todo →
        ∀ row ∈ db.batchCommit, row.batchId = last → stmt.Done db row)
  | .checking batchId => batchId + 1 ≤ last ∧ (batchId + 1 = last → AllBefore db history last)
  | _ => True

/-- The state of two runners once there is a row.  A runner that has not read it
yet finds everything before it flushed, since the other one is alone. -/
structure Runners.Holds (s : Runners) (row : CommitRow) : Prop where
  latest : s.db.latest = some row
  le : ∀ r ∈ s.history, r.batchId ≤ row.batchId
  mem : ∀ r ∈ s.history, r.batchId = row.batchId → r ∈ s.db.batchCommit
  fine : ∀ who, (s.phase who).Fine s.db s.history row.batchId
  alone : ∀ who, (s.phase who).Starting →
    AllBefore s.db s.history row.batchId ∧ (s.phase !who).Current row.batchId
  seeding : ∀ who, s.phase who = .seeding → ∀ r ∈ s.db.batchCommit, r.batchId = 0 →
    r = Database.seedRow resetRegs

/-- Nothing has been committed. -/
structure Runners.Fresh (s : Runners) : Prop where
  batchCommit : s.db.batchCommit = []
  history : s.history = []
  phase : ∀ who, s.phase who = .off ∨ s.phase who = .seeding

theorem AllBefore.mono {db db' : Database} {history : List CommitRow} {n : Nat}
    (h : AllBefore db history n) (hgrows : Grows db db') : AllBefore db' history n :=
  fun row hrow hlt => (h row hrow hlt).mono hgrows

namespace Runners
variable {args : RunArgs} {s : Runners} {row : CommitRow} {who : Bool}

theorem set_self (phase : Phase) : (s.set who phase).phase who = phase := Function.update_self ..

theorem set_other (phase : Phase) : (s.set who phase).phase (!who) = s.phase !who :=
  Function.update_of_ne (by cases who <;> decide) _ _

/-- What holds of the runner that moved and of the other holds of both. -/
theorem forall_who {P : Bool → Prop} (who : Bool) (hself : P who) (hother : P !who) (who' : Bool) :
    P who' := by
  by_cases h : who' = who
  · rw [h]
    exact hself
  · have hnot : who' = !who := by
      revert h
      cases who <;> cases who' <;> decide
    rw [hnot]
    exact hother

/-- A statement of either runner keeps the invariant. -/
theorem Holds.kept (h : s.Holds row) {db : Database} (hkept : Kept s.db db row) :
    ({ s with db := db } : Runners).Holds row where
  latest := hkept.latest
  le := h.le
  mem r hr hid := hkept.keeps r (h.mem r hr hid) hid
  fine := by
    intro who
    have hfine := h.fine who
    change (s.phase who).Fine db s.history row.batchId
    cases hphase : s.phase who with
    | working batchId icount todo ends =>
      rw [hphase] at hfine
      refine ⟨hfine.1, fun hlast => ⟨(hfine.2 hlast).1.mono hkept.grows, ?_⟩⟩
      intro stmt hstmt htodo r hr hid
      exact ((hfine.2 hlast).2 stmt hstmt htodo r (hkept.mem r hr) hid).mono hkept.grows
    | checking batchId =>
      rw [hphase] at hfine
      exact ⟨hfine.1, fun hlast => (hfine.2 hlast).mono hkept.grows⟩
    | _ => trivial
  alone who hstarting := ⟨(h.alone who hstarting).1.mono hkept.grows, (h.alone who hstarting).2⟩
  seeding who hseeding r hr := h.seeding who hseeding r (hkept.mem r hr)

/-- A runner moves. -/
theorem Holds.set (h : s.Holds row) {phase : Phase} (hfine : phase.Fine s.db s.history row.batchId)
    (halone : phase.Starting → (s.phase who).Starting)
    (hcurrent : (s.phase who).Current row.batchId → phase.Current row.batchId)
    (hseeding : phase = .seeding → ∀ r ∈ s.db.batchCommit, r.batchId = 0 →
      r = Database.seedRow resetRegs) : (s.set who phase).Holds row where
  latest := h.latest
  le := h.le
  mem := h.mem
  fine := by
    refine forall_who who ?_ ?_
    · rw [set_self]
      exact hfine
    · rw [set_other]
      exact h.fine !who
  alone := by
    refine forall_who who ?_ ?_
    · rw [set_self, set_other]
      exact fun hstarting => h.alone who (halone hstarting)
    · rw [set_other, Bool.not_not, set_self]
      intro hstarting
      have hother := h.alone (!who) hstarting
      rw [Bool.not_not] at hother
      exact ⟨hother.1, hcurrent hother.2⟩
  seeding := by
    refine forall_who who ?_ ?_
    · rw [set_self]
      exact hseeding
    · rw [set_other]
      exact h.seeding !who

/-- Seeding again adds a row that is there, or one that is not the latest. -/
theorem Holds.seed (h : s.Holds row) (hseeding : s.phase who = .seeding) :
    ({ s with db := { s.db with
      batchCommit := s.db.batchCommit ++ [Database.seedRow resetRegs] } } : Runners).Holds row := by
  have hlatest := Database.latest_eq_some.mp h.latest
  have hrows := h.seeding who hseeding
  have hrow : row.batchId = 0 → row = Database.seedRow resetRegs := hrows row hlatest.mem
  have hmem : ∀ r ∈ s.db.batchCommit ++ [Database.seedRow resetRegs], r.batchId = row.batchId →
      r ∈ s.db.batchCommit := by
    intro r hr hid
    rcases List.mem_append.mp hr with hr | hr
    · exact hr
    · rw [List.mem_singleton.mp hr] at hid ⊢
      rw [← hrow hid.symm]
      exact hlatest.mem
  refine {
    latest := ?_
    le := h.le
    mem := fun r hr hid => List.mem_append_left _ (h.mem r hr hid)
    fine := ?_
    alone := h.alone
    seeding := ?_ }
  · by_cases hzero : row.batchId = 0
    · rw [hrow hzero]
      refine Database.latest_append _ _ fun r hr => ?_
      exact (hlatest.le r hr).trans (Nat.le_of_eq hzero)
    · exact Database.latest_eq_some.mpr (hlatest.append (Nat.pos_of_ne_zero hzero))
  · intro who'
    have hfine := h.fine who'
    change (s.phase who').Fine _ s.history row.batchId
    cases hphase : s.phase who' with
    | working batchId icount todo ends =>
      rw [hphase] at hfine
      refine ⟨hfine.1, fun hlast => ⟨(hfine.2 hlast).1, ?_⟩⟩
      intro stmt hstmt htodo r hr hid
      exact (hfine.2 hlast).2 stmt hstmt htodo r (hmem r hr hid) hid
    | checking batchId =>
      rw [hphase] at hfine
      exact hfine
    | _ => trivial
  · intro who' _ r hr hid
    rcases List.mem_append.mp hr with hr | hr
    · exact hrows r hr hid
    · exact List.mem_singleton.mp hr

/-- A runner with nothing left to do whose batch is the latest has flushed it. -/
theorem Holds.flushed (h : s.Holds row) {icount : Nat} {ends : Bool}
    (hphase : s.phase who = .working row.batchId icount [] ends) :
    (∀ r ∈ s.db.batchCommit, r.batchId = row.batchId → Flushed s.db r) ∧
      ∀ r ∈ s.history, Flushed s.db r := by
  have hfine := h.fine who
  rw [hphase] at hfine
  obtain ⟨hbefore, hdone⟩ := hfine.2 rfl
  have hlast : ∀ r ∈ s.db.batchCommit, r.batchId = row.batchId → Flushed s.db r :=
    fun r hr hid stmt hstmt => hdone stmt hstmt List.not_mem_nil r hr hid
  refine ⟨hlast, fun r hr => ?_⟩
  rcases Nat.lt_or_eq_of_le (h.le r hr) with hlt | hid
  · exact hbefore r hr hlt
  · exact hlast r (h.mem r hr hid) hid

theorem insert_eq (args : RunArgs) (h : s.db.latest = some row) (icount : Nat)
    (keys : List (BitVec 16)) :
    ∃ new : CommitRow, new.batchId = row.batchId + 1 ∧
      s.insert args icount keys =
        { s with db := s.db.commit keys new, history := s.history ++ [new] } := by
  have hlatest : ({ s.db with inputQueue := s.db.inputQueue ++ keys } : Database).latest =
      some row := h
  refine ⟨({ s.db with inputQueue := s.db.inputQueue ++ keys } : Database).batchRow args.step
    (args.stepK icount) row, rfl, ?_⟩
  rw [insert]
  simp only [hlatest, Database.batch, Database.commit]

/-- A batch is committed.  Unless the runner's batch was the latest its row takes a
number past the one it expects. -/
theorem Holds.insert (args : RunArgs) (h : s.Holds row) {batchId icount : Nat} {ends : Bool}
    (hphase : s.phase who = .working batchId icount [] ends) (keys : List (BitVec 16)) :
    ∃ new : CommitRow, new.batchId = row.batchId + 1 ∧
      ((s.insert args icount keys).set who (.checking batchId)).Holds new := by
  obtain ⟨new, hid, heq⟩ := s.insert_eq args h.latest icount keys
  have hlatest := Database.latest_eq_some.mp h.latest
  have hle : batchId ≤ row.batchId := by
    have hfine := h.fine who
    rw [hphase] at hfine
    exact hfine.1
  have hgrows : Grows s.db (s.db.commit keys new) := s.db.grows_commit keys new
  have hbefore : batchId = row.batchId →
      AllBefore (s.db.commit keys new) (s.history ++ [new]) new.batchId := by
    rintro rfl r hr hlt
    rcases List.mem_append.mp hr with hr | hr
    · exact ((h.flushed hphase).2 r hr).mono hgrows
    · rw [List.mem_singleton.mp hr] at hlt
      exact absurd hlt (Nat.lt_irrefl _)
  refine ⟨new, hid, ?_⟩
  rw [heq]
  refine {
    latest := ?_
    le := ?_
    mem := ?_
    fine := forall_who who ?_ ?_
    alone := forall_who who ?_ ?_
    seeding := forall_who who ?_ ?_ }
  · refine Database.latest_append _ _ fun r hr => ?_
    exact (hlatest.le r hr).trans (hid ▸ Nat.le_succ _)
  · intro r hr
    rcases List.mem_append.mp hr with hr | hr
    · exact (h.le r hr).trans (hid ▸ Nat.le_succ _)
    · rw [List.mem_singleton.mp hr]
  · intro r hr hr'
    rcases List.mem_append.mp hr with hr | hr
    · have := h.le r hr
      omega
    · exact List.mem_append_right _ hr
  · rw [set_self]
    exact ⟨by omega, fun hnew => hbefore (by omega)⟩
  · rw [set_other]
    have hother := h.fine !who
    cases hphase' : s.phase !who with
    | working batchId' icount' todo ends' =>
      rw [hphase'] at hother
      exact ⟨hother.1.trans (hid ▸ Nat.le_succ _), fun hnew => absurd hother.1 (by omega)⟩
    | checking batchId' =>
      rw [hphase'] at hother
      exact ⟨hother.1.trans (hid ▸ Nat.le_succ _), fun hnew => absurd hother.1 (by omega)⟩
    | _ => trivial
  · rw [set_self]
    exact False.elim
  · rw [set_other, Bool.not_not, set_self]
    intro hstarting
    have hcurrent := (h.alone (!who) hstarting).2
    rw [Bool.not_not, hphase] at hcurrent
    refine ⟨hbefore hcurrent, ?_⟩
    change batchId + 1 = new.batchId
    rw [hid, show batchId = row.batchId from hcurrent]
  · rw [set_self]
    exact fun hseeding => by cases hseeding
  · rw [set_other]
    intro hseeding r hr hzero
    rcases List.mem_append.mp hr with hr | hr
    · exact h.seeding (!who) hseeding r hr hzero
    · rw [List.mem_singleton.mp hr] at hzero
      omega

theorem Holds.check (h : s.Holds row) {batchId : Nat} (hphase : s.phase who = .checking batchId) :
    (s.set who (s.check args batchId)).Holds row := by
  have hfine := h.fine who
  rw [hphase] at hfine
  rw [Runners.check, h.latest]
  change (s.set who (if _ then _ else _)).Holds row
  by_cases hmoved : row.batchId ≠ batchId + 1
  · rw [if_pos hmoved]
    exact h.set trivial False.elim (fun _ => trivial) fun hseeding => by cases hseeding
  · rw [if_neg hmoved]
    have hid := not_not.mp hmoved
    refine h.set ⟨hfine.1, fun hlast => ⟨hfine.2 hlast, ?_⟩⟩ False.elim (fun _ => hid.symm)
      fun hseeding => by cases hseeding
    intro stmt hstmt htodo
    rw [(Stmt.eq_of_notMem_ofRow htodo).1] at hstmt
    exact absurd hstmt (by decide)

/-- One statement of one runner keeps the invariant. -/
theorem Holds.act (h : s.Holds row) {a : Act} {s' : Runners} (hact : s.act args who a = some s') :
    ∃ row', s'.Holds row' ∧ row.batchId ≤ row'.batchId := by
  cases a with
  | quit error =>
    cases hphase : s.phase who with
    | working batchId icount todo ends =>
      simp only [Runners.act, hphase] at hact
      split at hact
      · cases hact
        refine ⟨row, h.set trivial False.elim (fun _ => trivial) ?_, le_rfl⟩
        exact fun hseeding => by cases hseeding
      · cases hact
    | _ =>
      simp only [Runners.act, hphase] at hact
      cases hact
  | next keys =>
    cases hphase : s.phase who with
    | off =>
      simp only [Runners.act, hphase] at hact
      cases hact
      have hstarting : (s.phase who).Starting := by
        rw [hphase]
        trivial
      by_cases hnone : s.db.rowsOf 0 = []
      · rw [if_pos hnone]
        refine ⟨row, h.set trivial (fun _ => hstarting) (fun _ => trivial) ?_, le_rfl⟩
        intro _ r hr hid
        have hmem : r ∈ s.db.rowsOf 0 := List.mem_filter.mpr ⟨hr, decide_eq_true hid⟩
        rw [hnone] at hmem
        cases hmem
      · rw [if_neg hnone]
        refine ⟨row, h.set trivial (fun _ => hstarting) (fun _ => trivial) ?_, le_rfl⟩
        exact fun hseeding => by cases hseeding
    | seeding =>
      simp only [Runners.act, hphase] at hact
      cases hact
      have hstarting : (s.phase who).Starting := by
        rw [hphase]
        trivial
      refine ⟨row, (h.seed hphase).set trivial (fun _ => hstarting) (fun _ => trivial) ?_, le_rfl⟩
      exact fun hseeding => by cases hseeding
    | seeded =>
      simp only [Runners.act, hphase, h.latest] at hact
      cases hact
      have hbefore := (h.alone who (by rw [hphase]; trivial)).1
      refine ⟨row, h.set ⟨le_rfl, fun _ => ⟨hbefore, ?_⟩⟩ False.elim (fun _ => rfl) ?_, le_rfl⟩
      · intro stmt hstmt htodo
        exact absurd (List.mem_append_left _ hstmt) htodo
      · exact fun hseeding => by cases hseeding
    | working batchId icount todo ends =>
      have hfine := h.fine who
      rw [hphase] at hfine
      cases todo with
      | nil =>
        simp only [Runners.act, hphase] at hact
        split at hact
        · cases hact
          refine ⟨row, h.set trivial False.elim (fun _ => trivial) ?_, le_rfl⟩
          exact fun hseeding => by cases hseeding
        · cases hact
          obtain ⟨new, hid, hnew⟩ := h.insert args hphase keys
          exact ⟨new, hnew, by omega⟩
      | cons stmt todo =>
        simp only [Runners.act, hphase] at hact
        cases hact
        have hkept := Stmt.kept_exec h.latest hfine.1 stmt
        refine ⟨row, (h.kept hkept).set ⟨hfine.1, fun hlast => ⟨?_, ?_⟩⟩ False.elim ?_ ?_, le_rfl⟩
        · exact (hfine.2 hlast).1.mono hkept.grows
        · intro stmt' hstmt htodo r hr hid
          have hr' := hkept.mem r hr
          by_cases hsame : stmt' = stmt
          · rw [hsame, hlast, ← hid]
            exact Stmt.done_exec hr' stmt
          · have hnot : stmt' ∉ stmt :: todo := List.not_mem_cons_of_ne_of_not_mem hsame htodo
            exact ((hfine.2 hlast).2 stmt' hstmt hnot r hr' hid).mono hkept.grows
        · change Phase.Current row.batchId (s.phase who) → _
          rw [hphase]
          exact id
        · exact fun hseeding => by cases hseeding
    | checking batchId =>
      simp only [Runners.act, hphase] at hact
      cases hact
      exact ⟨row, h.check hphase, le_rfl⟩
    | stopped error =>
      simp only [Runners.act, hphase] at hact
      cases hact

/-- Until a runner seeds there is nothing. -/
theorem Fresh.act (h : s.Fresh) {a : Act} {s' : Runners} (hact : s.act args who a = some s') :
    s'.Fresh ∨ ∃ row, s'.Holds row := by
  have hphase := h.phase who
  cases a with
  | quit error => rcases hphase with hphase | hphase <;> simp [Runners.act, hphase] at hact
  | next keys =>
    rcases hphase with hphase | hphase
    · simp only [Runners.act, hphase] at hact
      cases hact
      rw [Database.rowsOf, h.batchCommit, List.filter_nil, if_pos rfl]
      left
      refine ⟨h.batchCommit, h.history, forall_who who ?_ ?_⟩
      · exact .inr (set_self _)
      · rw [set_other]
        exact h.phase !who
    · simp only [Runners.act, hphase] at hact
      cases hact
      right
      have hother := h.phase !who
      refine ⟨Database.seedRow resetRegs, {
        latest := ?_
        le := ?_
        mem := ?_
        fine := forall_who who ?_ ?_
        alone := forall_who who ?_ ?_
        seeding := ?_ }⟩
      · refine Database.latest_append _ _ fun r hr => ?_
        rw [h.batchCommit] at hr
        cases hr
      · intro r hr
        rw [show _ = _ from h.history] at hr
        cases hr
      · intro r hr
        rw [show _ = _ from h.history] at hr
        cases hr
      · rw [set_self]
        trivial
      · rw [set_other]
        change Phase.Fine _ _ _ (s.phase !who)
        rcases hother with hother | hother <;> rw [hother] <;> trivial
      · rw [set_self, set_other]
        refine fun _ => ⟨fun r _ hlt => absurd hlt (Nat.not_lt_zero _), ?_⟩
        change Phase.Current _ (s.phase !who)
        rcases hother with hother | hother <;> rw [hother] <;> trivial
      · rw [Bool.not_not, set_self]
        exact fun _ => ⟨fun r _ hlt => absurd hlt (Nat.not_lt_zero _), trivial⟩
      · intro _ _ r hr _
        change r ∈ s.db.batchCommit ++ [_] at hr
        rw [h.batchCommit] at hr
        exact List.mem_singleton.mp hr

theorem phase_insert (icount : Nat) (keys : List (BitVec 16)) :
    (s.insert args icount keys).phase = s.phase := by
  rw [Runners.insert]
  split <;> rfl

/-- A runner moves only itself. -/
theorem act_other {a : Act} {s' : Runners} (h : s.act args (!who) a = some s') :
    s'.phase who = s.phase who := by
  have hset : ∀ (r : Runners) phase, (r.set (!who) phase).phase who = r.phase who := by
    intro r phase
    have hother : (r.set (!who) phase).phase (!!who) = r.phase (!!who) := r.set_other phase
    rwa [Bool.not_not] at hother
  cases a with
  | quit error =>
    simp only [Runners.act] at h
    split at h
    · split at h
      · cases h
        exact hset _ _
      · cases h
    · cases h
  | next keys =>
    simp only [Runners.act] at h
    split at h
    · cases h
      exact hset _ _
    · cases h
      exact hset _ _
    · split at h
      all_goals
        cases h
        exact hset _ _
    · cases h
      exact hset _ _
    · split at h
      · cases h
        exact hset _ _
      · cases h
        rw [hset, phase_insert]
    · cases h
      exact hset _ _
    · cases h

/-- No statement of either runner takes a row out of a table. -/
theorem grows_act {a : Act} {s' : Runners} (h : s.act args who a = some s') : Grows s.db s'.db := by
  cases a with
  | quit error =>
    simp only [Runners.act] at h
    split at h
    · split at h
      · cases h
        exact .refl _
      · cases h
    · cases h
  | next keys =>
    simp only [Runners.act] at h
    split at h
    · cases h
      exact .refl _
    · cases h
      exact ⟨fun _ => id, fun _ => id, fun _ => id, fun _ => id, fun _ => id⟩
    · split at h
      all_goals
        cases h
        exact .refl _
    · cases h
      exact Stmt.grows_exec _ _ _
    · split at h
      · cases h
        exact .refl _
      · cases h
        change Grows s.db (s.insert args _ keys).db
        cases hlatest : s.db.latest with
        | none =>
          have hnone : ({ s.db with inputQueue := s.db.inputQueue ++ keys } : Database).latest =
              none := hlatest
          rw [Runners.insert]
          simp only [hnone]
          exact .refl _
        | some row =>
          obtain ⟨new, -, heq⟩ := s.insert_eq args hlatest _ keys
          rw [heq]
          exact s.db.grows_commit keys new
    · cases h
      exact .refl _
    · cases h

/-- The other runner's statements. -/
def Waits (args : RunArgs) (who : Bool) : Runners → Runners → Prop :=
  Relation.ReflTransGen fun s s' => ∃ a, s.act args (!who) a = some s'

/-- A runner that waits stays where it is, and numbers only grow. -/
theorem Waits.holds {s' : Runners} (hwaits : Waits args who s s') (h : s.Holds row) :
    s'.phase who = s.phase who ∧ ∃ row', s'.Holds row' ∧ row.batchId ≤ row'.batchId := by
  induction hwaits with
  | refl => exact ⟨rfl, row, h, le_rfl⟩
  | tail _ hstep ih =>
    obtain ⟨a, ha⟩ := hstep
    obtain ⟨hphase, row', h', hle⟩ := ih
    obtain ⟨row'', h'', hle'⟩ := h'.act ha
    exact ⟨(act_other ha).trans hphase, row'', h'', hle.trans hle'⟩

end Runners

theorem Interleaved.holds {args : RunArgs} {start : Database} {s : Runners}
    (h : Interleaved args start s) : s.Fresh ∨ ∃ row, s.Holds row := by
  induction h with
  | start =>
    rcases start.latest_cases with ⟨hnil, -⟩ | ⟨row, hlatest, his⟩
    · refine .inl ⟨hnil, ?_, fun _ => .inl rfl⟩
      change start.newest = []
      rw [Database.newest, hnil, List.filter_nil]
    · refine .inr ⟨row, {
        latest := hlatest
        le := fun r hr => his.le r (List.mem_of_mem_filter hr)
        mem := fun r hr _ => List.mem_of_mem_filter hr
        fine := fun _ => trivial
        alone := ?_
        seeding := fun who hseeding => by cases hseeding }⟩
      refine fun who _ => ⟨fun r hr hlt => ?_, trivial⟩
      have hle := of_decide_eq_true (List.mem_filter.mp hr).2 row his.mem
      exact absurd hlt (Nat.not_lt.mpr hle)
  | act h who a hact ih =>
    rcases ih with hfresh | ⟨row, hholds⟩
    · exact hfresh.act hact
    · obtain ⟨row', h', -⟩ := hholds.act hact
      exact .inr ⟨row', h'⟩

theorem Interleaved.grows {args : RunArgs} {start : Database} {s : Runners}
    (h : Interleaved args start s) : Grows start s.db := by
  induction h with
  | start => exact .refl _
  | act _ _ _ hact ih => exact ih.trans (Runners.grows_act hact)

/-- Four words of RAM, three of them text. -/
def Layout.text3 : Layout where
  ramWords := 4
  textWords := 3
  ipms := 1
  text_pos := by decide
  text_le := by decide
  ram_lt := ram_lt_four
  ipms_ne_zero := one_ipms_ne_zero

/-- `auipc x1, 0`, `sw x1, 12(x1)` and `jal x0, 0`. -/
def Cpu.stores : Cpu :=
  .new (((Memory.new Layout.text3.map (.registers (.new 1 one_ipms_ne_zero))).loadImage
    [0x97, 0x00, 0x00, 0x00, 0x23, 0xA6, 0x10, 0x00, 0x6F, 0x00, 0x00, 0x00]
    ramBase).2.setTextRegion (some (ramBase, Layout.text3.textStop))) ramBase

/-- Its database, loaded but not seeded. -/
def Database.stores : Database :=
  { Database.loaded .text3 .stores with batchCommit := [], cpuState := [] }

/-- A run of two instructions a batch. -/
def RunArgs.stores : RunArgs := ⟨Layout.text3.args 8, 2, 8192, none⟩

/-- Several statements, each by one of the runners, if each can happen. -/
def Runners.acts (args : RunArgs) (s : Runners) (whos : List Bool) : Option Runners :=
  whos.foldlM (fun s who => s.act args who (.next [])) s

theorem Interleaved.acts {args : RunArgs} {start : Database} {s s' : Runners} {whos : List Bool}
    (h : Interleaved args start s) (hacts : s.acts args whos = some s') :
    Interleaved args start s' := by
  induction whos generalizing s with
  | nil =>
    cases hacts
    exact h
  | cons who whos ih =>
    obtain ⟨mid, hmid, hrest⟩ := Option.bind_eq_some_iff.mp hacts
    exact ih (h.act who _ hmid) hrest

/-- The runners before their first statement. -/
def Runners.stores : Runners := ⟨.stores, Database.stores.newest, fun _ => .off⟩

/-- One runner seeds and recovers, the other recovers, and the first commits a batch. -/
def Runners.bothStart : List Bool := List.replicate 9 true ++ List.replicate 8 false ++ [true]

end ClickDoom
