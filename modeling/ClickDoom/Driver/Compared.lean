import ClickDoom.Driver.Emulation

/-! # Which checkpoints the loops compare

Both loops compare every boundary between where they start and where they stop.
They compare one twice when the guest halts on it: `run` finds it in the batch's
columns and in its row, `diff` in the row of the batch that reached it and in that
of the batch that halted.
-/
namespace ClickDoom
open ClickHouse

/-! ## One batch -/

namespace Database
variable {db : Database} {prev : CommitRow} (p : StepArgs) (k : Nat)

theorem batch_eq (h : db.latest = some prev) :
    db.batch p k = { db with batchCommit := db.batchCommit ++ [db.batchRow p k prev] } := by
  rw [batch, h]

theorem batchId_lt (h : db.latest = some prev) :
    ∀ s ∈ db.batchCommit, s.batchId < (db.batchRow p k prev).batchId := fun s hs =>
  Nat.lt_succ_of_le ((latest_eq_some.mp h).le s hs)

theorem latest_batch (h : db.latest = some prev) :
    (db.batch p k).latest = some (db.batchRow p k prev) := by
  rw [batch_eq p k h]
  exact latest_append db _ fun s hs => (batchId_lt p k h s hs).le

/-- Retention never drops the batch it is given. -/
theorem IsLatest.retained {rows : List CommitRow} {row : CommitRow} (h : IsLatest rows row)
    (n : Nat) : IsLatest (rows.filter fun s => ¬s.batchId < row.batchId - n) row := by
  refine h.filter (decide_eq_true ?_)
  exact Nat.not_lt.mpr (Nat.sub_le _ _)

theorem latest_settle {row : CommitRow} (h : db.latest = some row) :
    (db.settle row.batchId).latest = some row :=
  latest_eq_some.mpr ((latest_eq_some.mp h).retained _)

theorem rowsOf_settle (batchId : Nat) : (db.settle batchId).rowsOf batchId = db.rowsOf batchId := by
  change (db.batchCommit.filter _).filter _ = db.batchCommit.filter _
  rw [List.filter_filter]
  apply List.filter_congr
  intro s _
  by_cases hs : s.batchId = batchId
  · simp [hs]
  · simp [hs]

/-- A batch leaves its row the latest, and the only one of its number. -/
theorem settle_batch (h : db.latest = some prev) :
    ((db.batch p k).settle (prev.batchId + 1)).latest = some (db.batchRow p k prev) ∧
      ((db.batch p k).settle (prev.batchId + 1)).rowsOf (prev.batchId + 1) =
        [db.batchRow p k prev] := by
  have hid : (db.batchRow p k prev).batchId = prev.batchId + 1 := rfl
  have hlt := batchId_lt p k h
  have hlatest := latest_batch p k h
  have hbatch := batch_eq p k h
  generalize db.batchRow p k prev = row at *
  rw [← hid]
  refine ⟨latest_settle hlatest, ?_⟩
  rw [rowsOf_settle, hbatch]
  exact rowsOf_append db hlt

/-- The counts of a batch's row. -/
theorem counted_batchRow (db : Database) (prev : CommitRow) :
    prev.icount ≤ (db.batchRow p k prev).icount ∧
      ((db.batchRow p k prev).halted = 0 ∨ (db.batchRow p k prev).halted = 1) ∧
      (db.batchRow p k prev).icount + (db.batchRow p k prev).halted.toNat ≤ prev.icount + k ∧
      ((db.batchRow p k prev).halted = 0 → 0 < k →
        prev.icount < (db.batchRow p k prev).icount) ∧
      (db.batchRow p k prev).cp.icount = boundaries (prev.icount + 1)
        ((db.batchRow p k prev).icount + (db.batchRow p k prev).halted.toNat) := by
  obtain ⟨hcounted, hcp⟩ := foldBatch_counts (v := .baseline) (p := p) k
    prev.pc prev.regs prev.icount prev.keyqPos
  exact ⟨hcounted.le, hcounted.halted, hcounted.within, hcounted.progress, hcp⟩

end Database

/-- The rows a loop commits: batches of `stepK` steps up to the target, until one
halts or has the frame to stop at.  Nothing here is about comparing. -/
def Database.commits (p : StepArgs) (stepK : Nat → Nat) (target : Nat) (stops : CommitRow → Bool) :
    List (List (BitVec 16)) → Database → List CommitRow
  | [], _ => []
  | keys :: feed, db =>
    match db.latest with
    | none => []
    | some prev =>
      if target ≤ prev.icount then []
      else
        let db := { db with inputQueue := db.inputQueue ++ keys }
        let row := db.batchRow p (stepK prev.icount) prev
        row ::
          if row.halted = 1 ∨ stops row = true then []
          else commits p stepK target stops feed
            ((db.batch p (stepK prev.icount)).settle row.batchId)

/-- The rows of batches do not depend on the frames read out. -/
theorem Database.commits_framesOut (p : StepArgs) (stepK : Nat → Nat) (target : Nat)
    (stops : CommitRow → Bool) (feed : List (List (BitVec 16))) (db : Database)
    (frames : List FrameRow) :
    commits p stepK target stops feed { db with framesOut := frames } =
      commits p stepK target stops feed db := by
  induction feed generalizing db with
  | nil => rfl
  | cons keys feed ih =>
    rw [commits, commits]
    change (match db.latest with | none => _ | some prev => _) = _
    cases hprev : db.latest with
    | none => rfl
    | some prev =>
      have hbatch : ({ db with inputQueue := db.inputQueue ++ keys } : Database).batch p
          (stepK prev.icount) = _ := batch_eq p (stepK prev.icount) hprev
      have hbatch' : ({ db with inputQueue := db.inputQueue ++ keys, framesOut := frames } :
          Database).batch p (stepK prev.icount) = _ := batch_eq p (stepK prev.icount) hprev
      have hrow : ({ db with inputQueue := db.inputQueue ++ keys, framesOut := frames } :
          Database).batchRow p (stepK prev.icount) prev =
        ({ db with inputQueue := db.inputQueue ++ keys } : Database).batchRow p (stepK prev.icount)
          prev := rfl
      rw [hrow] at hbatch'
      dsimp only
      rw [hrow, hbatch, hbatch']
      generalize ({ db with inputQueue := db.inputQueue ++ keys } : Database).batchRow p
        (stepK prev.icount) prev = row
      have hnext := ih (({ db with
        inputQueue := db.inputQueue ++ keys
        batchCommit := db.batchCommit ++ [row] } : Database).settle row.batchId)
      rw [← hnext]
      rfl

/-! ## What a turn compares -/

/-- The boundary a batch ends on. -/
def endOf (icount : Nat) : List Nat := if isBoundary icount then [icount] else []

theorem boundaries_endOf (n : Nat) : boundaries n (n + 1) = endOf n := boundaries_succ n

/-- A row on a boundary that its batch halted on, or that it did not move from. -/
def CommitRow.twice (row : CommitRow) (still : Prop) [Decidable still] : List Nat :=
  if row.halted = 1 ∨ still then endOf row.icount else []

theorem bind_ok {ε α β : Type} {x : Except ε α} {f : α → Except ε β} {b : β}
    (h : (x >>= f) = .ok b) : ∃ a, x = .ok a ∧ f a = .ok b := by
  cases x with
  | error e => cases h
  | ok a => exact ⟨a, rfl, h⟩

section
variable {xxh64 : List Byte → BitVec 64} {trace : List Line}

/-- What is compared without an error is everything there was. -/
theorem compareBatchCheckpoints_ok {entries : List CpEntry} {counts : List Nat}
    (h : compareBatchCheckpoints xxh64 trace entries = .ok counts) :
    counts = entries.map (·.icount) := by
  induction entries generalizing counts with
  | nil =>
    cases h
    rfl
  | cons e entries ih =>
    rw [compareBatchCheckpoints] at h
    obtain ⟨_, -, h⟩ := bind_ok h
    obtain ⟨rest, hrest, h⟩ := bind_ok h
    cases h
    rw [List.map_cons, ih hrest]

theorem compareEnd_ok {db : Database} {icount : Nat} {counts : List Nat}
    (h : compareEnd xxh64 trace db icount = .ok counts) : counts = endOf icount := by
  rw [compareEnd] at h
  rw [endOf]
  split at h
  · rename_i hb
    rw [if_pos hb]
    split at h
    · cases h
    · obtain ⟨_, -, h⟩ := bind_ok h
      cases h
      rfl
  · rename_i hb
    rw [if_neg hb]
    cases h
    rfl

theorem icount_batchCheckpoints {db : Database} {batchId : Nat} {row : CommitRow}
    (h : db.rowsOf batchId = [row]) :
    ((db.batchCheckpoints batchId).map (·.icount)).Perm row.cp.icount := by
  rw [Database.batchCheckpoints, h, ← row.cp.icount_entries]
  refine (List.Perm.map _ (List.mergeSort_perm _ _)).trans ?_
  simp

end

/-- The columns and the row of one batch: the boundaries it passed, and the one it
halted on, or did not leave, again. -/
theorem compared_batch {prev row : CommitRow} {k : Nat}
    (hle : prev.icount ≤ row.icount) (hhalted : row.halted = 0 ∨ row.halted = 1)
    (hwithin : row.icount + row.halted.toNat ≤ prev.icount + k)
    (hprogress : row.halted = 0 → 0 < k → prev.icount < row.icount)
    (hcp : row.cp.icount = boundaries (prev.icount + 1) (row.icount + row.halted.toNat)) :
    row.cp.icount ++ endOf row.icount =
      boundaries (prev.icount + 1) (row.icount + 1) ++ row.twice (k = 0) := by
  rw [hcp, CommitRow.twice]
  rcases hhalted with hzero | hone
  · rw [hzero]
    change boundaries _ row.icount ++ _ = _
    rcases Nat.eq_zero_or_pos k with rfl | hk
    · -- a batch of no steps stays where it is
      have hsame : row.icount = prev.icount := by
        rw [hzero] at hwithin
        change row.icount + 0 ≤ _ at hwithin
        omega
      rw [if_pos (Or.inr rfl), hsame, boundaries_self]
      simp [boundaries]
    · have hlt := hprogress hzero hk
      rw [if_neg (by simp [hk.ne']), List.append_nil, ← boundaries_endOf]
      exact boundaries_append (by omega) (Nat.le_succ _)
  · rw [if_pos (Or.inl hone), hone]
    rfl

/-! ## The loop of `run` -/

/-- The loop's variables are those of its latest row. -/
structure RunState.At (s : RunState) (prev : CommitRow) : Prop where
  latest : s.db.latest = some prev
  icount : s.icount = prev.icount
  batchId : s.batchId = prev.batchId

namespace RunArgs
variable {args : RunArgs} {xxh64 : List Byte → BitVec 64} {trace : List Line}

/-- The run stops at this row, were it not for a halt. -/
def stops (args : RunArgs) (row : CommitRow) : Bool :=
  row.hasFrame = 1 && args.stopsAtFrame row.frameNo

theorem afterFlush_ok {s s' : RunState} {db : Database} {row : CommitRow} {last : Bool}
    (hlatest : db.latest = some row) (hrows : db.rowsOf row.batchId = [row])
    (h : args.afterFlush xxh64 trace s db row = .ok (s', last)) :
    s'.At row ∧ (∃ frames, s'.db = { db with framesOut := frames }) ∧
      s'.compared.Perm (s.compared ++ (row.cp.icount ++ endOf row.icount)) ∧
      last = (decide (row.halted = 1) || args.stops row) := by
  rw [afterFlush] at h
  obtain ⟨inside, hinside, h⟩ := bind_ok h
  obtain ⟨atEnd, hend, h⟩ := bind_ok h
  have hcompared : (s.compared ++ (inside ++ atEnd)).Perm
      (s.compared ++ (row.cp.icount ++ endOf row.icount)) := by
    rw [compareBatchCheckpoints_ok hinside, compareEnd_ok hend]
    exact ((icount_batchCheckpoints hrows).append_right _).append_left _
  by_cases hhalted : row.halted = 1
  · rw [if_pos hhalted] at h
    cases h
    refine ⟨⟨hlatest, rfl, rfl⟩, ⟨_, rfl⟩, hcompared, ?_⟩
    rw [decide_eq_true hhalted, Bool.true_or]
  · rw [if_neg hhalted] at h
    by_cases hframe : row.hasFrame = 1
    · rw [if_pos hframe] at h
      cases h
      refine ⟨⟨hlatest, rfl, rfl⟩, ⟨_, rfl⟩, hcompared, ?_⟩
      rw [decide_eq_false hhalted, stops, decide_eq_true hframe]
      rfl
    · rw [if_neg hframe] at h
      cases h
      refine ⟨⟨hlatest, rfl, rfl⟩, ⟨_, rfl⟩, hcompared, ?_⟩
      rw [decide_eq_false hhalted, stops, decide_eq_false hframe]
      rfl

/-- A turn from the latest row on. -/
theorem turn_eq {s : RunState} {prev : CommitRow} (hs : s.At prev) :
    args.turn xxh64 trace s = args.afterFlush xxh64 trace s
      ((s.db.batch args.step (args.stepK prev.icount)).settle (prev.batchId + 1))
      (s.db.batchRow args.step (args.stepK prev.icount) prev) := by
  obtain ⟨hprev, hicount, hbatchId⟩ := hs
  have hlatest := Database.latest_batch args.step (args.stepK prev.icount) hprev
  have hid : (s.db.batchRow args.step (args.stepK prev.icount) prev).batchId = prev.batchId + 1 := rfl
  rw [turn, hicount, hbatchId, hlatest]
  generalize (s.db.batch args.step (args.stepK prev.icount)).settle (prev.batchId + 1) = db
  generalize s.db.batchRow args.step (args.stepK prev.icount) prev = row at hid ⊢
  exact if_neg (not_not.mpr hid)

/-- What a turn leaves. -/
theorem turn_ok {s s' : RunState} {last : Bool} {prev : CommitRow} (hs : s.At prev)
    (h : args.turn xxh64 trace s = .ok (s', last)) :
    s'.At (s.db.batchRow args.step (args.stepK prev.icount) prev) ∧
      (∃ frames, s'.db =
        { (s.db.batch args.step (args.stepK prev.icount)).settle (prev.batchId + 1) with
          framesOut := frames }) ∧
      s'.compared.Perm (s.compared ++
        ((s.db.batchRow args.step (args.stepK prev.icount) prev).cp.icount ++
          endOf (s.db.batchRow args.step (args.stepK prev.icount) prev).icount)) ∧
      last = (decide ((s.db.batchRow args.step (args.stepK prev.icount) prev).halted = 1) ||
        args.stops (s.db.batchRow args.step (args.stepK prev.icount) prev)) := by
  rw [turn_eq hs] at h
  obtain ⟨hsettled, hrows⟩ := Database.settle_batch args.step (args.stepK prev.icount) hs.latest
  have hid : (s.db.batchRow args.step (args.stepK prev.icount) prev).batchId = prev.batchId + 1 := rfl
  generalize (s.db.batch args.step (args.stepK prev.icount)).settle (prev.batchId + 1) = db at *
  generalize s.db.batchRow args.step (args.stepK prev.icount) prev = row at *
  rw [← hid] at hrows
  exact afterFlush_ok hsettled hrows h

/-- The rows a run commits. -/
def commits (args : RunArgs) (feed : List (List (BitVec 16))) (db : Database) : List CommitRow :=
  db.commits args.step args.stepK args.targetIcount args.stops feed

/-- What the batches of a run have compared twice. -/
def twice (args : RunArgs) (rows : List CommitRow) : List Nat :=
  rows.flatMap (·.twice (args.k = 0))

theorem stepK_eq_zero {icount : Nat} (h : icount < args.targetIcount) :
    args.stepK icount = 0 ↔ args.k = 0 := by
  have hstop : 0 < stopAt ramHashInterval icount args.targetIcount - icount := by
    have hlt : icount < (icount / ramHashInterval + 1) * ramHashInterval := by
      rw [← Nat.div_lt_iff_lt_mul (by decide)]
      exact Nat.lt_succ_self _
    rw [stopAt]
    omega
  have hk : args.k = 0 ↔ args.k.toNat = 0 := BitVec.toNat_eq.trans Iff.rfl
  rw [stepK, hk]
  split <;> omega

/-- The loop compares the boundaries between where it starts and where it stops,
and those its rows have twice. -/
theorem loop_compared {feed : List (List (BitVec 16))} {s out : RunState} {prev : CommitRow}
    (hs : s.At prev) (h : args.loop xxh64 trace feed s = .ok out) :
    prev.icount ≤ out.icount ∧
      out.compared.Perm (s.compared ++ (boundaries (prev.icount + 1) (out.icount + 1) ++
        args.twice (args.commits feed s.db))) := by
  induction feed generalizing s prev with
  | nil =>
    cases h
    refine ⟨hs.icount.ge, ?_⟩
    rw [hs.icount, boundaries_self]
    simp [commits, Database.commits, twice]
  | cons keys feed ih =>
    rw [loop] at h
    rw [commits, Database.commits, hs.latest]
    split at h
    · rename_i htarget
      cases h
      rw [hs.icount] at htarget
      dsimp only
      rw [if_pos htarget, hs.icount, boundaries_self]
      simp [twice]
    · rename_i htarget
      rw [hs.icount] at htarget
      obtain ⟨⟨s', last⟩, hturn, h⟩ := bind_ok h
      have hs' : ({ s with db := { s.db with inputQueue := s.db.inputQueue ++ keys } } :
        RunState).At prev := ⟨hs.latest, hs.icount, hs.batchId⟩
      obtain ⟨hat, ⟨frames, hdb⟩, hcompared, hlast⟩ := turn_ok hs' hturn
      obtain ⟨hle, hhalted, hwithin, hprogress, hcp⟩ := Database.counted_batchRow args.step
        (args.stepK prev.icount) { s.db with inputQueue := s.db.inputQueue ++ keys } prev
      have hid : (({ s.db with inputQueue := s.db.inputQueue ++ keys } : Database).batchRow
        args.step (args.stepK prev.icount) prev).batchId = prev.batchId + 1 := rfl
      dsimp only at h hcompared hdb hat hlast ⊢
      rw [if_neg htarget, hid]
      generalize (({ s.db with inputQueue := s.db.inputQueue ++ keys } : Database).batch
        args.step (args.stepK prev.icount)).settle (prev.batchId + 1) = db at *
      generalize ({ s.db with inputQueue := s.db.inputQueue ++ keys } : Database).batchRow
        args.step (args.stepK prev.icount) prev = row at *
      have hbatch := compared_batch hle hhalted hwithin hprogress hcp
      have htwice : row.twice (args.stepK prev.icount = 0) = row.twice (args.k = 0) := by
        simp only [CommitRow.twice, stepK_eq_zero (Nat.lt_of_not_le htarget)]
      rw [htwice] at hbatch
      rw [hbatch] at hcompared
      cases last with
      | true =>
        cases h
        have hends : row.halted = 1 ∨ args.stops row = true := by
          simpa using hlast.symm
        rw [hat.icount, if_pos hends]
        refine ⟨hle, ?_⟩
        simpa [twice] using hcompared
      | false =>
        have hgoes : ¬(row.halted = 1 ∨ args.stops row = true) := by
          simpa using hlast.symm
        obtain ⟨hle', hrest⟩ := ih hat h
        rw [hdb, commits, Database.commits_framesOut] at hrest
        rw [if_neg hgoes]
        refine ⟨hle.trans hle', hrest.trans ?_⟩
        have hjoin : boundaries (prev.icount + 1) (row.icount + 1) ++
            boundaries (row.icount + 1) (out.icount + 1) = _ :=
          boundaries_append (by omega) (by omega)
        rw [← hjoin]
        rw [List.perm_iff_count] at hcompared ⊢
        intro n
        simp only [twice, List.flatMap_cons, List.count_append, hcompared n]
        omega

end RunArgs

/-! ## The loop of `diff` -/

namespace Database

theorem foldl_laterCpu_mem {rows : List (TableRow Nat CpuRow)} {best : TableRow Nat CpuRow}
    (h : rows.foldl laterCpu none = some best) : best ∈ rows := by
  induction rows using List.reverseRecOn generalizing best with
  | nil => cases h
  | append_singleton rows last ih =>
    rw [List.foldl_append, List.foldl_cons, List.foldl_nil] at h
    rw [List.mem_append, List.mem_singleton]
    cases hkept : rows.foldl laterCpu none with
    | none =>
      rw [hkept] at h
      cases h
      exact .inr rfl
    | some kept =>
      rw [hkept, laterCpu] at h
      split at h
      · cases h
        exact .inr rfl
      · cases h
        exact .inl (ih hkept)

/-- The row of `cpu_state` a flush appends is the latest. -/
theorem latestCpu_append {db : Database} {rows : List (TableRow Nat CpuRow)}
    {row : TableRow Nat CpuRow} (hdb : db.cpuState = rows ++ [row])
    (h : ∀ s ∈ rows, s.key ≤ row.key) : db.latestCpu = some row.value := by
  rw [latestCpu, hdb, List.foldl_append, List.foldl_cons, List.foldl_nil]
  cases hkept : rows.foldl laterCpu none with
  | none => rfl
  | some kept =>
    rw [laterCpu, if_pos (h kept (foldl_laterCpu_mem hkept))]
    rfl

theorem cpuState_settle {db : Database} {prev : CommitRow} (p : StepArgs) (k : Nat)
    (h : db.latest = some prev) :
    ((db.batch p k).settle (prev.batchId + 1)).cpuState =
      db.cpuState ++ [⟨prev.batchId + 1, (db.batchRow p k prev).cpu, 0⟩] := by
  have hid : (db.batchRow p k prev).batchId = prev.batchId + 1 := rfl
  have hlt := batchId_lt p k h
  have hbatch := batch_eq p k h
  generalize db.batchRow p k prev = row at *
  rw [← hid, hbatch]
  have hrows := rowsOf_append db hlt
  change db.cpuState ++ (Database.rowsOf _ row.batchId).map _ = _
  exact congrArg (db.cpuState ++ List.map _ ·) hrows

end Database

/-- The loop's variables are those of its latest row. -/
structure DiffState.At (s : DiffState) (prev : CommitRow) : Prop where
  latest : s.db.latest = some prev
  icount : s.icount = prev.icount
  batchesRun : s.batchesRun = prev.batchId
  cpuKeys : ∀ row ∈ s.db.cpuState, row.key ≤ prev.batchId

namespace DiffArgs
variable {args : DiffArgs} {xxh64 : List Byte → BitVec 64}

theorem compareEnd_ok {db : Database} {icount : Nat} {counts : List Nat}
    (h : args.compareEnd xxh64 db icount = .ok counts) : counts = endOf icount := by
  rw [compareEnd] at h
  rw [endOf]
  split at h
  · rename_i hb
    rw [if_pos hb]
    split at h
    · cases h
    · split at h
      · cases h
      · cases h
      · split at h
        · cases h
          rfl
        · cases h
  · rename_i hb
    rw [if_neg hb]
    cases h
    rfl

theorem turn_ok {s s' : DiffState} {prev : CommitRow} (hs : s.At prev)
    (h : args.turn xxh64 s = .ok s') :
    s'.At (s.db.batchRow args.step (args.stepK prev.icount) prev) ∧
      s'.db = (s.db.batch args.step (args.stepK prev.icount)).settle (prev.batchId + 1) ∧
      s'.compared = s.compared ++
        endOf (s.db.batchRow args.step (args.stepK prev.icount) prev).icount ∧
      s'.halted = decide ((s.db.batchRow args.step (args.stepK prev.icount) prev).halted = 1) := by
  obtain ⟨hprev, hicount, hbatchId, hkeys⟩ := hs
  obtain ⟨hsettled, -⟩ := Database.settle_batch args.step (args.stepK prev.icount) hprev
  have hcpu := Database.cpuState_settle args.step (args.stepK prev.icount) hprev
  have hid : (s.db.batchRow args.step (args.stepK prev.icount) prev).batchId = prev.batchId + 1 := rfl
  rw [turn, hicount, hbatchId] at h
  generalize (s.db.batch args.step (args.stepK prev.icount)).settle (prev.batchId + 1) = db at *
  generalize s.db.batchRow args.step (args.stepK prev.icount) prev = row at *
  have hlatest : db.latestCpu = some row.cpu := by
    refine Database.latestCpu_append hcpu fun t ht => ?_
    exact (hkeys t ht).trans (Nat.le_succ _)
  rw [hlatest] at h
  obtain ⟨counts, hcounts, h⟩ := bind_ok h
  cases h
  refine ⟨⟨hsettled, rfl, hid.symm, ?_⟩, rfl, ?_, rfl⟩
  · intro t ht
    rw [hcpu] at ht
    rcases List.mem_append.mp ht with ht | ht
    · exact (hkeys t ht).trans (by omega)
    · rw [List.mem_singleton.mp ht, hid]
  · rw [compareEnd_ok hcounts]
    rfl

/-- The rows `diff` commits. -/
def commits (args : DiffArgs) (turns : Nat) (db : Database) : List CommitRow :=
  db.commits args.step args.stepK args.targetIcount (fun _ => false) (List.replicate turns [])

/-- What its batches have compared twice. -/
def twice (rows : List CommitRow) : List Nat := rows.flatMap (·.twice False)

/-- The row of a batch cut at the next boundary. -/
theorem compared_batch_cut {prev row : CommitRow} {k : Nat} (hk : 0 < k)
    (hcut : prev.icount + k ≤ (prev.icount / checkpointInterval + 1) * checkpointInterval)
    (hhalted : row.halted = 0 ∨ row.halted = 1)
    (hwithin : row.icount + row.halted.toNat ≤ prev.icount + k)
    (hprogress : row.halted = 0 → 0 < k → prev.icount < row.icount) :
    endOf row.icount = boundaries (prev.icount + 1) (row.icount + 1) ++ row.twice False := by
  have hnone : ∀ n, n ≤ prev.icount + k → boundaries (prev.icount + 1) n = [] := by
    intro n hn
    rw [List.eq_nil_iff_forall_not_mem]
    intro m hm
    obtain ⟨hlo, hhi, hb⟩ := mem_boundaries.mp hm
    have hmod : m % checkpointInterval = 0 := by
      rw [isBoundary, Bool.and_eq_true] at hb
      exact of_decide_eq_true hb.2
    rw [checkpointInterval] at hcut hmod
    omega
  rcases hhalted with hzero | hone
  · have hlt := hprogress hzero hk
    rw [hzero] at hwithin
    have hjoin : boundaries (prev.icount + 1) row.icount ++ boundaries row.icount (row.icount + 1) =
      _ := boundaries_append hlt (Nat.le_succ _)
    rw [← hjoin, hnone row.icount hwithin, boundaries_endOf, CommitRow.twice,
      if_neg (by rw [hzero]; decide), List.append_nil, List.nil_append]
  · rw [hone] at hwithin
    rw [hnone (row.icount + 1) hwithin, CommitRow.twice, if_pos (Or.inl hone), List.nil_append]

theorem stepK_cut {icount : Nat} (h : icount < args.targetIcount) :
    0 < args.stepK icount ∧
      icount + args.stepK icount ≤ (icount / checkpointInterval + 1) * checkpointInterval := by
  have hlt : icount < (icount / checkpointInterval + 1) * checkpointInterval := by
    rw [← Nat.div_lt_iff_lt_mul (by decide)]
    exact Nat.lt_succ_self _
  rw [stepK, stopAt]
  omega

/-- The loop compares the boundaries up to where it stops, and those its rows have
twice; and it stops at the target or at a halt. -/
theorem loop_compared {turns : Nat} {s out : DiffState} {prev : CommitRow} (hs : s.At prev)
    (hrun : s.halted = false) (hturns : args.targetIcount ≤ prev.icount + turns)
    (h : args.loop xxh64 turns s = .ok out) :
    prev.icount ≤ out.icount ∧ (args.targetIcount ≤ out.icount ∨ out.halted = true) ∧
      out.compared.Perm (s.compared ++ (boundaries (prev.icount + 1) (out.icount + 1) ++
        twice (args.commits turns s.db))) := by
  induction turns generalizing s prev with
  | zero =>
    cases h
    refine ⟨hs.icount.ge, .inl (by rw [hs.icount]; omega), ?_⟩
    rw [hs.icount, boundaries_self]
    simp [commits, Database.commits, twice]
  | succ turns ih =>
    rw [loop] at h
    rw [commits, List.replicate_succ, Database.commits, hs.latest]
    split at h
    · rename_i hgo
      obtain ⟨htarget, -⟩ := hgo
      rw [hs.icount] at htarget
      obtain ⟨s', hturn, h⟩ := bind_ok h
      obtain ⟨hat, hdb, hcompared, hhalt⟩ := turn_ok hs hturn
      obtain ⟨hle, hhalted, hwithin, hprogress, -⟩ := Database.counted_batchRow args.step
        (args.stepK prev.icount) s.db prev
      obtain ⟨hk, hcut⟩ := stepK_cut htarget
      have hid : (s.db.batchRow args.step (args.stepK prev.icount) prev).batchId =
        prev.batchId + 1 := rfl
      have hqueue : ({ s.db with inputQueue := s.db.inputQueue ++ [] } : Database) = s.db := by
        rw [List.append_nil]
      dsimp only
      rw [if_neg (Nat.not_le.mpr htarget), hqueue, hid]
      generalize (s.db.batch args.step (args.stepK prev.icount)).settle (prev.batchId + 1) = db at *
      generalize s.db.batchRow args.step (args.stepK prev.icount) prev = row at *
      rw [compared_batch_cut hk hcut hhalted hwithin hprogress] at hcompared
      by_cases hend : row.halted = 1
      · -- the loop's condition fails at the next turn
        have hout : out = s' := by
          rw [decide_eq_true hend] at hhalt
          cases turns with
          | zero => exact (Except.ok.inj h).symm
          | succ turns =>
            rw [loop, if_neg (by simp [hhalt])] at h
            exact (Except.ok.inj h).symm
        rw [hout, hat.icount, if_pos (Or.inl hend), hcompared, hhalt]
        exact ⟨hle, .inr (decide_eq_true hend), by simp [twice]⟩
      · have hlt := hprogress (hhalted.resolve_right hend) hk
        rw [decide_eq_false hend] at hhalt
        obtain ⟨hle', hends, hrest⟩ := ih hat hhalt (by omega) h
        rw [hdb, commits] at hrest
        have hgoes : ¬(row.halted = 1 ∨ false = true) := by
          rintro (hhalts | hframe)
          · exact hend hhalts
          · cases hframe
        rw [if_neg hgoes]
        refine ⟨hle.trans hle', hends, hrest.trans ?_⟩
        have hjoin : boundaries (prev.icount + 1) (row.icount + 1) ++
            boundaries (row.icount + 1) (out.icount + 1) = _ :=
          boundaries_append (by omega) (by omega)
        rw [← hjoin, hcompared, List.perm_iff_count]
        intro n
        simp only [twice, List.flatMap_cons, List.count_append]
        omega
    · rename_i hstop
      cases h
      have htarget : args.targetIcount ≤ prev.icount := by
        rw [hs.icount, hrun] at hstop
        simpa using hstop
      rw [hs.icount]
      refine ⟨Nat.le_refl _, .inl htarget, ?_⟩
      rw [boundaries_self]
      simp [htarget, twice]

end DiffArgs

/-! ## Once each -/

/-- As many comparisons as there are boundaries after `start`, up to `final`, and a
count check that reports exactly a boundary that was left out. -/
structure ComparedOnce (start final : Nat) (compared : List Nat) (reports : Prop) : Prop where
  number : compared.length = final / checkpointInterval - start / checkpointInterval
  reported : reports ↔ ∃ n, start < n ∧ n ≤ final ∧ isBoundary n = true ∧ n ∉ compared

theorem comparedOnce_iff {start final : Nat} {compared extra : List Nat} {reports : Prop}
    (hle : start ≤ final) (h : compared.Perm (boundaries (start + 1) (final + 1) ++ extra))
    (hreports : reports ↔
      compared.length ≠ final / checkpointInterval - start / checkpointInterval) :
    ComparedOnce start final compared reports ↔ extra = [] := by
  have hlen := h.length_eq
  rw [List.length_append, length_boundaries hle] at hlen
  have hall : ¬∃ n, start < n ∧ n ≤ final ∧ isBoundary n = true ∧ n ∉ compared := by
    rintro ⟨n, hlo, hhi, hb, hn⟩
    refine hn (h.mem_iff.mpr (List.mem_append_left _ ?_))
    exact mem_boundaries.mpr ⟨hlo, Nat.lt_succ_of_le hhi, hb⟩
  rw [← List.length_eq_zero_iff]
  constructor
  · intro honce
    have := honce.number
    omega
  · intro hextra
    have hnumber : compared.length = final / checkpointInterval - start / checkpointInterval := by
      omega
    exact ⟨hnumber, iff_of_false (fun hr => hreports.mp hr hnumber) hall⟩

theorem flatMap_twice_eq_nil {rows : List CommitRow} {still : Prop} [Decidable still] :
    rows.flatMap (·.twice still) = [] ↔
      ∀ row ∈ rows, isBoundary row.icount = true → ¬(row.halted = 1 ∨ still) := by
  rw [List.flatMap_eq_nil_iff]
  refine forall₂_congr fun row _ => ?_
  rw [CommitRow.twice, endOf]
  by_cases h1 : row.halted = 1 ∨ still
  · rw [if_pos h1]
    by_cases h2 : isBoundary row.icount = true
    · rw [if_pos h2]
      exact iff_of_false (List.cons_ne_nil _ _) fun h => h h2 h1
    · rw [if_neg h2]
      exact iff_of_true rfl fun h => absurd h h2
  · rw [if_neg h1]
    exact iff_of_true rfl fun _ => h1

/-- Each checkpoint is compared once, in `run` exactly when the guest does not halt
on a boundary and no batch of no steps stands on one, in `diff` exactly when the
guest does not halt on a boundary. -/
theorem checkpoints_compared_once_iff (xxh64 : List Byte → BitVec 64) :
    (∀ (args : RunArgs) (trace : List Line) (feed : List (List (BitVec 16))) (db : Database)
        (row : CommitRow) (out : RunState), (db.seed resetRegs).latest = some row →
        args.loop xxh64 trace feed (.start (db.resumed row) row) = .ok out →
        (ComparedOnce row.icount out.icount out.compared
            (∃ e, out.countCheck row.icount = .error e) ↔
          ∀ s ∈ args.commits feed (db.resumed row), isBoundary s.icount = true →
            ¬(s.halted = 1 ∨ args.k = 0))) ∧
      ∀ (args : DiffArgs) (db : Database) (out : DiffState), db.batchCommit = [] →
        db.cpuState = [] → args.loop xxh64 args.targetIcount (DiffArgs.start db) = .ok out →
        (ComparedOnce 0 out.icount out.compared
            (∃ e, DiffArgs.countCheck checkpointInterval (out.icount / checkpointInterval)
              out.compared.length out.icount = .error e) ↔
          ∀ s ∈ args.commits args.targetIcount (DiffArgs.start db).db, isBoundary s.icount = true →
            ¬s.halted = 1) := by
  constructor
  · intro args trace feed db row out hlatest hloop
    have hstart : (RunState.start (db.resumed row) row).At row := ⟨hlatest, rfl, rfl⟩
    obtain ⟨hle, hperm⟩ := RunArgs.loop_compared hstart hloop
    rw [comparedOnce_iff hle hperm, RunArgs.twice, flatMap_twice_eq_nil]
    · rfl
    · rw [RunState.countCheck, RunState.expected]
      split_ifs with h <;> simp [h]
  · intro args db out hempty hcpu hloop
    have hseed : db.seed resetRegs = { db with batchCommit := [Database.seedRow resetRegs] } := by
      rw [Database.seed, if_pos (by rw [Database.rowsOf, hempty]; rfl), hempty]
      rfl
    have hstart : (DiffArgs.start db).At (Database.seedRow resetRegs) := by
      refine ⟨?_, rfl, rfl, ?_⟩
      · rw [DiffArgs.start, hseed]
        rfl
      · rw [DiffArgs.start, hseed]
        intro t ht
        change t ∈ db.cpuState ++ [⟨0, (Database.seedRow resetRegs).cpu, 0⟩] at ht
        rw [hcpu] at ht
        rw [List.mem_singleton.mp ht]
        exact Nat.le_refl _
    obtain ⟨hle, -, hperm⟩ := DiffArgs.loop_compared hstart rfl (Nat.le_add_left _ _) hloop
    change 0 ≤ out.icount at hle
    change out.compared.Perm (boundaries (0 + 1) (out.icount + 1) ++ _) at hperm
    rw [comparedOnce_iff hle hperm, DiffArgs.twice, flatMap_twice_eq_nil]
    · simp only [or_false]
    · rw [DiffArgs.countCheck, if_neg (by simp)]
      rw [Nat.zero_div, Nat.sub_zero]
      split_ifs with h <;> simp [h]

/-! ### A guest that halts on a boundary -/

/-- The database of `Cpu.breaksOnBoundary`, one instruction before a boundary. -/
def Database.breaksOnBoundary : Database := .loaded .four .breaksOnBoundary

/-- A run of that guest, in batches of `k` steps. -/
def RunArgs.breaksOnBoundary (k : Word) : RunArgs := ⟨Layout.four.args 8, k, 8192, none⟩

/-- The reference's line of the boundary; with every hash zero, which both sides
compute alike. -/
def breaksOnBoundaryTrace : List Line :=
  [registerLine (fun _ => 0) 4096 (ramBase + 4) (5 :: List.replicate 30 0)]

/-- Where the loop of such a run stops, and what it has compared. -/
def breaksOnBoundaryLoop (k : Word) : Except RunError RunState :=
  (RunArgs.breaksOnBoundary k).loop (fun _ => 0) breaksOnBoundaryTrace [[]]
    (.start (Database.breaksOnBoundary.resumed Cpu.breaksOnBoundary.seedRow)
      Cpu.breaksOnBoundary.seedRow)

theorem exists_of_toOption_map {ε α β : Type} {x : Except ε α} {f : α → β} {b : β}
    (h : x.toOption.map f = some b) : ∃ a, x = .ok a ∧ f a = b := by
  cases x with
  | error e => cases h
  | ok a => exact ⟨a, rfl, Option.some.inj h⟩

/-- The same guest from its start, for `diff`. -/
def DiffArgs.breaks : DiffArgs := ⟨Layout.four.args 8, 8, [], none⟩

def Database.breaks : Database := { Database.breaksOnBoundary with batchCommit := [], cpuState := [] }

/-- A batch that ends on the boundary compares it once; and a guest that halts
before the first boundary leaves `diff` nothing to compare. -/
theorem checkpoints_compared_once_cut :
    (∃ out, breaksOnBoundaryLoop 1 = .ok out ∧ ComparedOnce 4095 out.icount out.compared
        (∃ e, out.countCheck 4095 = .error e)) ∧
      ∃ out, DiffArgs.breaks.loop (fun _ => 0) 8 (DiffArgs.start .breaks) = .ok out ∧
        ComparedOnce 0 out.icount out.compared
          (∃ e, DiffArgs.countCheck checkpointInterval (out.icount / checkpointInterval)
            out.compared.length out.icount = .error e) := by
  constructor
  · have heval : (breaksOnBoundaryLoop 1).toOption.map (·.icount) = some 4096 := by decide +kernel
    obtain ⟨out, hloop, -⟩ := exists_of_toOption_map heval
    have hgoes : ∀ s ∈ (RunArgs.breaksOnBoundary 1).commits [[]]
        (Database.breaksOnBoundary.resumed Cpu.breaksOnBoundary.seedRow), isBoundary s.icount = true →
          ¬(s.halted = 1 ∨ (RunArgs.breaksOnBoundary 1).k = 0) := by decide +kernel
    exact ⟨out, hloop, ((checkpoints_compared_once_iff (fun _ => 0)).1 (.breaksOnBoundary 1)
      breaksOnBoundaryTrace [[]] .breaksOnBoundary Cpu.breaksOnBoundary.seedRow out rfl
        hloop).mpr hgoes⟩
  · have heval : (DiffArgs.breaks.loop (fun _ => 0) 8 (DiffArgs.start .breaks)).toOption.map
        (·.icount) = some 1 := by decide +kernel
    obtain ⟨out, hloop, -⟩ := exists_of_toOption_map heval
    have hgoes : ∀ s ∈ DiffArgs.breaks.commits 8 (DiffArgs.start .breaks).db,
        isBoundary s.icount = true → ¬s.halted = 1 := by decide +kernel
    exact ⟨out, hloop, ((checkpoints_compared_once_iff (fun _ => 0)).2 .breaks .breaks out rfl rfl
      hloop).mpr hgoes⟩

/-- A batch that halts on the boundary it reached compares it twice, and the count
check reports a shortfall. -/
theorem checkpoint_compared_twice :
    ∃ out, breaksOnBoundaryLoop 2 = .ok out ∧ out.icount = 4096 ∧ out.compared = [4096, 4096] ∧
      ¬ComparedOnce 4095 out.icount out.compared (∃ e, out.countCheck 4095 = .error e) := by
  have heval : (breaksOnBoundaryLoop 2).toOption.map (fun out => (out.icount, out.compared)) =
      some (4096, [4096, 4096]) := by decide +kernel
  obtain ⟨out, hloop, hout⟩ := exists_of_toOption_map heval
  obtain ⟨hicount, hcompared⟩ := Prod.mk.inj hout
  refine ⟨out, hloop, hicount, hcompared, fun honce => ?_⟩
  have hnumber := honce.number
  rw [hicount, hcompared] at hnumber
  exact absurd hnumber (by decide)

end ClickDoom
