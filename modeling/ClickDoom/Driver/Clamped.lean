import ClickDoom.Driver.Compared

/-! # Where the batches of `run` end

Each batch is cut at the next multiple of `RAM_HASH_INTERVAL`, or at the target.  A
batch may stop short of that and the next one starts off the boundary; it moves on
all the same, and is cut at the same place, so that a batch ends on every multiple.
-/
namespace ClickDoom
open ClickHouse

/-! ## The cut -/

theorem lt_stopAt {interval icount target : Nat} (hpos : 0 < interval) (h : icount < target) :
    icount < stopAt interval icount target := by
  have hlt : icount < (icount / interval + 1) * interval := by
    rw [← Nat.div_lt_iff_lt_mul hpos]
    exact Nat.lt_succ_self _
  exact Nat.lt_min.mpr ⟨hlt, h⟩

/-- No multiple of the interval lies before the next one. -/
theorem stopAt_le_of_dvd {interval icount n : Nat} (target : Nat) (hdvd : interval ∣ n)
    (hlt : icount < n) : stopAt interval icount target ≤ n := by
  obtain ⟨m, rfl⟩ := hdvd
  refine (Nat.min_le_left _ _).trans ?_
  rw [Nat.mul_comm]
  have hdiv : icount / interval < m := Nat.div_lt_of_lt_mul hlt
  exact Nat.mul_le_mul_left _ hdiv

/-- The state of the loop when key rows have arrived. -/
def RunState.fed (s : RunState) (keys : List (BitVec 16)) : RunState :=
  { s with db := { s.db with inputQueue := s.db.inputQueue ++ keys } }

theorem RunState.At.fed {s : RunState} {prev : CommitRow} (h : s.At prev)
    (keys : List (BitVec 16)) : (s.fed keys).At prev :=
  ⟨h.latest, h.icount, h.batchId⟩

/-- The line with the memory hashes agrees with the trace's. -/
def RunState.HashesAgree (xxh64 : List Byte → BitVec 64) (trace : List Line) (s : RunState) : Prop :=
  ∃ line, traceLineFor trace s.icount = some line ∧ s.db.checkpoint xxh64 = some line

namespace RunArgs
variable {args : RunArgs} {xxh64 : List Byte → BitVec 64} {trace : List Line}

theorem stepK_pos (hk : args.k ≠ 0) {icount : Nat} (h : icount < args.targetIcount) :
    0 < args.stepK icount :=
  Nat.pos_of_ne_zero fun hzero => hk ((stepK_eq_zero h).mp hzero)

theorem stepK_le {icount : Nat} (h : icount < args.targetIcount) :
    icount + args.stepK icount ≤ stopAt ramHashInterval icount args.targetIcount := by
  have hlt : icount < stopAt ramHashInterval icount args.targetIcount := lt_stopAt (by decide) h
  rw [stepK]
  split <;> omega

/-- A turn that succeeds has compared the memory hashes, on a multiple. -/
theorem afterFlush_hashes {s s' : RunState} {db : Database} {row : CommitRow} {last : Bool}
    (h : args.afterFlush xxh64 trace s db row = .ok (s', last)) (hpos : 0 < row.icount)
    (hdvd : ramHashInterval ∣ row.icount) : s'.HashesAgree xxh64 trace := by
  have hboundary : isBoundary row.icount := by
    rw [isBoundary, Bool.and_eq_true, decide_eq_true_eq, decide_eq_true_eq]
    exact ⟨hpos.ne', Nat.mod_eq_zero_of_dvd (Dvd.dvd.trans (by decide) hdvd)⟩
  have hmod : row.icount % ramHashInterval = 0 := Nat.mod_eq_zero_of_dvd hdvd
  rw [afterFlush] at h
  obtain ⟨inside, -, h⟩ := bind_ok h
  obtain ⟨atEnd, hend, h⟩ := bind_ok h
  have hagree : ∃ line, traceLineFor trace row.icount = some line ∧
      db.checkpoint xxh64 = some line := by
    rw [compareEnd, if_pos hboundary, Database.endCheckpoint, if_pos hmod] at hend
    split at hend
    · cases hend
    · rename_i actual hactual
      obtain ⟨_, hline, -⟩ := bind_ok hend
      rw [compareLine, if_pos hmod] at hline
      split at hline
      · cases hline
      · rename_i line htrace
        split at hline
        · rename_i hsame
          exact ⟨line, htrace, hactual.trans (congrArg some hsame)⟩
        · cases hline
  by_cases hhalted : row.halted = 1
  · rw [if_pos hhalted] at h
    cases h
    exact hagree
  · rw [if_neg hhalted] at h
    by_cases hframe : row.hasFrame = 1
    · rw [if_pos hframe] at h
      cases h
      exact hagree
    · rw [if_neg hframe] at h
      cases h
      exact hagree

/-- The states the loop passes, and whether it ended there. -/
inductive Turns (args : RunArgs) (xxh64 : List Byte → BitVec 64) (trace : List Line)
    (start : RunState) : RunState → Bool → Prop
  | start : Turns args xxh64 trace start start false
  | turn {s s' : RunState} {last : Bool} (h : Turns args xxh64 trace start s false)
    (htarget : s.icount < args.targetIcount) (keys : List (BitVec 16))
    (hturn : args.turn xxh64 trace (s.fed keys) = .ok (s', last)) :
    Turns args xxh64 trace start s' last

/-- What one batch adds to the count. -/
structure Moves (args : RunArgs) (icount : Nat) (row : CommitRow) : Prop where
  progress : row.halted ≠ 1 → icount < row.icount
  stop : row.icount ≤ stopAt ramHashInterval icount args.targetIcount
  halt : row.halted = 1 → row.icount < stopAt ramHashInterval icount args.targetIcount

/-- A row that counts at least one step, and no more than there are up to the cut, moves
on. -/
theorem moves_of_counted {icount k : Nat} {row : CommitRow} (hpos : 0 < k)
    (hcut : icount + k ≤ stopAt ramHashInterval icount args.targetIcount)
    (hhalted : row.halted = 0 ∨ row.halted = 1) (hwithin : row.icount + row.halted.toNat ≤ icount + k)
    (hprogress : row.halted = 0 → 0 < k → icount < row.icount) : args.Moves icount row := by
  refine ⟨fun hrow => ?_, by omega, fun hrow => ?_⟩
  · exact hprogress (hhalted.resolve_right hrow) hpos
  · rw [hrow] at hwithin
    exact Nat.lt_of_lt_of_le hwithin hcut

/-- A batch of at least one step moves on, unless it halts, and not past its cut. -/
theorem moves_batchRow (hk : args.k ≠ 0) {prev : CommitRow} (htarget : prev.icount < args.targetIcount)
    (db : Database) :
    args.Moves prev.icount (db.batchRow args.step (args.stepK prev.icount) prev) := by
  obtain ⟨-, hhalted, hwithin, hprogress, -⟩ :=
    Database.counted_batchRow args.step (args.stepK prev.icount) db prev
  exact moves_of_counted (stepK_pos hk htarget) (stepK_le htarget) hhalted hwithin hprogress

theorem turn_moves (hk : args.k ≠ 0) {s s' : RunState} {prev : CommitRow} {last : Bool}
    (hs : s.At prev) (htarget : s.icount < args.targetIcount) {keys : List (BitVec 16)}
    (h : args.turn xxh64 trace (s.fed keys) = .ok (s', last)) :
    ∃ row, s'.At row ∧ args.Moves s.icount row ∧
      (0 < row.icount → ramHashInterval ∣ row.icount → s'.HashesAgree xxh64 trace) := by
  rw [hs.icount] at htarget ⊢
  refine ⟨_, (turn_ok (hs.fed keys) h).1, moves_batchRow hk htarget _, ?_⟩
  rw [turn_eq (hs.fed keys)] at h
  exact afterFlush_hashes h

theorem Turns.at_row {start s : RunState} {resume : CommitRow} {last : Bool}
    (h : args.Turns xxh64 trace start s last) (hstart : start.At resume) : ∃ row, s.At row := by
  induction h with
  | start => exact ⟨resume, hstart⟩
  | turn _ _ keys hturn ih =>
    obtain ⟨prev, hprev⟩ := ih
    exact ⟨_, (turn_ok (hprev.fed keys) hturn).1⟩

/-- A turn of the run ends on `n`, with the memory hashes compared. -/
def EndsOn (args : RunArgs) (xxh64 : List Byte → BitVec 64) (trace : List Line) (start : RunState)
    (n : Nat) : Prop :=
  ∃ s s' keys last, args.Turns xxh64 trace start s false ∧ s.icount < args.targetIcount ∧
    args.turn xxh64 trace (s.fed keys) = .ok (s', last) ∧ s'.icount = n ∧
    s'.HashesAgree xxh64 trace

/-- A multiple that a turn reaches is where the turn ends. -/
theorem Turns.endsOn (hk : args.k ≠ 0) {start s : RunState} {resume : CommitRow} {last : Bool}
    (h : args.Turns xxh64 trace start s last) (hstart : start.At resume) {n : Nat}
    (hdvd : ramHashInterval ∣ n) (hlt : start.icount < n) (hle : n ≤ s.icount) :
    args.EndsOn xxh64 trace start n := by
  induction h with
  | start => exact absurd hlt (Nat.not_lt.mpr hle)
  | @turn s s' last h htarget keys hturn ih =>
    by_cases hbefore : n ≤ s.icount
    · exact ih hbefore
    · obtain ⟨prev, hprev⟩ := h.at_row hstart
      obtain ⟨row, hat, hmoves, hhashes⟩ := turn_moves hk hprev htarget hturn
      have hcut := stopAt_le_of_dvd args.targetIcount hdvd (Nat.lt_of_not_le hbefore)
      have hrow : row.icount = n :=
        Nat.le_antisymm (hmoves.stop.trans hcut) (hat.icount ▸ hle)
      refine ⟨s, s', keys, last, h, htarget, hturn, hat.icount.trans hrow, hhashes ?_ ?_⟩
      · omega
      · exact hrow ▸ hdvd

/-- The loop ends in a state its turns pass. -/
theorem Turns.loop {start s out : RunState} (h : args.Turns xxh64 trace start s false)
    {feed : List (List (BitVec 16))} (hloop : args.loop xxh64 trace feed s = .ok out) :
    ∃ s' last, args.Turns xxh64 trace start s' last ∧ out.icount = s'.icount := by
  induction feed generalizing s with
  | nil =>
    cases hloop
    exact ⟨s, false, h, rfl⟩
  | cons keys feed ih =>
    rw [RunArgs.loop] at hloop
    split at hloop
    · cases hloop
      exact ⟨s, false, h, rfl⟩
    · rename_i htarget
      obtain ⟨⟨s', last⟩, hturn, hloop⟩ := bind_ok hloop
      have h' : args.Turns xxh64 trace start s' last := h.turn (Nat.lt_of_not_le htarget) keys hturn
      cases last with
      | true =>
        have hout : s' = out := Except.ok.inj hloop
        exact ⟨s', true, h', congrArg (·.icount) hout.symm⟩
      | false => exact ih h' hloop

end RunArgs

/-- Each turn of `run` that does not halt moves on, and none passes a multiple of
`RAM_HASH_INTERVAL` or the target; so that a batch ends on every multiple up to where
the run is, and its memory hashes are compared there. -/
theorem memory_hashes_compared {args : RunArgs} (hk : args.k ≠ 0) {xxh64 : List Byte → BitVec 64}
    {trace : List Line} {db : Database} {resume : CommitRow}
    (hresume : (db.seed resetRegs).latest = some resume) :
    (∀ s, args.Turns xxh64 trace (.start (db.resumed resume) resume) s false →
        s.icount < args.targetIcount → ∀ keys s' last,
          args.turn xxh64 trace (s.fed keys) = .ok (s', last) →
          ∃ row, s'.db.latest = some row ∧ s'.icount = row.icount ∧
            (row.halted ≠ 1 → s.icount < s'.icount) ∧ s'.icount ≤ args.targetIcount ∧
            ∀ n, ramHashInterval ∣ n → s.icount < n → s'.icount ≤ n) ∧
      (∀ s last, args.Turns xxh64 trace (.start (db.resumed resume) resume) s last →
        ∀ n, ramHashInterval ∣ n → resume.icount < n → n ≤ s.icount →
          args.EndsOn xxh64 trace (.start (db.resumed resume) resume) n) ∧
      ∀ feed out, args.loop xxh64 trace feed (.start (db.resumed resume) resume) = .ok out →
        ∀ n, ramHashInterval ∣ n → resume.icount < n → n ≤ out.icount →
          args.EndsOn xxh64 trace (.start (db.resumed resume) resume) n := by
  have hstart : (RunState.start (db.resumed resume) resume).At resume := ⟨hresume, rfl, rfl⟩
  refine ⟨?_, ?_, ?_⟩
  · intro s h htarget keys s' last hturn
    obtain ⟨prev, hprev⟩ := h.at_row hstart
    obtain ⟨row, hat, hmoves, -⟩ := RunArgs.turn_moves hk hprev htarget hturn
    rw [hat.icount]
    refine ⟨row, hat.latest, rfl, hmoves.progress, ?_, fun n hdvd hlt => ?_⟩
    · exact hmoves.stop.trans (Nat.min_le_right _ _)
    · exact hmoves.stop.trans (stopAt_le_of_dvd _ hdvd hlt)
  · intro s last h n hdvd hlt hle
    exact h.endsOn hk hstart hdvd hlt hle
  · intro feed out hloop n hdvd hlt hle
    obtain ⟨s, last, h, hicount⟩ := RunArgs.Turns.start.loop hloop
    exact h.endsOn hk hstart hdvd hlt (hicount ▸ hle)

/-! ### A guest one instruction before a multiple -/

/-- `Cpu.breaksOnBoundary`'s row, counted up to there. -/
def CommitRow.beforeHash : CommitRow :=
  { Cpu.breaksOnBoundary.seedRow with icount := ramHashInterval - 1 }

def Database.beforeHash : Database := { Database.breaksOnBoundary with batchCommit := [.beforeHash] }

def RunArgs.beforeHash : RunArgs := ⟨Layout.four.args 8, 100, 2 * ramHashInterval, none⟩

/-- The reference's line of the multiple; with every hash zero, which both sides
compute alike. -/
def beforeHashTrace : List Line :=
  [registerLine (fun _ => 0) ramHashInterval (ramBase + 4) (5 :: List.replicate 30 0) ++
    List.replicate 2 (hexDigits 16 0)]

/-- A hundred steps are asked for, and one is taken. -/
theorem loop_beforeHash : (RunArgs.beforeHash.loop (fun _ => 0) beforeHashTrace [[]]
    (.start (Database.beforeHash.resumed .beforeHash) .beforeHash)).toOption.map (·.icount) =
      some ramHashInterval := by
  decide +kernel

theorem memory_hashes_compared_beforeHash :
    RunArgs.beforeHash.EndsOn (fun _ => 0) beforeHashTrace
      (.start (Database.beforeHash.resumed .beforeHash) .beforeHash) ramHashInterval := by
  obtain ⟨out, hloop, hicount⟩ := exists_of_toOption_map loop_beforeHash
  have hresume : (Database.beforeHash.seed resetRegs).latest = some .beforeHash := rfl
  exact (memory_hashes_compared (by decide) hresume).2.2 [[]] out hloop ramHashInterval
    (Nat.dvd_refl _) (by decide) hicount.ge

end ClickDoom
