import ClickDoom.Executor.BatchRuns
import ClickDoom.Refemu.Trace

/-! # The checkpoints of a run

The fold records the state at a boundary one step after the instruction that
reached it, and the boundary a batch ends on is read from its committed row.  The
two together have every boundary the batch crossed, once each, but for one case: a
batch that halts at a boundary it reached itself took another step there, so the
boundary is among its checkpoints and in its row as well.
-/
namespace ClickDoom
open ClickHouse

/-- One register checkpoint. -/
structure CpEntry where
  icount : Nat
  pc : Word
  regs : List Word
  deriving DecidableEq

def Cpu.entry (c : Cpu) : CpEntry := ⟨c.icount, c.pc, c.regFile⟩

/-- A count at which a checkpoint is due. -/
def isBoundary (icount : Nat) : Bool := icount ≠ 0 && icount % checkpointInterval = 0

/-- The checkpoint due where the machine stands. -/
def Cpu.mark (c : Cpu) : List CpEntry := if isBoundary c.icount then [c.entry] else []

/-- The checkpoints of the next `n` instructions. -/
def Cpu.marks (c : Cpu) : Nat → List CpEntry
  | 0 => []
  | n + 1 =>
    match c.stepReporting with
    | (.error _, _) => []
    | (.ok _, c') => c'.mark ++ c'.marks n

/-! ## Checkpoints as columns -/

namespace Checkpoints

/-- The columns of equal length, 31 registers an entry. -/
structure WellFormed (cp : Checkpoints) : Prop where
  length_pc : cp.pc.length = cp.icount.length
  length_regs : cp.regs.length = cp.icount.length * 31

/-- The entries of the columns, as the driver reads them. -/
def entries (cp : Checkpoints) : List CpEntry :=
  (List.range cp.icount.length).map fun n =>
    ⟨cp.icount.getD n 0, cp.pc.getD n 0, arraySlice cp.regs (n * 31 + 1) 31⟩

/-- Appends one entry. -/
def push (cp : Checkpoints) (e : CpEntry) : Checkpoints :=
  ⟨arrayPushBack cp.icount e.icount, arrayPushBack cp.pc e.pc, cp.regs ++ e.regs⟩

variable {cp : Checkpoints} (h : cp.WellFormed) {e : CpEntry} (he : e.regs.length = 31)
include h he

theorem WellFormed.push : (cp.push e).WellFormed where
  length_pc := by simp [Checkpoints.push, arrayPushBack, h.length_pc]
  length_regs := by
    simp [Checkpoints.push, arrayPushBack, h.length_regs, he]
    omega

theorem entries_push : (cp.push e).entries = cp.entries ++ [e] := by
  have hpc := h.length_pc
  have hregs := h.length_regs
  have hlen : (cp.push e).icount.length = cp.icount.length + 1 := by
    simp [Checkpoints.push, arrayPushBack]
  rw [entries, hlen, List.range_succ, List.map_append, entries]
  congr 1
  · apply List.map_congr_left
    intro n hn
    rw [List.mem_range] at hn
    have htake : n * 31 + 31 ≤ cp.regs.length := by omega
    simp only [Checkpoints.push, arrayPushBack, arraySlice, List.getD_eq_getElem?_getD,
      List.getElem?_append_left hn, List.getElem?_append_left (by omega : n < cp.pc.length),
      Nat.add_sub_cancel]
    rw [List.drop_append_of_le_length (by omega), List.take_append_of_le_length]
    rw [List.length_drop]
    omega
  · have hdrop : (cp.regs ++ e.regs).drop (cp.icount.length * 31) = e.regs := by
      rw [← hregs, List.drop_left]
    have hpush : ∀ {l : List Word}, l.length = cp.icount.length →
        (l ++ [e.pc])[cp.icount.length]? = some e.pc := by
      rintro l hl
      rw [← hl]
      exact List.getElem?_concat_length
    simp only [Checkpoints.push, arrayPushBack, arraySlice, List.getD_eq_getElem?_getD,
      List.getElem?_concat_length, hpush hpc, Nat.add_sub_cancel, hdrop, List.map_cons,
      List.map_nil, Option.getD_some]
    rw [List.take_of_length_le he.le]

end Checkpoints

/-- What a batch that starts at `c` records, at the first step of the batch or at
a later one: an active step records the boundary it starts at, except the
first. -/
def Cpu.recorded (hwm : Nat) (first : Bool) : Nat → Nat → Cpu → List CpEntry
  | 0, _, _ => []
  | k + 1, stores, c =>
    (if first then [] else c.mark) ++
      match c.stepReporting with
      | (.error _, _) => []
      | (.ok (_, insn), c') =>
        if (c.storesToRam insn && hwm ≤ stores + 1) || c'.frames ≠ c.frames then []
        else recorded hwm false k (if c.storesToRam insn then stores + 1 else stores) c'

theorem Cpu.length_regFile (c : Cpu) : c.regFile.length = 31 := by
  rw [regFile, List.length_tail, Vector.length_toList]

/-! ## What the fold records -/

section
variable {o : Origin}

/-- A step's checkpoint columns. -/
theorem cp_step {acc : Acc} {c : Cpu} {r : Registers} (h : Agrees o acc c r)
    (hrun : acc.control = .running) (hwm : Word) (i : Nat) :
    (o.step hwm acc i).cp =
      if 0 < i && isBoundary c.icount then acc.cp.push c.entry else acc.cp := by
  have hactive : active (o.env hwm acc i) = true := by
    change decide (acc.control.stopped = 0) = true
    rw [hrun]
    rfl
  have hat : atCheckpoint (o.env hwm acc i) = (decide (0 < i) && isBoundary c.icount) := by
    have hi : (o.env hwm acc i).i = i := rfl
    have hicount : (o.env hwm acc i).acc.icount = c.icount := h.icount
    rw [atCheckpoint, hactive, hi, hicount, isBoundary, Bool.true_and, Bool.and_assoc]
  rw [step_eq]
  change newCp (o.env hwm acc i) = _
  rw [newCp, hat]
  change (if _ then (⟨acc.cp.icount ++ [acc.icount], acc.cp.pc ++ [acc.pc], acc.cp.regs ++ acc.regs⟩ :
    Checkpoints) else acc.cp) = _
  rw [h.icount, h.pc, h.regs]
  rfl

/-- The fold's checkpoints are the ones recorded step by step along the machine's
run. -/
theorem foldl_cp (hwm : Word) (k i : Nat) {acc : Acc} {c : Cpu} {r : Registers}
    (h : Agrees o acc c r) (hrun : acc.control = .running)
    (hlen : acc.wl.addr.length + k ≤ 2 ^ 32) (hpixels : ∀ d, c.Reaches d → ¬d.LoadsPixels)
    (hcp : acc.cp.WellFormed) :
    ((List.range' i k).foldl (o.step hwm) acc).cp.entries =
      acc.cp.entries ++ c.recorded hwm.toNat (i = 0) k acc.wl.addr.length := by
  induction k generalizing i acc c r with
  | zero => exact (List.append_nil _).symm
  | succ k ih =>
    rw [List.range'_succ, List.foldl_cons]
    have hstepcp := cp_step h hrun hwm i
    have hregs : c.entry.regs.length = 31 := c.length_regFile
    have hentries : (o.step hwm acc i).cp.entries =
        acc.cp.entries ++ (if decide (i = 0) then [] else c.mark) := by
      rw [hstepcp, Cpu.mark]
      rcases Nat.eq_zero_or_pos i with rfl | hi
      · simp
      · by_cases hb : isBoundary c.icount = true
        · simp [hi, hi.ne', hb, Checkpoints.entries_push hcp hregs]
        · simp [hi.ne', hb]
    have hwf : (o.step hwm acc i).cp.WellFormed := by
      rw [hstepcp]
      split
      · exact hcp.push hregs
      · exact hcp
    cases stepAgrees h hrun hwm i (by omega) (hpixels c .refl) with
    | halts halt hstep hagrees hcontrol hfb hpal =>
      have hfrozen : (o.step hwm acc i).control.stopped ≠ 0 := by
        rw [hcontrol]
        exact (by decide : (1 : Byte) ≠ 0)
      have hfold : (List.range' (i + 1) k).foldl (o.step hwm) (o.step hwm acc i) = o.step hwm acc i :=
        foldl_stopped hfrozen _
      rw [hfold, hentries, Cpu.recorded, hstep, List.append_nil]
    | retires word insn c' r' hstep hagrees hstores hcontrol hcommits hfb hpal =>
      by_cases hend : (c.storesToRam insn && decide (hwm.toNat ≤ acc.wl.addr.length + 1) ||
          decide (c'.frames ≠ c.frames)) = true
      · rw [if_pos hend] at hcontrol
        have hfrozen : (o.step hwm acc i).control.stopped ≠ 0 := by
          rw [hcontrol]
          exact (by decide : (1 : Byte) ≠ 0)
        have hfold : (List.range' (i + 1) k).foldl (o.step hwm) (o.step hwm acc i) =
            o.step hwm acc i := foldl_stopped hfrozen _
        rw [hfold, hentries, Cpu.recorded, hstep]
        simp only [hend, if_true, List.append_nil]
      · rw [if_neg hend] at hcontrol
        have hlen' : (o.step hwm acc i).wl.addr.length + k ≤ 2 ^ 32 := by
          rw [hstores]
          split <;> omega
        have hrest := ih (i + 1) hagrees hcontrol hlen'
          (fun d hd => hpixels d ((Cpu.Reaches.step hstep).trans hd)) hwf
        rw [hrest, hentries, List.append_assoc, Cpu.recorded, hstep, hstores]
        simp only [hend, if_false, Nat.add_one_ne_zero, decide_false, Bool.false_eq_true]

end

/-! ## Against the machine's own boundaries -/

namespace Cpu

/-- A machine that halts stays as it was. -/
theorem Fits.stepReporting_halt {c : Cpu} {L : Layout} {r : Registers} (h : c.Fits L r) {halt : Halt}
    {d : Cpu} (hstep : c.stepReporting = (.error halt, d)) : d = c := by
  have herror : c.step.1 = .error halt := by
    rw [Cpu.step, hstep]
    rfl
  have hsame := (step_error_unchanged h.separate h.textInRam herror).1
  rw [Cpu.step, hstep] at hsame
  exact hsame

theorem Fits.stepReporting_retires {c : Cpu} {L : Layout} {r : Registers} (h : c.Fits L r)
    {word : Word} {insn : Instruction} {d : Cpu} (hstep : c.stepReporting = (.ok (word, insn), d)) :
    ∃ r', d.Fits L r' := by
  obtain ⟨r', hdevices, hipms⟩ := stepReporting_registers c h.devices
  rw [hstep] at hdevices
  exact ⟨r', h.step hstep hdevices hipms⟩

/-- A batch reaches where it stops. -/
theorem Fits.reaches_runBatch {c : Cpu} {L : Layout} {r : Registers} (h : c.Fits L r)
    (hwm k stores : Nat) : c.Reaches (c.runBatch hwm k stores).cpu := by
  induction k generalizing c r stores with
  | zero => exact .refl
  | succ k ih =>
    rw [runBatch]
    cases hs : c.stepReporting with
    | mk result d =>
      cases result with
      | error halt =>
        rw [h.stepReporting_halt hs]
        exact .refl
      | ok p =>
        obtain ⟨r', hfits⟩ := h.stepReporting_retires hs
        dsimp only
        split
        · exact Reaches.step hs
        · exact (Reaches.step hs).trans (ih hfits _)

/-- After the first step a batch records the boundary it starts at and all it
crosses; the one it stops at is in its row, unless it halted and took one step
more. -/
theorem Fits.recorded_later {c : Cpu} {L : Layout} {r : Registers} (h : c.Fits L r)
    (hwm k stores : Nat) :
    c.recorded hwm false k stores ++
        (if (c.runBatch hwm k stores).halt.isSome then [] else (c.runBatch hwm k stores).cpu.mark) =
      c.mark ++ c.marks ((c.runBatch hwm k stores).cpu.icount - c.icount) := by
  induction k generalizing c r stores with
  | zero => simp [recorded, runBatch, marks]
  | succ k ih =>
    rw [recorded, runBatch]
    cases hs : c.stepReporting with
    | mk result d =>
      cases result with
      | error halt =>
        obtain rfl := h.stepReporting_halt hs
        simp [marks]
      | ok p =>
        obtain ⟨r', hfits⟩ := h.stepReporting_retires hs
        have hcount := icount_stepReporting hs
        dsimp only
        by_cases hend : (c.storesToRam p.2 && decide (hwm ≤ stores + 1) ||
          decide (d.frames ≠ c.frames)) = true
        · have hone : d.icount - c.icount = 0 + 1 := by omega
          simp only [if_pos hend]
          rw [hone, marks, hs]
          simp [marks]
        · simp only [if_neg hend]
          generalize (if c.storesToRam p.2 then stores + 1 else stores) = n
          have hle := (hfits.reaches_runBatch hwm k n).icount_le
          have hsub : (d.runBatch hwm k n).cpu.icount - c.icount =
              ((d.runBatch hwm k n).cpu.icount - d.icount) + 1 := by omega
          simp only [Bool.false_eq_true, if_false, List.append_assoc]
          rw [hsub, marks, hs, ih hfits n]

/-- From its first step a batch records all it crosses. -/
theorem Fits.recorded_first {c : Cpu} {L : Layout} {r : Registers} (h : c.Fits L r)
    (hwm k stores : Nat) :
    c.recorded hwm true k stores ++
        (if (c.runBatch hwm k stores).halt.isSome ∨
            (c.runBatch hwm k stores).cpu.icount = c.icount then []
          else (c.runBatch hwm k stores).cpu.mark) =
      c.marks ((c.runBatch hwm k stores).cpu.icount - c.icount) := by
  cases k with
  | zero => simp [recorded, runBatch, marks]
  | succ k =>
    rw [recorded, runBatch]
    cases hs : c.stepReporting with
    | mk result d =>
      cases result with
      | error halt =>
        obtain rfl := h.stepReporting_halt hs
        simp [marks]
      | ok p =>
        obtain ⟨r', hfits⟩ := h.stepReporting_retires hs
        have hcount := icount_stepReporting hs
        dsimp only
        by_cases hend : (c.storesToRam p.2 && decide (hwm ≤ stores + 1) ||
          decide (d.frames ≠ c.frames)) = true
        · have hone : d.icount - c.icount = 0 + 1 := by omega
          simp only [if_pos hend]
          rw [hone, marks, hs]
          simp [marks, hcount]
        · simp only [if_neg hend]
          generalize (if c.storesToRam p.2 then stores + 1 else stores) = n
          have hle := (hfits.reaches_runBatch hwm k n).icount_le
          have hsub : (d.runBatch hwm k n).cpu.icount - c.icount =
              ((d.runBatch hwm k n).cpu.icount - d.icount) + 1 := by omega
          have hne : ¬(d.runBatch hwm k n).cpu.icount = c.icount := by omega
          have hrest := hfits.recorded_later hwm k n
          rw [hsub, marks, hs]
          simpa [hne] using hrest

end Cpu

/-! ## The rows of a run -/

/-- The checkpoints a batch carries and the one in its row. -/
def CommitRow.records (row : CommitRow) : List CpEntry :=
  row.cp.entries ++ if isBoundary row.icount then [⟨row.icount, row.pc, row.regs⟩] else []

/-- A row as the batch of `c` commits it. -/
structure CommitRow.Of (row : CommitRow) (c : Cpu) (b : BatchSpec) : Prop where
  icount : row.icount = (c.runBatch b.hwm.toNat b.k.toNat 0).cpu.icount
  pc : row.pc = (c.runBatch b.hwm.toNat b.k.toNat 0).cpu.pc
  regs : row.regs = (c.runBatch b.hwm.toNat b.k.toNat 0).cpu.regFile
  entries : row.cp.entries = c.recorded b.hwm.toNat true b.k.toNat 0

/-- The rows of the batches of a run, in order. -/
def Committed : Cpu → List BatchSpec → List CommitRow → Prop
  | _, [], [] => True
  | c, b :: bs, row :: rows =>
    row.Of c b ∧ Committed (c.runBatch b.hwm.toNat b.k.toNat 0).cpu bs rows
  | _, _, _ => False

/-- A run adds the rows of its batches. -/
theorem Stands.committed {L : Layout} {all : List (BitVec 16)} {fb pal : Nat → Prop} {db : Database}
    {row : CommitRow} {c : Cpu} {r : Registers} (h : Stands L all fb pal db row c r)
    (hall : all.length < 2 ^ 32) (bs : List BatchSpec)
    (hpixels : ∀ d, c.Reaches d → ¬d.LoadsPixels) (hfed : FedRun all db.inputQueue c bs) :
    ∃ rows, (db.run L bs).batchCommit = db.batchCommit ++ rows ∧ Committed c bs rows := by
  induction bs generalizing db row c r fb pal with
  | nil => exact ⟨[], (List.append_nil _).symm, trivial⟩
  | cons b bs ih =>
    obtain ⟨hfed, hrest⟩ := hfed
    obtain ⟨r₁, hrun, hrows, hstands⟩ := h.advance hall b hpixels hfed
    have hqueue : (db.advance L b).inputQueue = db.inputQueue ++ b.keys := by
      rw [Database.advance, h.batch_eq hall b hrun hfed]
      split <;> rfl
    rw [← hqueue] at hrest
    obtain ⟨rows, hcommit, hcommitted⟩ := ih hstands
      (fun d hd => hpixels d (hrun.reaches.trans hd)) hrest
    refine ⟨(h.acc hall b).row (row.batchId + 1) :: rows, ?_, ⟨?_, ?_, ?_, ?_⟩, hcommitted⟩
    · rw [hrows, List.append_assoc] at hcommit
      exact hcommit
    · exact hrun.agrees.icount
    · exact hrun.agrees.pc
    · exact hrun.agrees.regs
    · have hk := b.k.isLt
      have hcp := foldl_cp b.hwm b.k.toNat 0 (agrees_start (h.origin hall)) rfl
        (by change 0 + b.k.toNat ≤ 2 ^ 32; omega) hpixels ⟨rfl, rfl⟩
      change (h.acc hall b).cp.entries = _
      rw [Stands.acc, foldBatch, arrayFold, List.range_eq_range']
      exact hcp


/-! ## Every boundary, once -/

namespace Cpu
variable {c d : Cpu}

theorem after_add (c : Cpu) (m n : Nat) : (c.after m).after n = c.after (m + n) := by
  induction m generalizing c with
  | zero => rw [Nat.zero_add, after]
  | succ m ih => rw [Nat.succ_add, after, after, ih]

/-- A machine seen from further back. -/
theorem Reaches.after_eq (h : c.Reaches d) {n : Nat} (hn : d.icount ≤ n) :
    d.after (n - d.icount) = c.after (n - c.icount) := by
  have hle := h.icount_le
  have hsub : d.icount - c.icount + (n - d.icount) = n - c.icount := by omega
  have hd := h.after
  generalize hm : d.icount - c.icount = m at hsub hd
  rw [hd, after_add, ← hd, hsub]

/-- The machine at a count on the way has that count. -/
theorem Reaches.icount_after (h : c.Reaches d) {n : Nat} (hlt : c.icount ≤ n) (hle : n ≤ d.icount) :
    (c.after (n - c.icount)).icount = n := by
  induction h using Relation.ReflTransGen.head_induction_on with
  | refl =>
    obtain rfl : n = d.icount := by omega
    rw [Nat.sub_self]
    rfl
  | @head c c' hstep hrest ih =>
    obtain ⟨word, insn, hs⟩ := stepReporting_of_step hstep
    have hcount := icount_stepReporting hs
    rcases Nat.eq_or_lt_of_le hlt with rfl | hlt
    · rw [Nat.sub_self]
      rfl
    · have hafter := Reaches.after_eq (Reaches.step hs) (n := n) (by omega)
      rw [← hafter]
      exact ih (by omega)

/-- What the marks between two machines are: the boundaries crossed, in order, each
with the machine's state there. -/
structure MarksSpec (c d : Cpu) (es : List CpEntry) : Prop where
  sorted : (es.map (·.icount)).Pairwise (· < ·)
  sound : ∀ e ∈ es, c.icount < e.icount ∧ e.icount ≤ d.icount ∧ isBoundary e.icount = true ∧
    e = (c.after (e.icount - c.icount)).entry
  complete : ∀ n, c.icount < n → n ≤ d.icount → isBoundary n = true →
    (c.after (n - c.icount)).entry ∈ es

theorem mem_mark {e : CpEntry} : e ∈ c.mark ↔ isBoundary c.icount = true ∧ e = c.entry := by
  rw [mark]
  split_ifs with h
  · simp [h]
  · simp [h]

theorem Reaches.marks (h : c.Reaches d) : MarksSpec c d (c.marks (d.icount - c.icount)) := by
  induction h using Relation.ReflTransGen.head_induction_on with
  | refl =>
    rw [Nat.sub_self]
    exact ⟨List.Pairwise.nil, fun e he => absurd he List.not_mem_nil, fun n h1 h2 => by omega⟩
  | @head c c' hstep hrest ih =>
    obtain ⟨word, insn, hs⟩ := stepReporting_of_step hstep
    have hcount := icount_stepReporting hs
    have hle := Reaches.icount_le hrest
    have hsub : d.icount - c.icount = (d.icount - c'.icount) + 1 := by omega
    have hafter : ∀ n, c'.icount ≤ n → c'.after (n - c'.icount) = c.after (n - c.icount) := fun n hn =>
      Reaches.after_eq (Reaches.step hs) hn
    rw [hsub, Cpu.marks, hs]
    refine ⟨?_, ?_, ?_⟩
    · rw [List.map_append, List.pairwise_append]
      refine ⟨?_, ih.sorted, ?_⟩
      · rw [mark]
        split_ifs <;> simp
      · intro a ha b hb
        obtain ⟨e, he, rfl⟩ := List.mem_map.mp ha
        obtain ⟨e', he', rfl⟩ := List.mem_map.mp hb
        rw [(mem_mark.mp he).2]
        exact (ih.sound e' he').1
    · intro e he
      rcases List.mem_append.mp he with he | he
      · obtain ⟨hb, rfl⟩ := mem_mark.mp he
        refine ⟨?_, hle, hb, ?_⟩
        · change c.icount < c'.icount
          omega
        · change c'.entry = (c.after (c'.icount - c.icount)).entry
          rw [← hafter _ (Nat.le_refl _), Nat.sub_self]
          rfl
      · obtain ⟨h1, h2, h3, h4⟩ := ih.sound e he
        refine ⟨by omega, h2, h3, ?_⟩
        rw [← hafter _ h1.le]
        exact h4
    · intro n h1 h2 h3
      rw [List.mem_append]
      rcases Nat.lt_or_ge c'.icount n with hlt | hge
      · right
        have := ih.complete n hlt h2 h3
        rwa [hafter _ hlt.le] at this
      · left
        obtain rfl : n = c'.icount := by omega
        rw [mem_mark, ← hafter _ (Nat.le_refl _), Nat.sub_self]
        exact ⟨h3, rfl⟩

end Cpu

/-- The batch halts at a boundary it has reached itself. -/
def Cpu.HaltsOnBoundary (c : Cpu) (b : BatchSpec) : Prop :=
  (c.runBatch b.hwm.toNat b.k.toNat 0).halt.isSome = true ∧
    c.icount < (c.runBatch b.hwm.toNat b.k.toNat 0).cpu.icount ∧
    isBoundary (c.runBatch b.hwm.toNat b.k.toNat 0).cpu.icount = true

instance (c : Cpu) (b : BatchSpec) : Decidable (c.HaltsOnBoundary b) :=
  inferInstanceAs (Decidable (_ ∧ _ ∧ _))

/-- No batch of a run does. -/
def Cpu.NoneHaltsOnBoundary : Cpu → List BatchSpec → Prop
  | _, [] => True
  | c, b :: bs =>
    ¬c.HaltsOnBoundary b ∧ NoneHaltsOnBoundary (c.runBatch b.hwm.toNat b.k.toNat 0).cpu bs

section
variable {L : Layout} {c : Cpu} {r : Registers} {b : BatchSpec} {row : CommitRow}
  (h : c.Fits L r) (hrow : row.Of c b)
include h hrow

omit h in
theorem records_eq : row.records = c.recorded b.hwm.toNat true b.k.toNat 0 ++
    (c.runBatch b.hwm.toNat b.k.toNat 0).cpu.mark := by
  rw [CommitRow.records, hrow.entries, hrow.icount, hrow.pc, hrow.regs]
  rfl

/-- A batch's records, in any case: the boundaries it crossed and the machine it
stopped at. -/
theorem mem_records {e : CpEntry} : e ∈ row.records ↔
    e ∈ c.marks ((c.runBatch b.hwm.toNat b.k.toNat 0).cpu.icount - c.icount) ∨
      e ∈ (c.runBatch b.hwm.toNat b.k.toNat 0).cpu.mark := by
  have hfirst := h.recorded_first b.hwm.toNat b.k.toNat 0
  have hmarks := (h.reaches_runBatch b.hwm.toNat b.k.toNat 0).marks
  rw [records_eq hrow, List.mem_append, ← hfirst, List.mem_append]
  split_ifs
  · simp
  · rw [or_assoc, or_self]

/-- A batch's row has every boundary the batch crossed. -/
theorem entry_mem_records {n : Nat} (hlt : c.icount < n)
    (hle : n ≤ (c.runBatch b.hwm.toNat b.k.toNat 0).cpu.icount) (hn : isBoundary n = true) :
    (c.after (n - c.icount)).entry ∈ row.records := by
  rw [mem_records h hrow]
  exact .inl ((h.reaches_runBatch _ _ _).marks.complete n hlt hle hn)

/-- And no state the machine was not in. -/
theorem eq_of_mem_records {e : CpEntry} (he : e ∈ row.records) :
    c.icount ≤ e.icount ∧ e.icount ≤ (c.runBatch b.hwm.toNat b.k.toNat 0).cpu.icount ∧
      isBoundary e.icount = true ∧ e = (c.after (e.icount - c.icount)).entry := by
  have hreach := h.reaches_runBatch b.hwm.toNat b.k.toNat 0
  rcases (mem_records h hrow).mp he with he | he
  · obtain ⟨hlt, hle, hb, heq⟩ := hreach.marks.sound e he
    exact ⟨hlt.le, hle, hb, heq⟩
  · obtain ⟨hb, rfl⟩ := Cpu.mem_mark.mp he
    refine ⟨hreach.icount_le, Nat.le_refl _, hb, ?_⟩
    exact congrArg Cpu.entry hreach.after

/-- Within one batch a boundary is recorded twice exactly when the batch halts
there. -/
theorem nodup_records_iff : (row.records.map (·.icount)).Nodup ↔ ¬c.HaltsOnBoundary b := by
  have hreach := h.reaches_runBatch b.hwm.toNat b.k.toNat 0
  have hfirst := h.recorded_first b.hwm.toNat b.k.toNat 0
  have hmarks := hreach.marks
  have hnodup : ((c.marks ((c.runBatch b.hwm.toNat b.k.toNat 0).cpu.icount - c.icount)).map
      (·.icount)).Nodup := hmarks.sorted.imp ne_of_lt
  have hle := hreach.icount_le
  rw [records_eq hrow, Cpu.HaltsOnBoundary]
  generalize (c.runBatch b.hwm.toNat b.k.toNat 0).halt.isSome = halted at *
  generalize (c.runBatch b.hwm.toNat b.k.toNat 0).cpu = d at *
  rcases Nat.eq_or_lt_of_le hle with heq | hlt
  · -- nothing retired: only the row is left
    rw [if_pos (Or.inr heq.symm), List.append_nil, ← heq, Nat.sub_self] at hfirst
    rw [hfirst, Cpu.marks, List.nil_append, Cpu.mark]
    refine iff_of_true ?_ fun hh => absurd hh.2.1 (by omega)
    split_ifs <;> simp
  · cases halted with
    | false =>
      rw [if_neg (by simp; omega)] at hfirst
      rw [hfirst]
      exact iff_of_true hnodup fun hh => absurd hh.1 (by decide)
    | true =>
      rw [if_pos (Or.inl rfl), List.append_nil] at hfirst
      rw [hfirst]
      by_cases hb : isBoundary d.icount = true
      · refine iff_of_false ?_ fun hh => hh ⟨rfl, hlt, hb⟩
        intro hdup
        rw [List.map_append, List.nodup_append] at hdup
        have hlast := hmarks.complete d.icount hlt (Nat.le_refl _) hb
        have hend : d.entry ∈ d.mark := Cpu.mem_mark.mpr ⟨hb, rfl⟩
        have hcount : (c.after (d.icount - c.icount)).entry.icount = d.icount := by
          rw [← hreach.after]
          rfl
        exact hdup.2.2 _ (List.mem_map_of_mem hlast) _ (List.mem_map_of_mem hend) hcount
      · refine iff_of_true ?_ fun hh => hb hh.2.2
        rw [Cpu.mark, if_neg hb, List.append_nil]
        exact hnodup

end

/-! ## Against the trace -/

section
variable (xxh64 : List Byte → BitVec 64)

/-- A recorded checkpoint as the driver compares it: the count, the program counter
and the register hash. -/
def CpEntry.line (e : CpEntry) : Nat × Word × BitVec 64 :=
  (e.icount, e.pc, xxh64 (LittleEndian.bytes e.pc 4 ++ e.regs.flatMap (LittleEndian.bytes · 4)))

/-- The registers' part of a trace line. -/
def Checkpoint.registers (line : Checkpoint) : Nat × Word × BitVec 64 :=
  (line.icount, line.pc, line.reghash)

theorem registers_emit (c : Cpu) :
    (emit xxh64 .default c).map Checkpoint.registers = c.mark.map (CpEntry.line xxh64) := by
  have hat : TraceConfig.default.isCheckpoint c.icount = isBoundary c.icount := by
    rw [isBoundary, TraceConfig.isCheckpoint, bne, beq_eq_decide, beq_eq_decide, decide_not]
    rfl
  rw [emit, Cpu.mark, hat]
  split <;> rfl

/-- The trace has one line for every boundary crossed. -/
theorem registers_collectLoop (n : Nat) (c : Cpu) :
    (collectLoop xxh64 .default n c).1.map Checkpoint.registers =
      (c.marks n).map (CpEntry.line xxh64) := by
  induction n generalizing c with
  | zero => rfl
  | succ n ih =>
    rw [collectLoop, Cpu.marks]
    cases hs : c.stepReporting with
    | mk result d =>
      cases result with
      | error halt => rfl
      | ok p =>
        dsimp only
        rw [List.map_append, List.map_append, registers_emit, ih]

/-- The rows of a run from `c` to `d` have the boundaries crossed, each with the
state that the trace has a line of. -/
structure Covered (c d : Cpu) (rows : List CommitRow) : Prop where
  complete : ∀ n, c.icount < n → n ≤ d.icount → isBoundary n = true →
    ∃ row ∈ rows, (c.after (n - c.icount)).entry ∈ row.records ∧
      ∃ line ∈ (collect xxh64 c .default d.icount).1, line.icount = n ∧
        line.registers = (c.after (n - c.icount)).entry.line xxh64
  sound : ∀ row ∈ rows, ∀ e ∈ row.records, c.icount ≤ e.icount ∧ e.icount ≤ d.icount ∧
    isBoundary e.icount = true ∧ e = (c.after (e.icount - c.icount)).entry

end

namespace Committed
variable {L : Layout}

/-- What the rows of a run have recorded, and where each record is from. -/
theorem records {c : Cpu} {r : Registers} (h : c.Fits L r) {bs : List BatchSpec}
    {rows : List CommitRow} (hrows : Committed c bs rows) :
    c.Reaches (c.runBatches bs) ∧
      (∀ n, c.icount < n → n ≤ (c.runBatches bs).icount → isBoundary n = true →
        ∃ row ∈ rows, (c.after (n - c.icount)).entry ∈ row.records) ∧
      ∀ row ∈ rows, ∀ e ∈ row.records, c.icount ≤ e.icount ∧ e.icount ≤ (c.runBatches bs).icount ∧
        isBoundary e.icount = true ∧ e = (c.after (e.icount - c.icount)).entry := by
  induction bs generalizing c r rows with
  | nil =>
    cases rows with
    | nil =>
      refine ⟨.refl, fun n h1 h2 => ?_, fun row hrow => absurd hrow List.not_mem_nil⟩
      exact absurd h2 (Nat.not_le.mpr h1)
    | cons row rows => exact hrows.elim
  | cons b bs ih =>
    cases rows with
    | nil => exact hrows.elim
    | cons row rows =>
      obtain ⟨hrow, hrest⟩ := hrows
      have hreach := h.reaches_runBatch b.hwm.toNat b.k.toNat 0
      obtain ⟨r', hfits, -⟩ := h.reaches hreach
      obtain ⟨hreach', hcomplete, hsound⟩ := ih hfits hrest
      have hle := hreach'.icount_le
      refine ⟨hreach.trans hreach', ?_, ?_⟩
      · intro n hlt hn hb
        rcases Nat.lt_or_ge (c.runBatch b.hwm.toNat b.k.toNat 0).cpu.icount n with hlate | hearly
        · obtain ⟨row', hmem, hentry⟩ := hcomplete n hlate hn hb
          rw [hreach.after_eq hlate.le] at hentry
          exact ⟨row', List.mem_cons_of_mem _ hmem, hentry⟩
        · exact ⟨row, List.mem_cons_self, entry_mem_records h hrow hlt hearly hb⟩
      · intro row' hmem e he
        rcases List.mem_cons.mp hmem with rfl | hmem
        · obtain ⟨h1, h2, h3, h4⟩ := eq_of_mem_records h hrow he
          exact ⟨h1, h2.trans hle, h3, h4⟩
        · obtain ⟨h1, h2, h3, h4⟩ := hsound row' hmem e he
          rw [hreach.after_eq h1] at h4
          exact ⟨hreach.icount_le.trans h1, h2, h3, h4⟩

/-- The rows carry what the trace has, whatever the batches were. -/
theorem covered (xxh64 : List Byte → BitVec 64) {c : Cpu} {r : Registers} (h : c.Fits L r)
    {bs : List BatchSpec} {rows : List CommitRow} (hrows : Committed c bs rows) :
    Covered xxh64 c (c.runBatches bs) rows := by
  obtain ⟨hreach, hcomplete, hsound⟩ := hrows.records h
  refine ⟨?_, hsound⟩
  intro n hlt hle hb
  obtain ⟨row, hmem, hentry⟩ := hcomplete n hlt hle hb
  have hmark := List.mem_map_of_mem (f := CpEntry.line xxh64) (hreach.marks.complete n hlt hle hb)
  rw [← registers_collectLoop] at hmark
  obtain ⟨line, hline, hregisters⟩ := List.mem_map.mp hmark
  have hcount : line.icount = (c.after (n - c.icount)).icount := congrArg Prod.fst hregisters
  exact ⟨row, hmem, hentry, line, hline, hcount.trans (hreach.icount_after hlt.le hle), hregisters⟩

theorem nodup_iff {c : Cpu} {r : Registers} (h : c.Fits L r) {bs : List BatchSpec}
    {rows : List CommitRow} (hrows : Committed c bs rows) :
    (∀ row ∈ rows, (row.records.map (·.icount)).Nodup) ↔ c.NoneHaltsOnBoundary bs := by
  induction bs generalizing c r rows with
  | nil =>
    cases rows with
    | nil => exact iff_of_true (fun row hrow => absurd hrow List.not_mem_nil) trivial
    | cons row rows => exact hrows.elim
  | cons b bs ih =>
    cases rows with
    | nil => exact hrows.elim
    | cons row rows =>
      obtain ⟨hrow, hrest⟩ := hrows
      obtain ⟨r', hfits, -⟩ := h.reaches (h.reaches_runBatch b.hwm.toNat b.k.toNat 0)
      rw [List.forall_mem_cons, nodup_records_iff h hrow, ih hfits hrest]
      rfl

end Committed

/-- The checkpoints of a run: the rows have every boundary crossed and, within one
batch, each of them once, exactly when no batch halts at a boundary it reached. -/
theorem checkpoints_once_iff (xxh64 : List Byte → BitVec 64) {L : Layout} {all : List (BitVec 16)}
    {fb pal : Nat → Prop} {db : Database} {row : CommitRow} {c : Cpu} {r : Registers}
    (h : Stands L all fb pal db row c r) (hall : all.length < 2 ^ 32) {bs : List BatchSpec}
    (hpixels : ∀ d, c.Reaches d → ¬d.LoadsPixels) (hfed : FedRun all db.inputQueue c bs)
    {rows : List CommitRow} (hrows : (db.run L bs).batchCommit = db.batchCommit ++ rows) :
    (Covered xxh64 c (c.runBatches bs) rows ∧
      ∀ row ∈ rows, (row.records.map (·.icount)).Nodup) ↔ c.NoneHaltsOnBoundary bs := by
  obtain ⟨rows', hrows', hcommitted⟩ := h.committed hall bs hpixels hfed
  obtain rfl : rows = rows' := List.append_cancel_left (hrows.symm.trans hrows')
  rw [hcommitted.nodup_iff h.fits]
  exact and_iff_right (hcommitted.covered xxh64 h.fits)

/-! ### A batch that halts on the boundary it reached -/

/-- `Cpu.addsThenBreaks` one instruction before the first checkpoint. -/
def Cpu.breaksOnBoundary : Cpu := { Cpu.addsThenBreaks with icount := 4095 }

theorem breaksOnBoundary_fits : Cpu.breaksOnBoundary.Fits .four (.new 1 (by decide)) where
  map := rfl
  text := rfl
  devices := rfl
  ipms := rfl
  fresh := Cpu.cacheFresh_of_none rfl
  aligned := rfl

theorem breaksOnBoundary_stands : Stands .four [] (fun _ => False) (fun _ => False)
    (.loaded .four .breaksOnBoundary) Cpu.breaksOnBoundary.seedRow .breaksOnBoundary
    (.new 1 (by decide)) :=
  stands_loaded breaksOnBoundary_fits rfl rfl rfl rfl

theorem breaksOnBoundary_never_loads (d : Cpu) (hd : Cpu.breaksOnBoundary.Reaches d) :
    ¬d.LoadsPixels :=
  breaksOnBoundary_fits.never_loadsPixels (by decide) d hd

/-- Cut before the break, the boundary is recorded once, in the first row. -/
theorem checkpoints_once_cut :
    ∃ rows, ((Database.loaded .four .breaksOnBoundary).run .four
        [⟨1, 8, []⟩, ⟨1, 8, []⟩]).batchCommit = [Cpu.breaksOnBoundary.seedRow] ++ rows ∧
      ∀ row ∈ rows, (row.records.map (·.icount)).Nodup := by
  have hfed := fedRun_nil .breaksOnBoundary [⟨1, 8, []⟩, ⟨1, 8, []⟩] (by simp)
  obtain ⟨rows, hrows, -⟩ := breaksOnBoundary_stands.committed (by decide) _
    breaksOnBoundary_never_loads hfed
  refine ⟨rows, hrows, ((checkpoints_once_iff (fun _ => 0) breaksOnBoundary_stands (by decide)
    breaksOnBoundary_never_loads hfed hrows).mpr ?_).2⟩
  refine ⟨?_, ?_, trivial⟩
  · decide
  · decide

/-- A batch that takes both instructions halts on the boundary it reached: its
checkpoints have it, and so does its row. -/
theorem boundary_recorded_twice :
    ∃ row, ((Database.loaded .four .breaksOnBoundary).run .four [⟨2, 8, []⟩]).batchCommit =
        [Cpu.breaksOnBoundary.seedRow, row] ∧
      row.records.map (·.icount) = [4096, 4096] := by
  have hfed := fedRun_nil .breaksOnBoundary [⟨2, 8, []⟩] (by simp)
  obtain ⟨rows, hrows, hcommitted⟩ := breaksOnBoundary_stands.committed (by decide) _
    breaksOnBoundary_never_loads hfed
  match rows, hcommitted with
  | [row], ⟨hrow, _⟩ =>
    refine ⟨row, hrows, ?_⟩
    rw [records_eq hrow]
    decide

end ClickDoom
