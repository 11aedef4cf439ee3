import ClickDoom.Executor.Checkpoints

/-! # Which boundaries a batch records

The counts alone, for any accumulator and any arrays: no machine stands behind
these.  A step that is not stopped retires, and counts one more, or halts and
counts none.
-/
namespace ClickDoom
open ClickHouse

/-- The boundaries from `lo` up to, not including, `hi`. -/
def boundaries (lo hi : Nat) : List Nat := (List.range' lo (hi - lo)).filter isBoundary

@[simp] theorem boundaries_self (n : Nat) : boundaries n n = [] := by
  rw [boundaries, Nat.sub_self]
  rfl

theorem mem_boundaries {lo hi n : Nat} :
    n ∈ boundaries lo hi ↔ lo ≤ n ∧ n < hi ∧ isBoundary n = true := by
  rw [boundaries, List.mem_filter, List.mem_range'_1, and_assoc]
  constructor
  · rintro ⟨h1, h2, h3⟩
    exact ⟨h1, by omega, h3⟩
  · rintro ⟨h1, h2, h3⟩
    exact ⟨h1, by omega, h3⟩

theorem boundaries_append {lo mid hi : Nat} (h : lo ≤ mid) (h' : mid ≤ hi) :
    boundaries lo mid ++ boundaries mid hi = boundaries lo hi := by
  have hsub : hi - lo = (mid - lo) + (hi - mid) := by omega
  have hmid : lo + (mid - lo) = mid := by omega
  rw [boundaries, boundaries, boundaries, ← List.filter_append, hsub, ← List.range'_append_1, hmid]

theorem boundaries_succ (n : Nat) : boundaries n (n + 1) = if isBoundary n then [n] else [] := by
  rw [boundaries, Nat.add_sub_cancel_left]
  exact List.filter_cons

/-- How many there are: the whole intervals passed. -/
theorem length_boundaries {lo hi : Nat} (h : lo ≤ hi) :
    (boundaries (lo + 1) (hi + 1)).length = hi / checkpointInterval - lo / checkpointInterval := by
  induction hi, h using Nat.le_induction with
  | base => rw [boundaries_self, Nat.sub_self, List.length_nil]
  | succ hi hle ih =>
    have hmono : lo / checkpointInterval ≤ hi / checkpointInterval := Nat.div_le_div_right hle
    have hpos : isBoundary (hi + 1) = decide (checkpointInterval ∣ hi + 1) := by
      simp [isBoundary, Nat.dvd_iff_mod_eq_zero]
    have hjoin : boundaries (lo + 1) (hi + 1) ++ boundaries (hi + 1) (hi + 1 + 1) = _ :=
      boundaries_append (by omega) (by omega)
    rw [← hjoin, List.length_append, ih, boundaries_succ, hpos, Nat.succ_div]
    by_cases hd : checkpointInterval ∣ hi + 1
    · simp only [hd, decide_true, if_true, List.length_singleton]
      omega
    · simp only [hd, decide_false, Bool.false_eq_true, if_false, List.length_nil]
      omega

/-! ## One step -/

section
variable {v : Variant} {p : StepArgs} {cap : Captures}

/-- The checkpoints of a step that is not stopped. -/
theorem buildStep_cp {acc : Acc} (hrun : acc.control.stopped = 0) (i : Nat) :
    (buildStep v p cap acc i).cp.icount =
      acc.cp.icount ++ if i = 0 then [] else boundaries acc.icount (acc.icount + 1) := by
  have hactive : active (env p cap acc i) = true := decide_eq_true hrun
  have hat : atCheckpoint (env p cap acc i) = (decide (0 < i) && isBoundary acc.icount) := by
    rw [atCheckpoint, hactive, isBoundary, Bool.true_and, Bool.and_assoc]
    rfl
  rw [buildStep_eq, boundaries_succ]
  change (newCp (env p cap acc i)).icount = _
  rw [newCp, hat]
  rcases Nat.eq_zero_or_pos i with rfl | hi
  · exact (List.append_nil _).symm
  · rw [if_neg hi.ne']
    by_cases hb : isBoundary acc.icount = true
    · simp only [hi, hb, decide_true, Bool.and_self, if_true]
      rfl
    · simp only [hb, Bool.and_false, Bool.false_eq_true, if_false, List.append_nil]
      rfl

/-- A step that is not stopped halts, or retires and counts. -/
theorem buildStep_icount {acc : Acc} (hrun : acc.control.stopped = 0) (i : Nat) :
    ((buildStep v p cap acc i).icount = acc.icount ∧
        (buildStep v p cap acc i).control.stopped ≠ 0 ∧
        (buildStep v p cap acc i).control.halted = 1) ∨
      ((buildStep v p cap acc i).icount = acc.icount + 1 ∧
        (buildStep v p cap acc i).control.halted = acc.control.halted) := by
  have hactive : active (env p cap acc i) = true := decide_eq_true hrun
  rw [buildStep_eq]
  generalize haltCode v p (env p cap acc i) = hc
  by_cases hcode : hc = 0
  · right
    have hhalts : stepHaltsNow (env p cap acc i) hc = false := by simp [stepHaltsNow, hcode]
    have hretires : stepRetires (env p cap acc i) hc = true := by simp [stepRetires, hactive, hcode]
    refine ⟨if_pos hretires, ?_⟩
    change (newControl v p _ hc).halted = _
    rw [newControl, if_neg (by simp [hhalts])]
    split <;> rfl
  · left
    have hhalts : stepHaltsNow (env p cap acc i) hc = true := by
      rw [stepHaltsNow, hactive, Bool.true_and]
      exact decide_eq_true hcode
    have hretires : stepRetires (env p cap acc i) hc = false := by
      rw [stepRetires, hactive, Bool.true_and]
      exact decide_eq_false hcode
    have hcontrol : (stepTuple v p cap.keyqt (env p cap acc i) hc).control =
        ⟨1, 1, hc, acc.pc, haltExtra v p (env p cap acc i) hc⟩ := if_pos hhalts
    refine ⟨if_neg (by simp [hretires]), ?_, ?_⟩
    · rw [hcontrol]
      exact (by decide : (1 : Byte) ≠ 0)
    · rw [hcontrol]

/-- A step that halts announces no frame, and one that goes on has announced none. -/
theorem buildStep_frame {acc : Acc} (hrun : acc.control.stopped = 0)
    (hhalted : acc.control.halted = 0) (hframe : acc.mmio.frameCommitted = 0) (i : Nat)
    (h : (buildStep v p cap acc i).control.halted = 1 ∨
      (buildStep v p cap acc i).control.stopped = 0) :
    (buildStep v p cap acc i).mmio.frameCommitted = 0 := by
  have hactive : active (env p cap acc i) = true := decide_eq_true hrun
  rw [buildStep_eq] at h ⊢
  generalize haltCode v p (env p cap acc i) = hc at h ⊢
  change (newControl v p (env p cap acc i) hc).halted = 1 ∨
    (newControl v p (env p cap acc i) hc).stopped = 0 at h
  change (if frameCommittedNow v (env p cap acc i) hc then 1 else acc.mmio.frameCommitted) = 0
  by_cases hnow : frameCommittedNow v (env p cap acc i) hc = true
  · -- the step retires, so it does not halt, and it stops the batch
    have hcode : hc = 0 := by
      rw [frameCommittedNow, stepRetires, Bool.and_eq_true, Bool.and_eq_true, Bool.and_eq_true] at hnow
      exact of_decide_eq_true hnow.1.1.2
    have hhalts : ¬stepHaltsNow (env p cap acc i) hc = true := by simp [stepHaltsNow, hcode]
    rw [newControl, if_neg hhalts, if_pos (by rw [hnow, Bool.or_true])] at h
    change acc.control.halted = 1 ∨ (1 : Byte) = 0 at h
    rw [hhalted] at h
    exact absurd h (by decide)
  · rw [if_neg hnow]
    exact hframe

/-! ## A batch -/

/-- The counts of a batch of `k` steps. -/
structure Counted (start : Acc) (k : Nat) (r : Acc) : Prop where
  le : start.icount ≤ r.icount
  halted : r.control.halted = 0 ∨ r.control.halted = 1
  within : r.icount + r.control.halted.toNat ≤ start.icount + k
  progress : r.control.halted = 0 → 0 < k → start.icount < r.icount

/-- The rest of a batch, from step `i` on: its first step leaves the boundary it
starts at alone, any other records it. -/
theorem foldl_counts (k i : Nat) {acc : Acc} (hrun : acc.control.stopped = 0)
    (hhalted : acc.control.halted = 0) :
    Counted acc k ((List.range' i k).foldl (buildStep v p cap) acc) ∧
      ((List.range' i k).foldl (buildStep v p cap) acc).cp.icount = acc.cp.icount ++
        boundaries (acc.icount + if i = 0 then 1 else 0)
          (((List.range' i k).foldl (buildStep v p cap) acc).icount +
            ((List.range' i k).foldl (buildStep v p cap) acc).control.halted.toNat) := by
  induction k generalizing i acc with
  | zero =>
    have hempty : boundaries (acc.icount + if i = 0 then 1 else 0) (acc.icount + 0) = [] := by
      rw [boundaries, Nat.add_zero, Nat.sub_add_eq, Nat.sub_self, Nat.zero_sub]
      rfl
    rw [List.range'_zero, List.foldl_nil, hhalted]
    refine ⟨⟨Nat.le_refl _, .inl hhalted, ?_, fun _ h => absurd h (Nat.lt_irrefl 0)⟩, ?_⟩
    · rw [hhalted]
      exact Nat.le_refl _
    · change _ = acc.cp.icount ++ boundaries _ (acc.icount + 0)
      rw [hempty, List.append_nil]
  | succ k ih =>
    rw [List.range'_succ, List.foldl_cons]
    have hcp : (buildStep v p cap acc i).cp.icount = _ := buildStep_cp hrun i
    -- what this step records, in front of what the later ones do
    have hjoin : ∀ {hi : Nat}, acc.icount + 1 ≤ hi →
        (if i = 0 then [] else boundaries acc.icount (acc.icount + 1)) ++
          boundaries (acc.icount + 1) hi = boundaries (acc.icount + if i = 0 then 1 else 0) hi := by
      intro hi hle
      by_cases hzero : i = 0
      · simp only [hzero, if_true, List.nil_append]
      · simp only [hzero, if_false, Nat.add_zero]
        exact boundaries_append (Nat.le_succ _) hle
    have hone := hjoin (Nat.le_refl (acc.icount + 1))
    rw [boundaries_self, List.append_nil] at hone
    rcases (buildStep_icount hrun i : _ ∨ (buildStep v p cap acc i).icount = _ ∧ _) with
      ⟨hcount, hstopped, hhalt⟩ | ⟨hcount, hhalt⟩
    · rw [foldl_stopped hstopped]
      refine ⟨⟨hcount.ge, .inr hhalt, ?_, fun h => ?_⟩, ?_⟩
      · rw [hcount, hhalt]
        change acc.icount + 1 ≤ _
        omega
      · rw [hhalt] at h
        exact absurd h (by decide)
      · rw [hcp, hcount, hhalt, hone]
        rfl
    · rw [hhalted] at hhalt
      by_cases hstopped : (buildStep v p cap acc i).control.stopped = 0
      · obtain ⟨hcounted, hrest⟩ := ih (i + 1) hstopped hhalt
        have hle := hcounted.le
        have hwithin := hcounted.within
        refine ⟨⟨by omega, hcounted.halted, by omega, fun _ _ => by omega⟩, ?_⟩
        rw [hrest, hcp, hcount, if_neg (Nat.succ_ne_zero i), Nat.add_zero, List.append_assoc,
          hjoin (by omega)]
      · rw [foldl_stopped hstopped]
        refine ⟨⟨by omega, .inl hhalt, ?_, fun _ _ => by omega⟩, ?_⟩
        · rw [hcount, hhalt]
          change acc.icount + 1 + 0 ≤ _
          omega
        · rw [hcp, hcount, hhalt, hone]
          rfl

/-- A batch from a fresh accumulator records the boundaries it passes, and the one
it halts at. -/
theorem foldBatch_counts (k : Nat) (pc0 : Word) (regs0 : List Word) (icount0 : Nat) (keyq0 : Word) :
    Counted (initAcc pc0 regs0 .empty icount0 keyq0) k
        (foldBatch v p cap k (initAcc pc0 regs0 .empty icount0 keyq0)) ∧
      (foldBatch v p cap k (initAcc pc0 regs0 .empty icount0 keyq0)).cp.icount =
        boundaries (icount0 + 1)
          ((foldBatch v p cap k (initAcc pc0 regs0 .empty icount0 keyq0)).icount +
            (foldBatch v p cap k (initAcc pc0 regs0 .empty icount0 keyq0)).control.halted.toNat) := by
  rw [foldBatch, arrayFold, List.range_eq_range']
  exact foldl_counts k 0 rfl rfl

/-- A batch that halts has announced no frame. -/
theorem foldl_frame (k i : Nat) {acc : Acc} (hrun : acc.control.stopped = 0)
    (hhalted : acc.control.halted = 0) (hframe : acc.mmio.frameCommitted = 0)
    (h : ((List.range' i k).foldl (buildStep v p cap) acc).control.halted = 1) :
    ((List.range' i k).foldl (buildStep v p cap) acc).mmio.frameCommitted = 0 := by
  induction k generalizing i acc with
  | zero => exact hframe
  | succ k ih =>
    rw [List.range'_succ, List.foldl_cons] at h ⊢
    by_cases hstopped : (buildStep v p cap acc i).control.stopped = 0
    · have hgoes : (buildStep v p cap acc i).control.halted = 0 := by
        rcases (buildStep_icount hrun i : _ ∨ (buildStep v p cap acc i).icount = _ ∧ _) with
          ⟨-, hstops, -⟩ | ⟨-, hsame⟩
        · exact absurd hstopped hstops
        · rw [hsame, hhalted]
      exact ih (i + 1) hstopped hgoes (buildStep_frame hrun hhalted hframe i (.inr hstopped)) h
    · rw [foldl_stopped hstopped] at h ⊢
      exact buildStep_frame hrun hhalted hframe i (.inl h)

theorem foldBatch_frame (k : Nat) (pc0 : Word) (regs0 : List Word) (icount0 : Nat) (keyq0 : Word)
    (h : (foldBatch v p cap k (initAcc pc0 regs0 .empty icount0 keyq0)).control.halted = 1) :
    (foldBatch v p cap k (initAcc pc0 regs0 .empty icount0 keyq0)).mmio.frameCommitted = 0 := by
  rw [foldBatch, arrayFold, List.range_eq_range'] at h ⊢
  exact foldl_frame k 0 rfl rfl rfl h

end

/-- The entries have the counts of their column. -/
theorem Checkpoints.icount_entries (cp : Checkpoints) : cp.entries.map (·.icount) = cp.icount := by
  rw [entries, List.map_map]
  apply List.ext_getElem
  · simp
  · intro n h1 h2
    simp [List.getD_eq_getElem?_getD, h2]

end ClickDoom
