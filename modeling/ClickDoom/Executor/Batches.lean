import ClickDoom.Executor.Commit
import ClickDoom.Executor.Refines

/-! # Batches

A run is a sequence of batches, each followed by its flush.  State crosses from
one batch to the next through the tables: the invariant `Stands` says that the
tables, read `FINAL`, spell a machine of the reference emulator, and a batch with
its flush takes it from a machine to the machine the batch leaves.  So where a run
stands depends on how far it has got and not on where its batches were cut.
-/
namespace ClickDoom
open ClickHouse
open LittleEndian (wordAt)

/-! ## Keys that have not arrived

A batch captures the key rows that are there when it starts.  Rows it does not
reach make no difference to it. -/

section
variable {v : Variant} {p : StepArgs} {cap : Captures} {present : List (BitVec 16)} {acc : Acc}
  {e : Env} {hc : Byte}

/-- The position moves by one at a time, and only while there is a key. -/
theorem newKeyqPos_le {keyqt : List (BitVec 16)} (hlen : keyqt.length < 2 ^ 32) :
    e.acc.mmio.keyqPos.toNat ≤ (newKeyqPos v keyqt e hc).toNat := by
  rw [newKeyqPos]
  split_ifs with h
  · have hlt : e.acc.mmio.keyqPos < BitVec.ofNat 32 keyqt.length := by
      simpa [keyqHas] using (Bool.and_eq_true_iff.mp h).2
    rw [BitVec.lt_def, BitVec.toNat_ofNat, Nat.mod_eq_of_lt hlen] at hlt
    rw [BitVec.toNat_add, show (1 : Word).toNat = 1 from rfl]
    omega
  · exact Nat.le_refl _

theorem keyqPos_le_buildStep (hlen : cap.keyqt.length < 2 ^ 32) (i : Nat) :
    acc.mmio.keyqPos.toNat ≤ (buildStep v p cap acc i).mmio.keyqPos.toNat := by
  rw [buildStep_eq]
  change (env p cap acc i).acc.mmio.keyqPos.toNat ≤ (newKeyqPos v cap.keyqt (env p cap acc i) _).toNat
  exact newKeyqPos_le hlen

theorem keyqPos_le_foldl (hlen : cap.keyqt.length < 2 ^ 32) (steps : List Nat) (acc : Acc) :
    acc.mmio.keyqPos.toNat ≤ (steps.foldl (buildStep v p cap) acc).mmio.keyqPos.toNat := by
  induction steps generalizing acc with
  | nil => exact Nat.le_refl _
  | cons i rest ih => exact (keyqPos_le_buildStep hlen i).trans (ih _)

/-- Two key tables a step cannot tell apart. -/
theorem stepTuple_keyqt {keyqt keyqt' : List (BitVec 16)}
    (h : isMmioLoad v e = true → mmioIs v e Mmio.keyq = true → stepRetires e hc = true →
      keyqHas keyqt e = keyqHas keyqt' e ∧ keyqVal keyqt e = keyqVal keyqt' e) :
    stepTuple v p keyqt e hc = stepTuple v p keyqt' e hc := by
  by_cases hret : stepRetires e hc = true
  swap
  · rw [Bool.not_eq_true] at hret
    simp [stepTuple, newRegs, newMmio, newKeyqPos, hret]
  by_cases hload : isMmioLoad v e = true
  · by_cases hkeyq : mmioIs v e Mmio.keyq = true
    · obtain ⟨hhas, hval⟩ := h hload hkeyq hret
      simp [stepTuple, newRegs, newMmio, newKeyqPos, result, loadv, mmioRead, hhas, hval]
    · simp [stepTuple, newRegs, newMmio, newKeyqPos, result, loadv, mmioRead, hkeyq]
  · have hloadv : e.d.id = opLoad → loadv v p keyqt e = loadv v p keyqt' e := by
      intro hid
      have hword : (isMmio v e && decide (e.d.mk = 4294967295)) = false := by
        rw [Bool.eq_false_iff]
        intro hboth
        obtain ⟨h1, h2⟩ := Bool.and_eq_true_iff.mp hboth
        apply hload
        rw [isMmioLoad, h1, h2, decide_eq_true hid]
        rfl
      rw [loadv, loadv, hword]
      rfl
    have hresult : result v p keyqt e = result v p keyqt' e := by
      by_cases hid : e.d.id = opLoad
      · simp only [result, hloadv hid]
      · simp [result, multiIf, hid]
    simp [stepTuple, newRegs, newMmio, newKeyqPos, hload, hresult]

/-- A step that ends inside the keys that are there. -/
theorem buildStep_present (hpre : present <+: cap.keyqt) (hlen : cap.keyqt.length < 2 ^ 32)
    (i : Nat) (hle : (buildStep v p cap acc i).mmio.keyqPos.toNat ≤ present.length) :
    buildStep v p { cap with keyqt := present } acc i = buildStep v p cap acc i := by
  rw [buildStep_eq] at hle
  rw [buildStep_eq, buildStep_eq]
  have henv : env p { cap with keyqt := present } acc i = env p cap acc i := rfl
  rw [henv]
  apply stepTuple_keyqt
  intro hload hkeyq hret
  obtain ⟨more, hmore⟩ := hpre
  have hlen' : cap.keyqt.length = present.length + more.length := by
    rw [← hmore, List.length_append]
  have hacc : (env p cap acc i).acc = acc := rfl
  have hhas' : keyqHas cap.keyqt (env p cap acc i) = decide (acc.mmio.keyqPos.toNat < cap.keyqt.length) := by
    rw [keyqHas, decide_eq_decide, BitVec.lt_def, BitVec.toNat_ofNat, Nat.mod_eq_of_lt hlen, hacc]
  have hhas : keyqHas present (env p cap acc i) = decide (acc.mmio.keyqPos.toNat < present.length) := by
    rw [keyqHas, decide_eq_decide, BitVec.lt_def, BitVec.toNat_ofNat, Nat.mod_eq_of_lt (by omega), hacc]
  change (newKeyqPos v cap.keyqt (env p cap acc i) _).toNat ≤ _ at hle
  rw [newKeyqPos, hret, hload, hkeyq, hhas', hacc] at hle
  by_cases hlt : acc.mmio.keyqPos.toNat < cap.keyqt.length
  · rw [decide_eq_true hlt] at hle
    simp only [Bool.and_self, if_true] at hle
    rw [BitVec.toNat_add, show (1 : Word).toNat = 1 from rfl] at hle
    have hlt' : acc.mmio.keyqPos.toNat < present.length := by omega
    have hsame : keyqHas present (env p cap acc i) = keyqHas cap.keyqt (env p cap acc i) := by
      rw [hhas, hhas', decide_eq_true hlt, decide_eq_true hlt']
    refine ⟨hsame, ?_⟩
    rw [keyqVal, keyqVal, hsame, arrayElement_succ, arrayElement_succ, hacc, ← hmore,
      List.getD_eq_getElem?_getD, List.getD_eq_getElem?_getD, List.getElem?_append_left hlt']
  · have hsame : keyqHas present (env p cap acc i) = keyqHas cap.keyqt (env p cap acc i) := by
      rw [hhas, hhas', decide_eq_false hlt, decide_eq_false (by omega)]
    refine ⟨hsame, ?_⟩
    rw [keyqVal, keyqVal, hsame, hhas', decide_eq_false hlt]
    rfl

theorem foldl_present (hpre : present <+: cap.keyqt) (hlen : cap.keyqt.length < 2 ^ 32)
    (steps : List Nat) (acc : Acc)
    (hle : (steps.foldl (buildStep v p cap) acc).mmio.keyqPos.toNat ≤ present.length) :
    steps.foldl (buildStep v p { cap with keyqt := present }) acc =
      steps.foldl (buildStep v p cap) acc := by
  induction steps generalizing acc with
  | nil => rw [List.foldl_nil, List.foldl_nil]
  | cons i rest ih =>
    rw [List.foldl_cons] at hle ⊢
    rw [List.foldl_cons,
      buildStep_present hpre hlen i ((keyqPos_le_foldl hlen rest _).trans hle)]
    exact ih _ hle

end

/-! ## Words that stay inside RAM -/

/-- The log of a step names words of RAM only, whatever the step does. -/
theorem buildStep_wl_lt {v : Variant} {p : StepArgs} {cap : Captures} {acc : Acc} {i : Nat}
    (hpos : 0 < p.ramWords.toNat) (h : ∀ a ∈ acc.wl.addr, a.toNat < p.ramWords.toNat) :
    ∀ a ∈ (buildStep v p cap acc i).wl.addr, a.toNat < p.ramWords.toNat := by
  have hlast : (p.ramWords - 1).toNat = p.ramWords.toNat - 1 := by
    rw [BitVec.toNat_sub_of_le]
    · rfl
    · rw [BitVec.le_def]
      exact hpos
  have hwa : (env p cap acc i).wa.toNat < p.ramWords.toNat := by
    change (waSafe p _).toNat < _
    rw [waSafe]
    split_ifs with hle
    · rw [BitVec.le_def, hlast] at hle
      omega
    · rw [hlast]
      omega
  intro a ha
  rw [buildStep_eq] at ha
  change a ∈ (newWl v (env p cap acc i) _).addr at ha
  rw [newWl] at ha
  split_ifs at ha
  · change a ∈ acc.wl.addr ++ [(env p cap acc i).wa] at ha
    rw [List.mem_append, List.mem_singleton] at ha
    rcases ha with ha | rfl
    · exact h a ha
    · exact hwa
  · exact h a ha

theorem foldBatch_wl_lt {v : Variant} {p : StepArgs} {cap : Captures} {acc : Acc} (k : Nat)
    (hpos : 0 < p.ramWords.toNat) (h : ∀ a ∈ acc.wl.addr, a.toNat < p.ramWords.toNat) :
    ∀ a ∈ (foldBatch v p cap k acc).wl.addr, a.toNat < p.ramWords.toNat := by
  rw [foldBatch, arrayFold]
  generalize List.range k = steps
  induction steps generalizing acc with
  | nil => exact h
  | cons i rest ih => exact ih (buildStep_wl_lt hpos h)

/-! ## A table that spells words -/

/-- The table has a value for each of `n` words from `base`, no version above
`hi`, and rows for the words `present` says. -/
structure Spells (table : List (TableRow Nat Word)) (base n hi : Nat) (word : Nat → Word)
    (present : Nat → Prop) : Prop where
  versions : ∀ s ∈ table, s.version ≤ hi
  words : ∀ i < n, (Table.final table (base + i)).getD 0 = word i
  rows : ∀ k, (∃ s ∈ table, s.key = k) ↔ ∃ i, present i ∧ k = base + i

theorem Lanes.key_rows {l : Lanes} (hval : l.val.length = l.addr.length)
    (hicount : l.icount.length = l.addr.length) (base k : Nat) :
    (∃ s ∈ l.rows base, s.key = k) ↔ ∃ a ∈ l.addr, k = base + a.toNat := by
  refine Lanes.push_induction
    (motive := fun l => (∃ s ∈ l.rows base, s.key = k) ↔ ∃ a ∈ l.addr, k = base + a.toNat)
    (by simp [Lanes.rows, Lanes.empty]) ?_ l hval hicount
  intro l a v n hval hicount ih
  rw [Lanes.rows_push hval hicount]
  simp only [List.mem_append, List.mem_singleton, or_and_right, exists_or, ih, Lanes.push,
    arrayPushBack, exists_eq_left]
  rw [eq_comm (b := k)]

namespace Spells
variable {table : List (TableRow Nat Word)} {base n lo hi : Nat} {word : Nat → Word}
  {present : Nat → Prop}

/-- A flush lays its log over the words. -/
theorem flush (h : Spells table base n lo word present) (hn : n ≤ 2 ^ 32) {l : Lanes}
    (hl : l.Stamped lo hi) (hlo : lo ≤ hi) :
    Spells (table ++ l.rows base) base n hi
      (fun i => (l.overlay (BitVec.ofNat 32 i)).getD (word i))
      (fun i => present i ∨ ∃ a ∈ l.addr, i = a.toNat) where
  versions := by
    intro s hs
    rcases List.mem_append.mp hs with hs | hs
    · exact (h.versions s hs).trans hlo
    · exact (hl.bounds _ (Lanes.version_mem hs)).2
  words := by
    intro i hi
    have hto : (BitVec.ofNat 32 i).toNat = i := by
      rw [BitVec.toNat_ofNat]
      omega
    have hfinal := Lanes.final_rows hl h.versions base (BitVec.ofNat 32 i)
    rw [hto] at hfinal
    rw [hfinal]
    cases l.overlay (BitVec.ofNat 32 i) with
    | none => exact h.words i hi
    | some value => rfl
  rows := by
    intro k
    simp only [List.mem_append, or_and_right, exists_or, h.rows k,
      Lanes.key_rows hl.length_val hl.length_icount base k]
    constructor
    · rintro (⟨i, hi, rfl⟩ | ⟨a, ha, rfl⟩)
      · exact Or.inl ⟨i, hi, rfl⟩
      · exact Or.inr ⟨a.toNat, ⟨a, ha, rfl⟩, rfl⟩
    · rintro (⟨i, hi, rfl⟩ | ⟨i, ⟨a, ha, rfl⟩, rfl⟩)
      · exact Or.inl ⟨i, hi, rfl⟩
      · exact Or.inr ⟨a, ha, rfl⟩

theorem congr (h : Spells table base n hi word present) {word' : Nat → Word}
    {present' : Nat → Prop} (hword : ∀ i < n, word i = word' i)
    (hpresent : ∀ i, present i ↔ present' i) : Spells table base n hi word' present' :=
  ⟨h.versions, fun i hi => (h.words i hi).trans (hword i hi), fun k => by
    rw [h.rows k]
    simp only [hpresent]⟩

/-- Two tables that spell the same words in the same rows read the same. -/
theorem final_eq (h : Spells table base n hi word present) {table' : List (TableRow Nat Word)}
    {hi' : Nat} (h' : Spells table' base n hi' word present) (hin : ∀ i, present i → i < n) (k : Nat) :
    Table.final table k = Table.final table' k := by
  by_cases hk : ∃ i, present i ∧ k = base + i
  · obtain ⟨i, hi, rfl⟩ := hk
    have hsome : ∀ {t : List (TableRow Nat Word)} {m : Nat}, Spells t base n m word present →
        Table.final t (base + i) = some (word i) := by
      intro t m ht
      have hword := ht.words i (hin i hi)
      obtain ⟨s, hs, hkey⟩ := (ht.rows (base + i)).mpr ⟨i, hi, rfl⟩
      cases hkept : Table.kept t (base + i) with
      | none => exact absurd hkey (Table.kept_none.mp hkept s hs)
      | some row =>
        rw [Table.final, hkept] at hword ⊢
        exact congrArg some hword
    rw [hsome h, hsome h']
  · have hnone : ∀ {t : List (TableRow Nat Word)} {m : Nat}, Spells t base n m word present →
        Table.final t k = none := by
      intro t m ht
      rw [Table.final, Table.kept_none.mpr, Option.map_none]
      intro s hs hkey
      exact hk ((ht.rows k).mp ⟨s, hs, hkey⟩)
    rw [hnone h, hnone h']

end Spells

/-! ## How far a machine has come -/

namespace Cpu

variable {c d : Cpu}

theorem Reaches.icount_le (h : c.Reaches d) : c.icount ≤ d.icount := by
  induction h with
  | refl => exact Nat.le_refl _
  | tail _ hstep ih =>
    obtain ⟨word, insn, hs⟩ := stepReporting_of_step hstep
    rw [icount_stepReporting hs]
    omega

/-- The count says how many steps ago. -/
theorem Reaches.after (h : c.Reaches d) : d = c.after (d.icount - c.icount) := by
  induction h using Relation.ReflTransGen.head_induction_on with
  | refl =>
    rw [Nat.sub_self]
    rfl
  | head hstep hrest ih =>
    obtain ⟨word, insn, hs⟩ := stepReporting_of_step hstep
    have hcount := icount_stepReporting hs
    have hle := Reaches.icount_le hrest
    have hsub : ∀ a b e : Nat, b = a + 1 → b ≤ e → e - a = (e - b) + 1 := by omega
    rw [hsub _ _ _ hcount hle, Cpu.after, hstep]
    exact ih

/-- A machine reaches one state of each count. -/
theorem Reaches.unique {d' : Cpu} (h : c.Reaches d) (h' : c.Reaches d')
    (hcount : d.icount = d'.icount) : d = d' := by
  rw [h.after, h'.after, hcount]

theorem Reaches.touched (h : c.Reaches d) (region : Region) (n : Nat) :
    c.touched region (d.icount - c.icount + n) =
      c.touched region (d.icount - c.icount) ++ d.touched region n := by
  induction h using Relation.ReflTransGen.head_induction_on with
  | refl =>
    rw [Nat.sub_self, Nat.zero_add]
    rfl
  | head hstep hrest ih =>
    obtain ⟨word, insn, hs⟩ := stepReporting_of_step hstep
    have hcount := icount_stepReporting hs
    have hle := Reaches.icount_le hrest
    have hsub : ∀ a b e : Nat, b = a + 1 → b ≤ e → e - a = (e - b) + 1 := by omega
    rw [hsub _ _ _ hcount hle, Nat.add_right_comm, Cpu.touched, Cpu.touched, hs]
    simp only [ih, List.append_assoc]

/-- The words a machine stores into are words of their region. -/
theorem touched_lt {L : Layout} (hmap : c.memory.map = L.map) {region : Region} {bound : Nat}
    (hbound : (L.map.bounds region).2.toNat ≤ 4 * bound) (n : Nat) :
    ∀ a ∈ c.touched region n, a.toNat < bound := by
  induction n generalizing c with
  | zero => exact fun a ha => absurd ha List.not_mem_nil
  | succ n ih =>
    intro a ha
    rw [touched] at ha
    have hkeeps := c.stepReporting_keepsText
    cases hs : c.stepReporting with
    | mk result c' =>
      rw [hs] at ha hkeeps
      cases result with
      | error halt => cases ha
      | ok p =>
        rcases List.mem_append.mp ha with hw | hw
        · rw [storedWord] at hw
          split_ifs at hw
          · split at hw
            · rename_i r offset hclass
              split_ifs at hw with hr
              · subst hr
                rw [List.mem_singleton] at hw
                obtain ⟨hh, rfl⟩ := MemoryMap.holds_of_classify hclass
                have hlt := hh.offset_lt
                have hsize := (storeWidth p.2.op).size_cases
                rw [hmap] at hlt
                rw [hw, BitVec.toNat_ushiftRight, Nat.shiftRight_eq_div_pow, hmap]
                omega
              · cases hw
            · cases hw
          · cases hw
        · exact ih (hkeeps.1.trans hmap) a hw

end Cpu
end ClickDoom
