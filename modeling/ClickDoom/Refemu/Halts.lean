import ClickDoom.Refemu.Exec

/-! # Halts are precise

What one instruction can do, said once, and from it what a step leaves behind:
a halt leaves the machine as it found it, and a step that retires moves the
count by one and the program counter to an aligned address.

The one way a halting step could have changed the machine is a fetch from the
device window, which pops a key event.  A machine whose regions are apart and whose
text region is declared and lies inside RAM never fetches from there.
-/
namespace ClickDoom

/-- The text region is declared and lies inside RAM. -/
def Memory.TextInRam (m : Memory) : Prop :=
  ∃ start stop, m.text = some (start, stop) ∧ m.map.ramBase ≤ start ∧
    stop.toNat ≤ m.map.ramBase.toNat + m.map.ramSize.toNat

/-- A fault's record carries no exit code, and an exit's record no address. -/
def Halt.WellFormed (halt : Halt) : Prop :=
  (halt.reason.isFault = true → halt.exitCode = none) ∧ (halt.reason = .exit → halt.addr = none)

theorem fetchHalt_wellFormed (pc : Word) (fault : MemFault) : (fetchHalt pc fault).WellFormed := by
  cases fault <;>
    simp [fetchHalt, Halt.WellFormed, Halt.onFetch, Halt.new, HaltReason.isFault]

theorem accessHalt_wellFormed (pc word : Word) (fault : MemFault) :
    (accessHalt pc word fault).WellFormed := by
  cases fault <;>
    simp [accessHalt, Halt.WellFormed, Halt.at', Halt.exit, Halt.new, HaltReason.isFault]

namespace Cpu

/-- Everything an instruction can do: fault on its own account, jump, retire in
place, load, or store.  Besides memory only the destination register changes. -/
theorem execute_cases (c : Cpu) (pc word : Word) (insn : Instruction) :
    (∃ reason, reason.isFault = true ∧
      c.execute pc word insn = (.error (.withInsn reason pc word), c)) ∨
    (∃ target d, (d = c ∨ ∃ value, d = c.setReg insn.rd value) ∧
      c.execute pc word insn = c.jump pc word target d) ∨
    (∃ d, (d = c ∨ ∃ value, d = c.setReg insn.rd value) ∧
      c.execute pc word insn = (.ok (pc + 4), d)) ∨
    (∃ addr width signed, c.execute pc word insn =
      c.executeLoad pc word insn.rd addr width signed) ∨
    ∃ addr width value, c.execute pc word insn = c.executeStore pc word addr width value := by
  cases hop : insn.op with
  | ecall | ebreak | csr | illegal =>
    simp only [execute, hop]
    exact Or.inl ⟨_, rfl, rfl⟩
  | jal | jalr =>
    simp only [execute, hop]
    exact Or.inr (Or.inl ⟨_, _, Or.inr ⟨_, rfl⟩, rfl⟩)
  | beq | bne | blt | bge | bltu | bgeu =>
    simp only [execute, hop]
    split_ifs
    · exact Or.inr (Or.inl ⟨_, _, Or.inl rfl, rfl⟩)
    · exact Or.inr (Or.inr (Or.inl ⟨_, Or.inl rfl, rfl⟩))
  | lb | lh | lw | lbu | lhu =>
    simp only [execute, hop]
    exact Or.inr (Or.inr (Or.inr (Or.inl ⟨_, _, _, rfl⟩)))
  | sb | sh | sw =>
    simp only [execute, hop]
    exact Or.inr (Or.inr (Or.inr (Or.inr ⟨_, _, _, rfl⟩)))
  | fence =>
    simp only [execute, hop]
    exact Or.inr (Or.inr (Or.inl ⟨_, Or.inl rfl, rfl⟩))
  | _ =>
    simp only [execute, hop]
    exact Or.inr (Or.inr (Or.inl ⟨_, Or.inr ⟨_, rfl⟩, rfl⟩))

/-! ## What reads and writes keep, a step keeps -/

section Memory
variable {R : Memory → Memory → Prop} (hrefl : ∀ m, R m m)
  (htrans : ∀ {m m' m'' : Memory}, R m m' → R m' m'' → R m m'')
  (hread : ∀ m addr width icount, R m (Memory.read m addr width icount).2)
  (hwrite : ∀ m addr width value icount, R m (Memory.write m addr width value icount).2)
include hrefl hread hwrite

theorem execute_memory (c : Cpu) (pc word : Word) (insn : Instruction) :
    R c.memory (c.execute pc word insn).2.memory := by
  rcases c.execute_cases pc word insn with ⟨reason, -, he⟩ | ⟨target, d, hd, he⟩ | ⟨d, hd, he⟩ |
    ⟨addr, width, signed, he⟩ | ⟨addr, width, value, he⟩ <;> rw [he]
  · exact hrefl _
  · simp only [jump]
    split
    · exact hrefl _
    · rcases hd with rfl | ⟨value, rfl⟩ <;> exact hrefl _
  · rcases hd with rfl | ⟨value, rfl⟩ <;> exact hrefl _
  · have := hread c.memory addr width c.icount
    simp only [executeLoad]
    split <;> rename_i hr <;> rw [hr] at this <;> exact this
  · have := hwrite c.memory addr width value c.icount
    simp only [executeStore]
    split <;> rename_i hr <;> rw [hr] at this <;> exact this

include htrans

/-- A step, whatever its result, relates the memory before and after it by any
relation that one read and one write respect. -/
theorem stepReporting_memory (c : Cpu) : R c.memory c.stepReporting.2.memory := by
  have hf : R c.memory c.fetch.2.memory := by
    have := hread c.memory c.pc .word c.icount
    unfold fetch
    split
    · exact hrefl _
    · split <;> rename_i hr <;> rw [hr] at this <;> exact this
  unfold stepReporting
  split
  · exact hrefl _
  · split
    · rename_i hfetch
      rw [hfetch] at hf
      exact hf
    · rename_i word insn d hfetch
      rw [hfetch] at hf
      have he := execute_memory hrefl hread hwrite d c.pc word insn
      split <;> rename_i hexec <;> rw [hexec] at he <;> exact htrans hf he

end Memory

/-! ## An instruction that halts -/

theorem jump_error {c d : Cpu} {pc word target : Word} {halt : Halt}
    (h : (c.jump pc word target d).1 = .error halt) :
    (c.jump pc word target d).2 = c ∧ halt.WellFormed := by
  simp only [jump, checkTarget] at h ⊢
  split_ifs at h ⊢ with ht
  obtain rfl := Except.error.inj h
  exact ⟨rfl, fun _ => rfl, by intro h; cases h⟩

theorem executeLoad_error {c : Cpu} {pc word addr : Word} {rd : BitVec 5} {width : Width}
    {signed : Bool} {halt : Halt} (h : (c.executeLoad pc word rd addr width signed).1 = .error halt) :
    (c.executeLoad pc word rd addr width signed).2 = c ∧ halt.WellFormed := by
  unfold executeLoad at h ⊢
  rcases hr : c.memory.read addr width c.icount with ⟨fault | raw, m⟩ <;> rw [hr] at h
  · obtain rfl := Except.error.inj h
    obtain rfl := Memory.read_error hr
    exact ⟨rfl, accessHalt_wellFormed _ _ _⟩
  · cases h

theorem executeStore_error {c : Cpu} {pc word addr value : Word} {width : Width} {halt : Halt}
    (h : (c.executeStore pc word addr width value).1 = .error halt) :
    (c.executeStore pc word addr width value).2 = c ∧ halt.WellFormed := by
  unfold executeStore at h ⊢
  rcases hr : c.memory.write addr width value c.icount with ⟨fault | u, m⟩ <;> rw [hr] at h
  · obtain rfl := Except.error.inj h
    obtain rfl := Memory.write_error hr
    exact ⟨rfl, accessHalt_wellFormed _ _ _⟩
  · cases h

/-- Every check of an instruction comes before its effects. -/
theorem execute_error {c : Cpu} {pc word : Word} {insn : Instruction} {halt : Halt}
    (h : (c.execute pc word insn).1 = .error halt) :
    (c.execute pc word insn).2 = c ∧ halt.WellFormed := by
  rcases c.execute_cases pc word insn with ⟨reason, hf, he⟩ | ⟨target, d, -, he⟩ | ⟨d, -, he⟩ |
    ⟨addr, width, signed, he⟩ | ⟨addr, width, value, he⟩ <;> rw [he] at h ⊢
  · obtain rfl := Except.error.inj h
    exact ⟨rfl, fun _ => rfl, fun _ => rfl⟩
  · exact jump_error h
  · cases h
  · exact executeLoad_error h
  · exact executeStore_error h

/-! ## An instruction that retires -/

/-- An instruction at an aligned address retires to an aligned address. -/
theorem execute_ok_aligned {c : Cpu} {pc word next : Word} {insn : Instruction}
    (hpc : pc.toNat % 4 = 0) (h : (c.execute pc word insn).1 = .ok next) :
    next.toNat % 4 = 0 := by
  have hnext : (pc + 4).toNat % 4 = 0 := by
    rw [BitVec.toNat_add]
    have : (4 : Word).toNat = 4 := rfl
    omega
  rcases c.execute_cases pc word insn with ⟨reason, -, he⟩ | ⟨target, d, -, he⟩ | ⟨d, -, he⟩ |
    ⟨addr, width, signed, he⟩ | ⟨addr, width, value, he⟩ <;> rw [he] at h
  · cases h
  · simp only [jump, checkTarget] at h
    split_ifs at h with ht
    obtain rfl := Except.ok.inj h
    omega
  · obtain rfl := Except.ok.inj h
    exact hnext
  · simp only [executeLoad] at h
    split at h
    · cases h
    · obtain rfl := Except.ok.inj h
      exact hnext
  · simp only [executeStore] at h
    split at h
    · cases h
    · obtain rfl := Except.ok.inj h
      exact hnext

/-- The count is a step's own to move. -/
theorem execute_icount (c : Cpu) (pc word : Word) (insn : Instruction) :
    (c.execute pc word insn).2.icount = c.icount := by
  rcases c.execute_cases pc word insn with ⟨reason, -, he⟩ | ⟨target, d, hd, he⟩ | ⟨d, hd, he⟩ |
    ⟨addr, width, signed, he⟩ | ⟨addr, width, value, he⟩ <;> rw [he]
  · simp only [jump]
    split
    · rfl
    · rcases hd with rfl | ⟨value, rfl⟩ <;> rfl
  · rcases hd with rfl | ⟨value, rfl⟩ <;> rfl
  · simp only [executeLoad]
    split <;> rfl
  · simp only [executeStore]
    split <;> rfl

/-! ## The fetch -/

theorem fetch_icount (c : Cpu) : c.fetch.2.icount = c.icount := by
  simp only [fetch]
  split
  · rfl
  · split <;> rfl

/-- A fetch that finds a word found it at an aligned address. -/
theorem fetch_ok_aligned {c : Cpu} {p : Word × Instruction} (h : c.fetch.1 = .ok p) :
    c.pc.toNat % 4 = 0 := by
  unfold fetch at h
  split at h
  · rename_i entry hentry
    obtain ⟨cache, -, hget⟩ := Option.bind_eq_some_iff.mp hentry
    exact DecodeCache.aligned_of_get hget
  · by_contra hmis
    simp [Memory.read, Memory.checkAlign, Width.size, hmis] at h

theorem fetch_error_wellFormed {c : Cpu} {halt : Halt} (h : c.fetch.1 = .error halt) :
    halt.WellFormed := by
  unfold fetch at h
  split at h
  · cases h
  · split at h
    · obtain rfl := Except.error.inj h
      exact fetchHalt_wellFormed _ _
    · cases h

/-- A fetch inside a text region that lies inside RAM reads RAM or faults, and
so changes nothing. -/
theorem fetch_unchanged {c : Cpu} (hs : c.memory.map.Separate) (ht : c.memory.TextInRam)
    (hin : c.outsideText = false) : c.fetch.2 = c := by
  obtain ⟨start, stop, htext, hstart, hstop⟩ := ht
  simp only [outsideText, htext, Bool.and_eq_true, decide_eq_true_eq,
    Bool.not_eq_eq_eq_not, Bool.not_false] at hin
  have hram : c.memory.map.Holds .ram c.pc .byte := by
    refine ⟨?_, ?_⟩
    · exact le_trans hstart hin.1
    · have h2 : c.pc.toNat < stop.toNat := hin.2
      simp only [MemoryMap.bounds, Width.size]
      omega
  have hread : (c.memory.read c.pc .word c.icount).2 = c.memory := by
    simp only [Memory.read]
    split
    · rfl
    · rcases hs.classify_ram_or_none hram with hc | hc <;> rw [hc]
  unfold fetch
  split
  · rfl
  · split <;> rename_i hr <;> rw [hr] at hread <;> dsimp only at hread ⊢ <;> rw [hread] <;> rfl

/-! ## The step -/

/-- A step that halts halted outside the text, in its fetch, or in the
instruction it fetched. -/
theorem step_error_cases {c : Cpu} {halt : Halt} (h : c.step.1 = .error halt) :
    (c.outsideText = true ∧ halt = .onFetch .badAddr c.pc c.pc ∧ c.step.2 = c) ∨
    (c.outsideText = false ∧ c.fetch.1 = .error halt ∧ c.step.2 = c.fetch.2) ∨
    ∃ word insn, c.outsideText = false ∧ c.fetch.1 = .ok (word, insn) ∧
      (c.fetch.2.execute c.pc word insn).1 = .error halt ∧
      c.step.2 = (c.fetch.2.execute c.pc word insn).2 := by
  simp only [step, stepReporting] at h ⊢
  cases hout : c.outsideText with
  | true =>
    simp only [hout, if_true, Except.map] at h ⊢
    exact Or.inl ⟨trivial, (Except.error.inj h).symm, trivial⟩
  | false =>
    simp only [hout, Bool.false_eq_true, if_false] at h ⊢
    rcases hf : c.fetch with ⟨_ | ⟨word, insn⟩, d⟩
    · rw [hf] at h
      obtain rfl := Except.error.inj h
      exact Or.inr (Or.inl ⟨trivial, rfl, rfl⟩)
    · rw [hf] at h
      dsimp only at h ⊢
      rcases he : d.execute c.pc word insn with ⟨_ | next, d'⟩
      · rw [he] at h
        obtain rfl := Except.error.inj h
        exact Or.inr (Or.inr ⟨word, insn, trivial, rfl, by rw [he], by rw [he]⟩)
      · rw [he] at h
        cases h

/-- A step that retires fetched an instruction and executed it. -/
theorem step_ok_cases {c : Cpu} (h : c.step.1 = .ok ()) :
    ∃ word insn next, c.outsideText = false ∧ c.fetch.1 = .ok (word, insn) ∧
      (c.fetch.2.execute c.pc word insn).1 = .ok next ∧
      c.step.2 = { (c.fetch.2.execute c.pc word insn).2 with
        icount := (c.fetch.2.execute c.pc word insn).2.icount + 1, pc := next } := by
  simp only [step, stepReporting] at h ⊢
  cases hout : c.outsideText with
  | true =>
    simp only [hout, if_true] at h
    cases h
  | false =>
    simp only [hout, Bool.false_eq_true, if_false] at h ⊢
    rcases hf : c.fetch with ⟨_ | ⟨word, insn⟩, d⟩
    · rw [hf] at h
      cases h
    · rw [hf] at h
      dsimp only at h ⊢
      rcases he : d.execute c.pc word insn with ⟨_ | next, d'⟩
      · rw [he] at h
        cases h
      · exact ⟨word, insn, next, trivial, rfl, by rw [he], by rw [he]⟩

theorem step_error_unchanged {c : Cpu} (hs : c.memory.map.Separate) (ht : c.memory.TextInRam)
    {halt : Halt} (h : c.step.1 = .error halt) : c.step.2 = c ∧ halt.WellFormed := by
  rcases step_error_cases h with ⟨-, rfl, h2⟩ | ⟨hin, hf, h2⟩ | ⟨word, insn, hin, -, he, h2⟩
  · exact ⟨h2, fun _ => rfl, by intro h; cases h⟩
  · exact ⟨h2.trans (fetch_unchanged hs ht hin), fetch_error_wellFormed hf⟩
  · have hc := fetch_unchanged hs ht hin
    obtain ⟨hd, hw⟩ := execute_error he
    exact ⟨h2.trans (hd.trans hc), hw⟩

theorem step_ok_advances {c : Cpu} (h : c.step.1 = .ok ()) :
    c.step.2.icount = c.icount + 1 ∧ c.step.2.reg 0 = 0 ∧ c.step.2.pc.toNat % 4 = 0 := by
  obtain ⟨word, insn, next, -, hf, he, h2⟩ := step_ok_cases h
  refine ⟨?_, reg_zero _, ?_⟩
  · rw [h2]
    simp only [execute_icount, fetch_icount]
  · rw [h2]
    exact execute_ok_aligned (fetch_ok_aligned hf) he

/-- Six bytes of RAM, all text, with `KEYQ` over the word that starts in its last two,
and a key waiting. -/
def keyOverText : Cpu :=
  let map := { MemoryMap.clickdoom.withRamSize 6 with mmioBase := ramBase + 4 - Mmio.keyq }
  let registers := Registers.new ipmsDefault ipmsDefault_ne_zero
  let devices := Devices.registers { registers with keyQueue := [⟨true, 0x61⟩] }
  (Cpu.new (Memory.new map devices) (ramBase + 4)).setTextRegion (some (ramBase, ramBase + 6))

end Cpu
end ClickDoom
