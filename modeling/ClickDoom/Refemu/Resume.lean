import ClickDoom.Refemu.CacheAgrees
import ClickDoom.Refemu.Snapshot

/-! # Carrying on from a snapshot

The machines the command line builds (`refemu/src/cli/mod.rs`), what of a machine
a snapshot keeps, and when a resumed machine carries on as the original would.
It does whenever the device window has registers.  The inert window's bytes are
in no section, so a machine with that window carries on only if it is blank.
-/
namespace ClickDoom
open LittleEndian (bytes value chunks)

/-! ## Building a machine -/

/-- Which device set a machine is built with. -/
inductive DeviceSet
  | full (ipms : Word) (ipms_ne_zero : ipms ≠ 0)
  | none

/-- What the command line settles before it builds a machine. -/
structure Configuration where
  ramSize : Word
  devices : DeviceSet
  image : Image
  entry : Option Word
  text : Option (Word × Word)

namespace Configuration

def map (cfg : Configuration) : MemoryMap := MemoryMap.clickdoom.withRamSize cfg.ramSize

def freshDevices (cfg : Configuration) : Devices :=
  match cfg.devices with
  | .full ipms h => .registers (.new ipms h)
  | .none => .bytes (.new cfg.map.mmioSize)

/-- The machine with its image loaded, before any snapshot is put back. -/
def build (cfg : Configuration) : Except LoadError Cpu :=
  match (Cpu.new (Memory.new cfg.map cfg.freshDevices) cfg.image.entry).load cfg.image with
  | (.error e, _) => .error e
  | (.ok (), cpu) => .ok ((cpu.setPc (cfg.entry.getD cpu.pc)).setTextRegion cfg.text)

/-- Why a machine could not be resumed. -/
inductive ResumeError
  | load (e : LoadError)
  | snapshot (e : Snapshot.Error)

variable {Manifest : Type} (text : Snapshot.HeaderText Manifest) (sha256Hex : List Byte → String)

/-- Builds a machine and puts a written snapshot back into it. -/
def resume (cfg : Configuration) (file : List Byte) (force : Bool) : Except ResumeError Cpu :=
  match cfg.build with
  | .error e => .error (.load e)
  | .ok cpu =>
    match Snapshot.read text sha256Hex file ["ram", "framebuffer", "palette"] with
    | .error e => .error (.snapshot e)
    | .ok snapshot =>
      match snapshot.restore cpu force with
      | .error e => .error (.snapshot e)
      | .ok cpu => .ok cpu.enableDecodeCache.2

/-- The machines of a run: built or resumed, with or without a cache and a
recording of writes, at any point. -/
inductive Reached (cfg : Configuration) : Cpu → Prop
  | built {c : Cpu} : cfg.build = .ok c → Reached cfg c
  | resumed {c d : Cpu} {Manifest : Type} (snapshot : Snapshot Manifest) (force : Bool) :
      cfg.build = .ok c → snapshot.restore c force = .ok d → Reached cfg d
  | cached {c : Cpu} : Reached cfg c → Reached cfg c.enableDecodeCache.2
  | watched {c : Cpu} (regions : List Region) :
      Reached cfg c → Reached cfg (c.setMemory (c.memory.watchWrites regions))
  | stepped {c : Cpu} : Reached cfg c → Reached cfg c.step.2

end Configuration

/-! ## What a run keeps of its configuration -/

/-- The same device set, the registers with the same clock, the inert window as
long as it was. -/
def Devices.SameSet : Devices → Devices → Prop
  | .registers r, .registers r' => r'.ipms = r.ipms
  | .bytes b, .bytes b' => b'.bytes.length = b.bytes.length
  | _, _ => False

namespace Devices

theorem SameSet.refl (d : Devices) : d.SameSet d := by
  cases d <;> exact rfl

theorem SameSet.trans {d d' d'' : Devices} (h : d.SameSet d') (h' : d'.SameSet d'') :
    d.SameSet d'' := by
  cases d <;> cases d' <;> cases d'' <;> simp only [SameSet] at h h' ⊢ <;> exact h'.trans h

theorem read_sameSet (d : Devices) (offset : Word) (width : Width) (icount : Nat) :
    d.SameSet (d.read offset width icount).2 := by
  cases d with
  | bytes b => exact rfl
  | registers r =>
    simp only [read, SameSet, Registers.read]
    split_ifs
    · rfl
    · rfl
    · split <;> rfl
    · rfl

theorem write_sameSet (d : Devices) (offset : Word) (width : Width) (value : Word) (icount : Nat) :
    d.SameSet (d.write offset width value icount).2 := by
  cases d with
  | registers r =>
    simp only [write, SameSet, Registers.write]
    split_ifs <;> rfl
  | bytes b =>
    simp only [write, SameSet, ByteWindow.write]
    generalize List.range width.size = positions
    generalize b.bytes = store
    induction positions generalizing store with
    | nil => rfl
    | cons i rest ih => rw [List.foldl_cons, ih, List.length_set]

end Devices

namespace Memory

theorem read_sameSet (m : Memory) (addr : Word) (width : Width) (icount : Nat) :
    m.devices.SameSet (m.read addr width icount).2.devices := by
  unfold read
  split
  · exact .refl _
  · split
    · exact .refl _
    · exact .refl _
    · exact m.devices.read_sameSet _ _ _
    · exact .refl _
    · exact .refl _

theorem write_sameSet (m : Memory) (addr : Word) (width : Width) (value : Word) (icount : Nat) :
    m.devices.SameSet (m.write addr width value icount).2.devices := by
  unfold write
  split
  · exact .refl _
  · split
    · exact .refl _
    · split <;> exact .refl _
    · dsimp only
      split <;> exact m.devices.write_sameSet _ _ _ _
    · split <;> exact .refl _
    · split <;> exact .refl _

end Memory

namespace Cpu

theorem stepReporting_sameSet (c : Cpu) :
    c.memory.devices.SameSet c.stepReporting.2.memory.devices :=
  stepReporting_memory (R := fun m m' => m.devices.SameSet m'.devices) (fun _ => .refl _) .trans
    Memory.read_sameSet Memory.write_sameSet c

end Cpu

/-! ## Reading back what was written -/

namespace Snapshot
section
variable {Manifest : Type} (text : HeaderText Manifest) (sha256Hex : List Byte → String)

/-- Sections laid out after some bytes are found where the layout says. -/
theorem readSections_layout (front : List Byte) (sections : List (String × List Byte)) :
    readSections sha256Hex (front ++ sections.flatMap (·.2))
      (layout sha256Hex front.length sections) = .ok sections := by
  induction sections generalizing front with
  | nil => rfl
  | cons s rest ih =>
    obtain ⟨name, data⟩ := s
    have hrest := ih (front ++ data)
    rw [List.length_append, List.append_assoc] at hrest
    have hdata : ((front ++ (data ++ rest.flatMap (·.2))).drop front.length).take data.length =
        data := by
      rw [List.drop_left, List.take_left]
    have hlen : front.length + data.length ≤ (front ++ (data ++ rest.flatMap (·.2))).length := by
      simp only [List.length_append]
      omega
    rw [List.flatMap_cons, layout, readSections, hrest, readSection, if_pos hlen, hdata]
    simp

/-- A container that could be written reads back, with the layout in its
header. -/
theorem read_of_write {s : Snapshot Manifest} {file : List Byte} (needed : List String)
    (hw : s.write text sha256Hex = .ok file) (ht : text.RoundTrips (s.written sha256Hex))
    (hneed : ∀ name ∈ needed, (s.sectionNamed name).isSome = true) :
    read text sha256Hex file needed = .ok ⟨s.written sha256Hex, s.sections⟩ := by
  have hlong : ¬bodyOffset < (magic ++ text.toString (s.written sha256Hex) ++ [newline]).length := by
    intro h
    rw [write, if_pos (show bodyOffset < (s.head text sha256Hex).length from h)] at hw
    cases hw
  rw [write_of_fits text sha256Hex (Nat.not_lt.mp hlong)] at hw
  obtain rfl := Except.ok.inj hw
  unfold fileBytes head
  obtain ⟨hnl, hparse⟩ := ht
  generalize text.toString (s.written sha256Hex) = line at hnl hparse hlong ⊢
  generalize hpad : List.replicate (bodyOffset - (magic ++ line ++ [newline]).length) (0 : Byte) = pad
  have hsplit : magic ++ line ++ [newline] ++ pad ++ s.sections.flatMap (·.2) =
      magic ++ (line ++ newline :: (pad ++ s.sections.flatMap (·.2))) := by
    simp
  have hfront : (magic ++ line ++ [newline] ++ pad).length = bodyOffset := by
    rw [List.length_append, ← hpad, List.length_replicate]
    omega
  have hsections : readSections sha256Hex
      (magic ++ line ++ [newline] ++ pad ++ s.sections.flatMap (·.2))
      (s.written sha256Hex).sections = .ok s.sections := by
    change readSections sha256Hex _ (layout sha256Hex bodyOffset s.sections) = _
    rw [← hfront]
    exact readSections_layout sha256Hex _ s.sections
  have hhead : (line ++ newline :: (pad ++ s.sections.flatMap (·.2))).takeWhile (· ≠ newline) =
      line := by
    rw [List.takeWhile_append_of_pos]
    · simp
    · intro b hb
      have : b ≠ newline := fun h => hnl (h ▸ hb)
      simpa using this
  have hfind : needed.find? (fun name =>
      ((⟨s.written sha256Hex, s.sections⟩ : Snapshot Manifest).sectionNamed name).isNone) = none := by
    rw [List.find?_eq_none]
    intro name hname
    have hsome : ((⟨s.written sha256Hex, s.sections⟩ : Snapshot Manifest).sectionNamed name).isSome =
        true := hneed name hname
    rw [← Option.not_isSome, hsome]
    decide
  rw [hsplit] at hsections ⊢
  unfold read
  rw [if_neg (by rw [List.take_left]; exact fun h => h rfl)]
  simp only [List.drop_left, hhead]
  rw [if_neg (by simp), hparse]
  simp only [hsections, hfind]

end

/-! ## What the sections keep -/

variable {Manifest : Type}

theorem readKey_keyBytes (event : KeyEvent) : readKey (keyBytes event) = event := by
  obtain ⟨pressed, doomkey⟩ := event
  cases pressed <;> simp [readKey, keyBytes]

theorem readCommit_commitBytes (commit : FrameCommit) :
    readCommit (commitBytes commit) = commit := by
  obtain ⟨frameNo, commitIcount⟩ := commit
  rw [readCommit, commitBytes, List.take_left' (LittleEndian.length_bytes _ _),
    List.drop_left' (LittleEndian.length_bytes _ _), LittleEndian.value_bytes _ (by omega),
    LittleEndian.value_bytes _ (by omega)]

theorem map_readKey_chunks (events : List KeyEvent) :
    (chunks 2 (events.flatMap keyBytes)).map readKey = events := by
  rw [LittleEndian.chunks_flatMap (by omega) keyBytes (fun _ => rfl), List.map_map,
    show readKey ∘ keyBytes = id from funext readKey_keyBytes, List.map_id]

theorem map_readCommit_chunks (commits : List FrameCommit) :
    (chunks 12 (commits.flatMap commitBytes)).map readCommit = commits := by
  have hlen : ∀ commit, (commitBytes commit).length = 12 := by
    intro commit
    simp [commitBytes]
  rw [LittleEndian.chunks_flatMap (by omega) _ hlen, List.map_map,
    show readCommit ∘ commitBytes = id from funext readCommit_commitBytes, List.map_id]

/-! ## Putting a machine back -/

/-- What any restore leaves alone. -/
theorem restore_ok {c d : Cpu} {s : Snapshot Manifest} {force : Bool}
    (h : s.restore c force = .ok d) :
    d.memory.map = c.memory.map ∧ d.memory.text = c.memory.text ∧
      c.memory.devices.SameSet d.memory.devices ∧ d.cache = none := by
  simp only [restore, bind, Except.bind, pure, Except.pure] at h
  split at h
  · cases h
  split at h
  · cases h
  split at h
  · cases h
  split at h
  · cases h
  split at h
  · cases h
  · rename_i devices hdevices
    obtain rfl := Except.ok.inj h
    refine ⟨rfl, rfl, ?_, rfl⟩
    change c.memory.devices.SameSet devices
    change s.restoreDevices c.memory.devices = .ok devices at hdevices
    cases hd : c.memory.devices with
    | bytes b =>
      rw [hd] at hdevices
      obtain rfl := Except.ok.inj hdevices
      exact rfl
    | registers r =>
      rw [hd] at hdevices
      simp only [restoreDevices, restoreRegisters, bind, Except.bind, pure, Except.pure,
        Except.map] at hdevices
      split at hdevices
      · cases hdevices
      · rename_i r' hr
        obtain rfl := Except.ok.inj hdevices
        split at hr
        · cases hr
        split at hr
        · cases hr
        split at hr
        · cases hr
        · obtain rfl := Except.ok.inj hr
          exact rfl

/-- The device window a snapshot of one machine puts into another: the
registers' state comes back, an inert window is left as it is. -/
def carriedDevices (saved fresh : Devices) : Devices :=
  match saved, fresh with
  | .registers r, .registers _ => .registers r
  | _, d => d

theorem takeFilled_self {size : Nat} {source : List Byte} (h : source.length = size) :
    Memory.takeFilled size source = source := by
  subst h
  simp [Memory.takeFilled]

theorem zero_lt_regs : 0 < 32 := by decide

/-- The register file of a machine, read back from its list. -/
theorem savedRegs_toList (c : Cpu) (header : Header Manifest) (h : header.regs = some c.regs.toList) :
    (savedRegs header).set 0 0 zero_lt_regs = c.regs := by
  apply Vector.ext
  intro i hi
  rw [Vector.getElem_set]
  split_ifs with h0
  · subst h0
    exact c.x0_eq_zero.symm
  · simp [savedRegs, h, List.getD_eq_getElem?_getD]

section Captured
variable {c fresh : Cpu} (generator : String) (provenance : Provenance Manifest)
  (stop : Option String) (sections : List SectionInfo)

/-- A machine's snapshot as a reader has it. -/
def captured (c : Cpu) : Snapshot Manifest :=
  ⟨{ (machineSnapshot generator c provenance stop).header with sections },
    (machineSnapshot generator c provenance stop).sections⟩

theorem captured_need :
    let s := captured generator provenance stop sections c
    let registers := c.memory.devices.registersRef
    s.need "ram" = .ok c.memory.ram ∧ s.need "framebuffer" = .ok c.memory.framebuffer ∧
    s.need "palette" = .ok c.memory.palette ∧
    s.need "console" = .ok ((registers.map (·.console)).getD []) ∧
    s.need "keyq" = .ok ((registers.map (·.keyQueue.flatMap keyBytes)).getD []) ∧
    s.need "frame_commits" = .ok ((registers.map (·.frameCommits.flatMap commitBytes)).getD []) := by
  simp [captured, need, sectionNamed, machineSnapshot]

theorem captured_checkSettings (force : Bool) (hmap : c.memory.map = fresh.memory.map)
    (htext : c.memory.text = fresh.memory.text)
    (hset : fresh.memory.devices.SameSet c.memory.devices) :
    checkSettings fresh (captured generator provenance stop sections c).header force = .ok () := by
  have hipms : c.memory.devices.registersRef.map (·.ipms) =
      fresh.memory.devices.registersRef.map (·.ipms) := by
    cases hf : fresh.memory.devices <;> cases hc : c.memory.devices <;> rw [hf, hc] at hset
    · exact congrArg some hset
    · exact hset.elim
    · exact hset.elim
    · rfl
  have htheirs : textRegion (captured generator provenance stop sections c).header =
      c.memory.text := by
    cases ht : c.memory.text <;> simp [captured, machineSnapshot, textRegion, ht]
  have hram : (captured generator provenance stop sections c).header.ramSize =
      some fresh.memory.map.ramSize := by
    rw [← hmap]
    rfl
  have hours : (captured generator provenance stop sections c).header.ipms =
      fresh.memory.devices.registersRef.map (·.ipms) := hipms
  simp [checkSettings, hram, hours, htheirs, htext]

theorem captured_restoreDevices (hset : fresh.memory.devices.SameSet c.memory.devices) :
    (captured generator provenance stop sections c).restoreDevices fresh.memory.devices =
      .ok (carriedDevices c.memory.devices fresh.memory.devices) := by
  obtain ⟨-, -, -, hconsole, hkeyq, hcommits⟩ :=
    captured_need (c := c) generator provenance stop sections
  cases hf : fresh.memory.devices <;> cases hc : c.memory.devices <;> rw [hf, hc] at hset
  · rename_i rf rc
    have hipms : rc.ipms = rf.ipms := hset
    rw [hc] at hconsole hkeyq hcommits
    simp only [Devices.registersRef, Option.map_some, Option.getD_some] at hconsole hkeyq hcommits
    simp only [restoreDevices, restoreRegisters, hconsole, hkeyq, hcommits, bind, Except.bind, pure,
      Except.pure, Except.map, map_readKey_chunks, map_readCommit_chunks, carriedDevices]
    obtain ⟨ipms, keyQueue, console, frameCommits, h⟩ := rc
    cases hipms
    rfl
  · exact hset.elim
  · exact hset.elim
  · rfl

/-- A snapshot of a machine, put into a machine of the same settings. -/
theorem restore_captured (force : Bool) (hmap : c.memory.map = fresh.memory.map)
    (htext : c.memory.text = fresh.memory.text)
    (hset : fresh.memory.devices.SameSet c.memory.devices) :
    ∃ d, (captured generator provenance stop sections c).restore fresh force = .ok d ∧
      d.pc = c.pc ∧ d.regs = c.regs ∧ d.icount = c.icount ∧
      d.memory.ram = c.memory.ram ∧ d.memory.framebuffer = c.memory.framebuffer ∧
      d.memory.palette = c.memory.palette ∧
      d.memory.devices = carriedDevices c.memory.devices fresh.memory.devices := by
  obtain ⟨hram, hframebuffer, hpalette, -, -, -⟩ :=
    captured_need (c := c) generator provenance stop sections
  have hdevices := captured_restoreDevices generator provenance stop sections hset
  simp only [restore, captured_checkSettings generator provenance stop sections force hmap htext hset,
    hram, hframebuffer, hpalette, bind, Except.bind, pure, Except.pure]
  rw [show (Cpu.restore (fresh.restoreMemory c.memory.ram c.memory.framebuffer c.memory.palette) _ _
    _).memory.devices = fresh.memory.devices from rfl, hdevices]
  refine ⟨_, rfl, rfl, savedRegs_toList c _ rfl, rfl, ?_, ?_, ?_, rfl⟩
  · exact takeFilled_self (by rw [← hmap, c.memory.ram_length])
  · exact takeFilled_self (by rw [← hmap, c.memory.framebuffer_length])
  · exact takeFilled_self (by rw [← hmap, c.memory.palette_length])

end Captured
end Snapshot

/-! ## What a machine of a configuration keeps -/

namespace Cpu

theorem loadImage_settings (m : Memory) (data : List Byte) (loadAddr : Word) :
    (m.loadImage data loadAddr).2.map = m.map ∧ (m.loadImage data loadAddr).2.devices = m.devices := by
  simp only [Memory.loadImage]
  split_ifs <;> exact ⟨rfl, rfl⟩

theorem loadSegment_settings (m : Memory) (segment : Segment) :
    (loadSegment m segment).2.map = m.map ∧ (loadSegment m segment).2.devices = m.devices := by
  have hfirst := loadImage_settings m segment.bytes segment.vaddr
  unfold loadSegment
  split <;> rename_i m' hload <;> rw [hload] at hfirst
  · exact hfirst
  · dsimp only at hfirst ⊢
    split_ifs
    · have htail := loadImage_settings m'
        (List.replicate (segment.memLen.toNat - segment.bytes.length) 0)
        (segment.vaddr + BitVec.ofNat 32 segment.bytes.length)
      exact ⟨htail.1.trans hfirst.1, htail.2.trans hfirst.2⟩
    · exact hfirst

theorem loadSegments_settings (m : Memory) (segments : List Segment) :
    (loadSegments m segments).2.map = m.map ∧ (loadSegments m segments).2.devices = m.devices := by
  induction segments generalizing m with
  | nil => exact ⟨rfl, rfl⟩
  | cons segment rest ih =>
    have hfirst := loadSegment_settings m segment
    unfold loadSegments
    split <;> rename_i m' hload <;> rw [hload] at hfirst
    · exact hfirst
    · have hrest := ih m'
      exact ⟨hrest.1.trans hfirst.1, hrest.2.trans hfirst.2⟩

end Cpu

namespace Configuration

/-- What every machine of a configuration has in common. -/
structure Settled (cfg : Configuration) (c : Cpu) : Prop where
  map_eq : c.memory.map = cfg.map
  text_eq : c.memory.text = cfg.text
  sameSet : cfg.freshDevices.SameSet c.memory.devices
  fresh : c.CacheFresh

theorem build_settled {cfg : Configuration} {c : Cpu} (h : cfg.build = .ok c) :
    cfg.Settled c ∧ c.memory.devices = cfg.freshDevices := by
  unfold build at h
  split at h
  · cases h
  · rename_i cpu hload
    obtain rfl := Except.ok.inj h
    have hsettings := Cpu.loadSegments_settings (Memory.new cfg.map cfg.freshDevices)
      cfg.image.segments
    simp only [Cpu.load] at hload
    split at hload
    · cases hload
    · rename_i m hsegments
      obtain ⟨-, rfl⟩ := Prod.mk.inj hload
      change Cpu.loadSegments (Memory.new cfg.map cfg.freshDevices) cfg.image.segments = _ at hsegments
      rw [hsegments] at hsettings
      have hdevices : m.devices = cfg.freshDevices := hsettings.2
      refine ⟨⟨hsettings.1, rfl, ?_, Cpu.cacheFresh_of_none rfl⟩, hdevices⟩
      change cfg.freshDevices.SameSet m.devices
      rw [hdevices]
      exact .refl _

theorem Reached.settled {cfg : Configuration} {c : Cpu} (h : cfg.Reached c) : cfg.Settled c := by
  induction h with
  | built hb => exact (build_settled hb).1
  | resumed snapshot force hb hr =>
    obtain ⟨hmap, htext, hset, hcache⟩ := Snapshot.restore_ok hr
    obtain ⟨hs, -⟩ := build_settled hb
    exact ⟨hmap.trans hs.map_eq, htext.trans hs.text_eq, hs.sameSet.trans hset,
      Cpu.cacheFresh_of_none hcache⟩
  | cached _ ih => exact ⟨ih.map_eq, ih.text_eq, ih.sameSet, Cpu.cacheFresh_enableDecodeCache _⟩
  | watched regions _ ih =>
    exact ⟨ih.map_eq, ih.text_eq, ih.sameSet, ih.fresh.of_keepsText rfl (.of_eq rfl rfl rfl)⟩
  | stepped _ ih =>
    rename_i c _
    have hk := c.stepReporting_keepsText
    exact ⟨hk.1.trans ih.map_eq, hk.2.1.trans ih.text_eq, ih.sameSet.trans c.stepReporting_sameSet,
      ih.fresh.stepReporting⟩

theorem Reached.exists_build {cfg : Configuration} {c : Cpu} (h : cfg.Reached c) :
    ∃ fresh, cfg.build = .ok fresh := by
  induction h with
  | built hb => exact ⟨_, hb⟩
  | resumed _ _ hb _ => exact ⟨_, hb⟩
  | cached _ ih | watched _ _ ih | stepped _ ih => exact ih

end Configuration

/-! ## Carrying on -/

namespace Memory

/-- The memory with no recording of what was written. -/
def unwatched (m : Memory) : Memory := { m with watch := none }

theorem read_unwatched (m : Memory) (addr : Word) (width : Width) (icount : Nat) :
    m.unwatched.read addr width icount =
      ((m.read addr width icount).1, (m.read addr width icount).2.unwatched) := by
  have hmap : m.unwatched.map = m.map := rfl
  unfold read
  rw [hmap]
  cases checkAlign addr width with
  | error fault => rfl
  | ok u => rcases m.map.classify addr width with _ | ⟨_ | _ | _ | _, offset⟩ <;> rfl

theorem write_unwatched (m : Memory) (addr : Word) (width : Width) (value : Word) (icount : Nat) :
    m.unwatched.write addr width value icount =
      ((m.write addr width value icount).1, (m.write addr width value icount).2.unwatched) := by
  have hmap : m.unwatched.map = m.map := rfl
  have htext : m.unwatched.inText addr width = m.inText addr width := rfl
  have hdevices : m.unwatched.devices = m.devices := rfl
  unfold write
  rw [hmap, htext, hdevices]
  cases checkAlign addr width with
  | error fault => rfl
  | ok u =>
    rcases m.map.classify addr width with _ | ⟨_ | _ | _ | _, offset⟩ <;> dsimp only
    · split <;> rfl
    · rcases (m.devices.write offset width value icount).1 with _ | _ <;> rfl
    · split <;> rfl
    · split <;> rfl

end Memory

namespace Cpu

/-- The machine itself: no cache, and no recording of what was written. -/
def bare (c : Cpu) : Cpu := c.view Memory.unwatched

theorem bare_eq_iff {c d : Cpu} : c.bare = d.bare ↔
    c.pc = d.pc ∧ c.regs = d.regs ∧ c.icount = d.icount ∧ c.memory.map = d.memory.map ∧
      c.memory.ram = d.memory.ram ∧ c.memory.framebuffer = d.memory.framebuffer ∧
      c.memory.palette = d.memory.palette ∧ c.memory.text = d.memory.text ∧
      c.memory.devices = d.memory.devices := by
  obtain ⟨⟨map, ram, framebuffer, palette, devices, text, watch, _, _, _⟩, pc, regs, icount, cache,
    _⟩ := c
  obtain ⟨⟨map', ram', framebuffer', palette', devices', text', watch', _, _, _⟩, pc', regs', icount',
    cache', _⟩ := d
  simp only [bare, view, Memory.unwatched, Cpu.mk.injEq, Memory.mk.injEq]
  tauto

theorem stepReporting_bare {c : Cpu} (h : c.CacheFresh) :
    c.bare.stepReporting = (c.stepReporting.1, c.stepReporting.2.bare) := by
  have hfetch : c.bare.fetch = (c.fetch.1, c.fetch.2.bare) := by
    have hplain := fetch_dropCache h
    rw [fetch_of_no_cache (c := c.dropCache) rfl] at hplain
    have hread : c.bare.memory.read c.bare.pc .word c.bare.icount = _ :=
      c.memory.read_unwatched c.pc .word c.icount
    rw [fetch_of_no_cache (c := c.bare) rfl, hread]
    have hsame : c.dropCache.memory.read c.dropCache.pc .word c.dropCache.icount =
        c.memory.read c.pc .word c.icount := rfl
    rw [hsame] at hplain
    revert hplain
    rcases c.memory.read c.pc .word c.icount with ⟨fault | word, m⟩ <;> intro hplain
    · obtain ⟨h1, h2⟩ := Prod.mk.inj hplain
      exact Prod.ext h1 (congrArg bare h2)
    · obtain ⟨h1, h2⟩ := Prod.mk.inj hplain
      exact Prod.ext h1 (congrArg bare h2)
  have hout : c.bare.outsideText = c.outsideText := rfl
  have hpc : c.bare.pc = c.pc := rfl
  unfold stepReporting
  rw [hout, hfetch, hpc]
  split
  · rfl
  · rcases c.fetch with ⟨halt | ⟨word, insn⟩, d⟩
    · rfl
    · dsimp only
      have hview := execute_view Memory.read_unwatched Memory.write_unwatched d c.pc word insn
      rw [show d.bare = d.view Memory.unwatched from rfl, hview]
      rcases d.execute c.pc word insn with ⟨halt | next, d'⟩ <;> rfl

/-- The results of so many steps, and the machine they leave. -/
def steps : Nat → Cpu → List (Except Halt (Word × Instruction)) × Cpu
  | 0, c => ([], c)
  | n + 1, c =>
    let rest := steps n c.stepReporting.2
    (c.stepReporting.1 :: rest.1, rest.2)

/-- Two machines that carry on alike: the same step results and halts, the same
trace records and the same machine, however far they run. -/
structure CarriesOn (c d : Cpu) : Prop where
  steps_eq : ∀ n, (steps n c).1 = (steps n d).1 ∧ (steps n c).2.bare = (steps n d).2.bare
  trace_eq : ∀ xxh64 config budget,
    (collect xxh64 c config budget).1 = (collect xxh64 d config budget).1 ∧
    (collect xxh64 c config budget).2.1 = (collect xxh64 d config budget).2.1 ∧
    (collect xxh64 c config budget).2.2.bare = (collect xxh64 d config budget).2.2.bare

section
variable {c d : Cpu} (hc : c.CacheFresh) (hd : d.CacheFresh) (h : c.bare = d.bare)
include hc hd h

theorem stepReporting_of_bare : c.stepReporting.1 = d.stepReporting.1 ∧
    c.stepReporting.2.bare = d.stepReporting.2.bare := by
  have hbare := stepReporting_bare hc
  rw [h, stepReporting_bare hd] at hbare
  exact ⟨(Prod.mk.inj hbare).1.symm, (Prod.mk.inj hbare).2.symm⟩

theorem steps_of_bare (n : Nat) :
    (steps n c).1 = (steps n d).1 ∧ (steps n c).2.bare = (steps n d).2.bare := by
  induction n generalizing c d with
  | zero => exact ⟨rfl, h⟩
  | succ n ih =>
    obtain ⟨hresult, hnext⟩ := stepReporting_of_bare hc hd h
    obtain ⟨hrest, hlast⟩ := ih hc.stepReporting hd.stepReporting hnext
    refine ⟨?_, hlast⟩
    simp only [steps, hresult, hrest]

theorem collectLoop_of_bare (xxh64 : List Byte → BitVec 64) (config : TraceConfig) (left : Nat) :
    (collectLoop xxh64 config left c).1 = (collectLoop xxh64 config left d).1 ∧
    (collectLoop xxh64 config left c).2.1 = (collectLoop xxh64 config left d).2.1 ∧
    (collectLoop xxh64 config left c).2.2.bare = (collectLoop xxh64 config left d).2.2.bare := by
  induction left generalizing c d with
  | zero => exact ⟨rfl, rfl, h⟩
  | succ left ih =>
    obtain ⟨hresult, hnext⟩ := stepReporting_of_bare hc hd h
    have hfc := hc.stepReporting
    have hfd := hd.stepReporting
    simp only [collectLoop]
    rcases hsc : c.stepReporting with ⟨halt | p, c'⟩ <;>
      rcases hsd : d.stepReporting with ⟨halt' | p', d'⟩ <;> rw [hsc, hsd] at hresult hnext
    · obtain rfl := Except.error.inj hresult
      exact ⟨rfl, rfl, hnext⟩
    · cases hresult
    · cases hresult
    · rw [hsc] at hfc
      rw [hsd] at hfd
      dsimp only at hfc hfd hnext
      obtain ⟨hlines, hstop, hlast⟩ := ih hfc hfd hnext
      have hemit : emit xxh64 config c' = emit xxh64 config d' := by
        obtain ⟨hpc, hregs, hicount, -, hram, hfb, hpal, -, -⟩ := bare_eq_iff.mp hnext
        simp only [emit, checkpointOf, hpc, hregs, hicount, hram, hfb, hpal]
      exact ⟨by simp only [hemit, hlines], hstop, hlast⟩

theorem carriesOn_of_bare : c.CarriesOn d where
  steps_eq := steps_of_bare hc hd h
  trace_eq xxh64 config budget := by
    have hicount : c.icount = d.icount := (bare_eq_iff.mp h).2.2.1
    rw [collect, collect, hicount]
    exact collectLoop_of_bare hc hd h xxh64 config _

end
end Cpu

/-! ## When a resumed machine carries on -/

/-- A device window that a snapshot keeps whole: the registers, or an inert
window nothing has been written to. -/
def Devices.Kept : Devices → Prop
  | .registers _ => True
  | .bytes b => ∀ x ∈ b.bytes, x = 0

/-- Every byte of a window that was kept reads as zero. -/
theorem Devices.Kept.head_eq_zero {b : ByteWindow} (h : (Devices.bytes b).Kept) {x : Byte}
    (hx : b.bytes.head? = some x) : x = 0 :=
  h x (List.mem_of_mem_head? hx)

namespace Configuration

theorem carriedDevices_eq_iff {cfg : Configuration} {d : Devices} (h : cfg.freshDevices.SameSet d) :
    Snapshot.carriedDevices d cfg.freshDevices = d ↔ d.Kept := by
  cases hcfg : cfg.devices with
  | full ipms hne =>
    simp only [freshDevices, hcfg] at h ⊢
    cases d with
    | registers r => exact ⟨fun _ => trivial, fun _ => rfl⟩
    | bytes b => exact h.elim
  | none =>
    simp only [freshDevices, hcfg] at h ⊢
    cases d with
    | registers r => exact h.elim
    | bytes b =>
      have hlen : b.bytes.length = cfg.map.mmioSize.toNat := by
        rw [show b.bytes.length = _ from h]
        exact List.length_replicate
      have hwindow : Snapshot.carriedDevices (.bytes b) (.bytes (.new cfg.map.mmioSize)) =
          .bytes b ↔ b.bytes = List.replicate cfg.map.mmioSize.toNat 0 := by
        obtain ⟨store⟩ := b
        simp only [Snapshot.carriedDevices, ByteWindow.new, Devices.bytes.injEq, ByteWindow.mk.injEq]
        exact eq_comm
      rw [hwindow, List.eq_replicate_iff]
      exact ⟨fun h => h.2, fun h => ⟨hlen, h⟩⟩

section
variable {Manifest : Type} {text : Snapshot.HeaderText Manifest} {sha256Hex : List Byte → String}
  {cfg : Configuration} {c : Cpu} {generator : String} {provenance : Snapshot.Provenance Manifest}
  {stop : Option String} {file : List Byte}

/-- A written snapshot of a machine resumes, as the machine it was taken from
but for its device window. -/
theorem resume_of_write (hc : cfg.Reached c)
    (hw : (Snapshot.machineSnapshot generator c provenance stop).write text sha256Hex = .ok file)
    (ht : text.RoundTrips ((Snapshot.machineSnapshot generator c provenance stop).written sha256Hex))
    (force : Bool) :
    ∃ d, cfg.resume text sha256Hex file force = .ok d ∧ d.CacheFresh ∧
      (d.bare = c.bare ↔ c.memory.devices.Kept) := by
  obtain ⟨fresh, hb⟩ := hc.exists_build
  obtain ⟨hs, hdev⟩ := build_settled hb
  have hcs := hc.settled
  have hread := Snapshot.read_of_write text sha256Hex ["ram", "framebuffer", "palette"] hw
    ht (by simp [Snapshot.sectionNamed, Snapshot.machineSnapshot])
  have hset : fresh.memory.devices.SameSet c.memory.devices := hdev ▸ hcs.sameSet
  obtain ⟨d, hd, hpc, hregs, hicount, hram, hfb, hpal, hdd⟩ :=
    Snapshot.restore_captured generator provenance stop
      (Snapshot.layout sha256Hex Snapshot.bodyOffset
        (Snapshot.machineSnapshot generator c provenance stop).sections)
      force (hcs.map_eq.trans hs.map_eq.symm) (hcs.text_eq.trans hs.text_eq.symm) hset
  obtain ⟨hmap, htext, -, -⟩ := Snapshot.restore_ok hd
  refine ⟨d.enableDecodeCache.2, ?_, d.cacheFresh_enableDecodeCache, ?_⟩
  · change Snapshot.restore fresh
      ⟨(Snapshot.machineSnapshot generator c provenance stop).written sha256Hex, _⟩ force = _ at hd
    simp only [resume, hb, hread, hd]
  · rw [Cpu.bare_eq_iff]
    have hmap' : d.memory.map = c.memory.map := hmap.trans (hs.map_eq.trans hcs.map_eq.symm)
    have htext' : d.memory.text = c.memory.text := htext.trans (hs.text_eq.trans hcs.text_eq.symm)
    have hwindow : d.memory.devices = c.memory.devices ↔ c.memory.devices.Kept := by
      rw [hdd, hdev]
      exact carriedDevices_eq_iff hcs.sameSet
    constructor
    · rintro ⟨-, -, -, -, -, -, -, -, h⟩
      exact hwindow.mp h
    · intro h
      exact ⟨hpc, hregs, hicount, hmap', hram, hfb, hpal, htext', hwindow.mpr h⟩

/-- **When a resumed machine carries on.**  A written snapshot of a machine at
any point of its run, put into a machine built the same way, carries on as the
original would, exactly when the device window is the registers or is blank. -/
theorem resume_carriesOn_iff (hc : cfg.Reached c)
    (hw : (Snapshot.machineSnapshot generator c provenance stop).write text sha256Hex = .ok file)
    (ht : text.RoundTrips ((Snapshot.machineSnapshot generator c provenance stop).written sha256Hex))
    (force : Bool) :
    (∃ d, cfg.resume text sha256Hex file force = .ok d ∧ d.CarriesOn c) ↔
      c.memory.devices.Kept := by
  obtain ⟨d, hd, hfresh, hbare⟩ := resume_of_write hc hw ht force
  constructor
  · rintro ⟨d', hd', hcarries⟩
    obtain rfl := Except.ok.inj (hd.symm.trans hd')
    exact hbare.mp (hcarries.steps_eq 0).2
  · intro hkept
    exact ⟨d, hd, Cpu.carriesOn_of_bare hfresh hc.settled.fresh (hbare.mpr hkept)⟩

end

/-! ## A machine that stores into its device window

Four instructions: `lui x1, 0x10000`, `addi x2, x0, 1`, `sw x2, 0(x1)` and
`lw x3, 0(x1)`, captured before the last. -/

namespace Storing

def config (devices : DeviceSet) : Configuration where
  ramSize := 16
  devices := devices
  image :=
    { entry := ClickDoom.ramBase
      segments := [⟨ClickDoom.ramBase,
        [0x100000b7#32, 0x00100113#32, 0x0020a023#32, 0x0000a183#32].flatMap (bytes · 4), 16⟩] }
  entry := none
  text := some (ClickDoom.ramBase, ClickDoom.ramBase + 16)

def fresh (devices : DeviceSet) : Cpu :=
  match (config devices).build with
  | .ok c => c
  | .error _ => Cpu.program [] 0

/-- The machine after its store. -/
def machine (devices : DeviceSet) : Cpu := (fresh devices).step.2.step.2.step.2

theorem reached {devices : DeviceSet} (h : (config devices).build.toBool = true) :
    (config devices).Reached (machine devices) := by
  have hbuild : (config devices).build = .ok (fresh devices) := by
    unfold fresh
    cases hb : (config devices).build with
    | ok c => rfl
    | error e =>
      rw [hb] at h
      cases h
  exact .stepped (.stepped (.stepped (.built hbuild)))

/-- The hashes of this machine's sections, which have four different lengths. -/
def sha256Hex (data : List Byte) : String :=
  if data.length = 16 then "9d2f992196d99de0af634ae4141b3e070edd26a392bccf618eaee98e8cdf7220"
  else if data.length = 64000 then
    "4f7988030a00d082fe445e00a2ac5dab502300ff1b80e8592dd569867b60ef74"
  else if data.length = 768 then
    "ef115a0e0c15cdc41958ca46b5b14b456115f4baec5e3ca68599d2a8f435e3b8"
  else "e3b0c44298fc1c149afbf4c8996fb92427ae41e4649b934ca495991b7852b855"

def saved (devices : DeviceSet) : Snapshot Unit :=
  Snapshot.machineSnapshot "refemu 0.1.0" (machine devices) ⟨none, false, none⟩ none

/-- One entry of the header's list of sections. -/
def sectionJson (name offset length sha256 : String) : String :=
  "\x7b\"name\":\"" ++ name ++ "\",\"offset\":" ++ offset ++ ",\"length\":" ++ length ++
    ",\"sha256\":\"" ++ sha256 ++ "\"\x7d"

/-- The header of the machine's snapshot, as one line. -/
def headerJson (ipms : String) : String :=
  "\x7b\"format_version\":3,\"kind\":\"machine\",\"generator\":\"refemu 0.1.0\"," ++
  "\"created_from\":\x7b\"rom_sha256\":null,\"pinned\":false,\"rom_manifest\":null\x7d," ++
  "\"icount\":3,\"stop_condition\":null,\"pc\":2147483660," ++
  "\"regs\":[0,268435456,1,0,0,0,0,0,0,0,0,0,0,0,0,0,0,0,0,0,0,0,0,0,0,0,0,0,0,0,0,0]," ++
  "\"ram_base\":2147483648,\"ram_size\":16,\"ipms\":" ++ ipms ++
  ",\"text_start\":2147483648,\"text_end\":2147483664,\"frame_commit_count\":0," ++
  "\"last_frame_commit\":null,\"frame\":null,\"fbhash\":null,\"sections\":[" ++
  sectionJson "ram" "4096" "16"
    "9d2f992196d99de0af634ae4141b3e070edd26a392bccf618eaee98e8cdf7220" ++ "," ++
  sectionJson "framebuffer" "4112" "64000"
    "4f7988030a00d082fe445e00a2ac5dab502300ff1b80e8592dd569867b60ef74" ++ "," ++
  sectionJson "palette" "68112" "768"
    "ef115a0e0c15cdc41958ca46b5b14b456115f4baec5e3ca68599d2a8f435e3b8" ++ "," ++
  sectionJson "console" "68880" "0"
    "e3b0c44298fc1c149afbf4c8996fb92427ae41e4649b934ca495991b7852b855" ++ "," ++
  sectionJson "keyq" "68880" "0"
    "e3b0c44298fc1c149afbf4c8996fb92427ae41e4649b934ca495991b7852b855" ++ "," ++
  sectionJson "frame_commits" "68880" "0"
    "e3b0c44298fc1c149afbf4c8996fb92427ae41e4649b934ca495991b7852b855" ++ "]\x7d"

def headerText (devices : DeviceSet) (ipms : String) : Snapshot.HeaderText Unit where
  toString _ := utf8 (headerJson ipms)
  fromSlice _ := some ((saved devices).written sha256Hex)

theorem toString_headerText (devices : DeviceSet) (ipms : String) (header : Snapshot.Header Unit) :
    (headerText devices ipms).toString header = utf8 (headerJson ipms) := by
  rw [headerText]

theorem fromSlice_headerText (devices : DeviceSet) (ipms : String) (line : List Byte) :
    (headerText devices ipms).fromSlice line = some ((saved devices).written sha256Hex) := by
  rw [headerText]

theorem roundTrips (devices : DeviceSet) (ipms : String)
    (h : Snapshot.newline ∉ utf8 (headerJson ipms)) :
    (headerText devices ipms).RoundTrips ((saved devices).written sha256Hex) := by
  rw [Snapshot.HeaderText.RoundTrips, toString_headerText, fromSlice_headerText]
  exact ⟨h, rfl⟩

theorem write_eq (devices : DeviceSet) (ipms : String)
    (h : (Snapshot.magic ++ utf8 (headerJson ipms) ++ [Snapshot.newline]).length ≤
      Snapshot.bodyOffset) :
    (saved devices).write (headerText devices ipms) sha256Hex =
      .ok ((saved devices).fileBytes (headerText devices ipms) sha256Hex) := by
  apply Snapshot.write_of_fits
  rw [Snapshot.head, toString_headerText]
  exact h

/-- The first byte of an inert window. -/
def firstByte : Devices → Option Byte
  | .bytes b => b.bytes.head?
  | .registers _ => none

theorem not_kept : ¬(machine .none).memory.devices.Kept := by
  have hone : firstByte (machine .none).memory.devices = some 1 := by decide +kernel
  intro hkept
  generalize (machine .none).memory.devices = d at hone hkept
  cases d with
  | registers r => cases hone
  | bytes b => exact absurd (hkept.head_eq_zero hone) (by decide)

/-- **The inert window is forgotten.**  The machine stored a one into its window;
the resumed machine reads zero there. -/
theorem resume_forgets_inert_window :
    (saved .none).write (headerText .none "null") sha256Hex =
      .ok ((saved .none).fileBytes (headerText .none "null") sha256Hex) ∧
    ¬∃ d, (config .none).resume (headerText .none "null") sha256Hex
        ((saved .none).fileBytes (headerText .none "null") sha256Hex) false = .ok d ∧
      d.CarriesOn (machine .none) := by
  have hw := write_eq .none "null" (by decide +kernel)
  have ht := roundTrips .none "null" (by decide +kernel)
  refine ⟨hw, ?_⟩
  rintro ⟨d, hd, hcarries⟩
  obtain ⟨d', hd', -, hbare⟩ := resume_of_write (reached (by decide +kernel)) hw ht false
  obtain rfl := Except.ok.inj (hd.symm.trans hd')
  exact not_kept (hbare.mp (hcarries.steps_eq 0).2)

/-- The configuration with the registers in the window. -/
def registers : DeviceSet := .full ipmsDefault ipmsDefault_ne_zero

theorem kept_registers : (machine registers).memory.devices.Kept := by
  have hset := (@reached registers (by decide +kernel)).settled.sameSet
  generalize (machine registers).memory.devices = d at hset ⊢
  cases d with
  | registers r => exact trivial
  | bytes b => exact hset.elim

/-- With the registers in the window the same program carries on. -/
theorem resume_carriesOn_registers :
    ∃ d, (config registers).resume (headerText registers "10000") sha256Hex
      ((saved registers).fileBytes (headerText registers "10000") sha256Hex) false =
      .ok d ∧ d.CarriesOn (machine registers) := by
  have hw := write_eq registers "10000" (by decide +kernel)
  have ht := roundTrips registers "10000" (by decide +kernel)
  exact (resume_carriesOn_iff (reached (by decide +kernel)) hw ht false).mpr kept_registers

end Storing
end Configuration
end ClickDoom
