import ClickDoom.Refemu.Resume

/-! # What a container may hold

`Snapshot.read` on any bytes.  The sections it returns are the slices the directory
names.  The end of a section is a sum of two 64-bit numbers out of the file, which a
build with checked arithmetic does not survive when it overflows; a build without
them wraps, and finds no slice there.
-/
namespace ClickDoom
namespace Snapshot

variable {Manifest : Type} (text : HeaderText Manifest) (sha256Hex : List Byte → String)

/-! ## Reading with checked sums -/

/-- The end of a section fits an address. -/
def SectionInfo.Fits (info : SectionInfo) : Prop := info.offset + info.length < 2 ^ 64

instance (info : SectionInfo) : Decidable info.Fits :=
  inferInstanceAs (Decidable (info.offset + info.length < 2 ^ 64))

/-- `readSections`, with nothing where a sum overflows. -/
def readSectionsChecked (file : List Byte) :
    List SectionInfo → Option (Except Error (List (String × List Byte)))
  | [] => some (.ok [])
  | info :: rest =>
    if info.Fits then
      match readSection sha256Hex file info with
      | .error e => some (.error e)
      | .ok pair => (readSectionsChecked file rest).map fun pairs => pairs.map (pair :: ·)
    else none

/-- The header a file carries. -/
def parsedHeader (file : List Byte) : Option (Header Manifest) :=
  if file.take magic.length = magic ∧ newline ∈ file.drop magic.length then
    text.fromSlice ((file.drop magic.length).takeWhile (· ≠ newline))
  else none

/-- `read`, with nothing where a sum overflows. -/
def readChecked (file : List Byte) (needed : List String) :
    Option (Except Error (Snapshot Manifest)) :=
  match parsedHeader text file with
  | none => some (read text sha256Hex file needed)
  | some header =>
    (readSectionsChecked sha256Hex file header.sections).map fun _ => read text sha256Hex file needed

/-! ## The slices of a directory -/

/-- The slice an entry names. -/
def SectionInfo.slice (info : SectionInfo) (file : List Byte) : String × List Byte :=
  (info.name, (file.drop info.offset).take info.length)

/-- An entry that reads: inside the file, with its own hash. -/
def SectionInfo.Readable (info : SectionInfo) (file : List Byte) : Prop :=
  info.offset + info.length ≤ file.length ∧ sha256Hex (info.slice file).2 = info.sha256

/-- The sections are what the directory describes. -/
structure Describes (s : Snapshot Manifest) (file : List Byte) : Prop where
  sections : s.sections = s.header.sections.map (·.slice file)
  readable : ∀ info ∈ s.header.sections, info.Readable sha256Hex file

/-- No entry's end overflows, up to the first entry that does not read. -/
def DirectoryFits (file : List Byte) : Prop :=
  ∀ header, parsedHeader text file = some header →
    ∀ before info after, header.sections = before ++ info :: after →
      (∀ i ∈ before, i.Readable sha256Hex file) → info.Fits

section
variable {sha256Hex}

theorem readSection_ok_iff {file : List Byte} {info : SectionInfo} {pair : String × List Byte} :
    readSection sha256Hex file info = .ok pair ↔
      info.Readable sha256Hex file ∧ pair = info.slice file := by
  rw [readSection, SectionInfo.Readable]
  by_cases hin : info.offset + info.length ≤ file.length
  · rw [if_pos hin]
    by_cases hsum : sha256Hex ((file.drop info.offset).take info.length) = info.sha256
    · have hsum' : sha256Hex (info.slice file).2 = info.sha256 := hsum
      simp only [hsum, hin, hsum', ne_eq, not_true_eq_false, if_false, true_and]
      exact ⟨fun h => (Except.ok.inj h).symm, fun h => by rw [h]; rfl⟩
    · have hsum' : ¬sha256Hex (info.slice file).2 = info.sha256 := hsum
      simp only [hsum, hsum', ne_eq, not_false_eq_true, if_true, and_false, false_and]
      simp
  · rw [if_neg hin]
    simp [hin]

theorem readSections_ok {file : List Byte} {infos : List SectionInfo}
    {sections : List (String × List Byte)} (h : readSections sha256Hex file infos = .ok sections) :
    sections = infos.map (·.slice file) ∧ ∀ info ∈ infos, info.Readable sha256Hex file := by
  induction infos generalizing sections with
  | nil =>
    cases h
    exact ⟨rfl, fun _ hmem => absurd hmem List.not_mem_nil⟩
  | cons info infos ih =>
    rw [readSections] at h
    split at h
    · cases h
    · rename_i pair hpair
      split at h
      · cases h
      · rename_i rest hrest
        cases h
        obtain ⟨hreadable, rfl⟩ := readSection_ok_iff.mp hpair
        obtain ⟨rfl, hall⟩ := ih hrest
        exact ⟨rfl, List.forall_mem_cons.mpr ⟨hreadable, hall⟩⟩

end

/-- A file that reads has a header, whose directory was read. -/
theorem of_read {file : List Byte} {needed : List String} {s : Snapshot Manifest}
    (h : read text sha256Hex file needed = .ok s) :
    parsedHeader text file = some s.header ∧
      readSections sha256Hex file s.header.sections = .ok s.sections := by
  rw [read] at h
  split at h
  · split at h
    · split at h <;> cases h
    · cases h
  · rename_i hmagic
    dsimp only at h
    split at h
    · cases h
    · rename_i hline
      split at h
      · cases h
      · rename_i header hheader
        split at h
        · cases h
        · rename_i sections hsections
          split at h
          · cases h
          · cases h
            refine ⟨?_, hsections⟩
            rw [parsedHeader, if_pos ⟨not_not.mp hmagic, not_not.mp hline⟩]
            exact hheader

/-- Whatever the bytes, what is read is what the directory describes. -/
theorem describes_of_read {file : List Byte} {needed : List String} {s : Snapshot Manifest}
    (h : read text sha256Hex file needed = .ok s) : s.Describes sha256Hex file := by
  obtain ⟨hslices, hreadable⟩ := readSections_ok (of_read text sha256Hex h).2
  exact ⟨hslices, hreadable⟩

/-! ## Where a sum overflows -/

section
variable {sha256Hex}

theorem readSectionsChecked_isSome_iff {file : List Byte} {infos : List SectionInfo} :
    (readSectionsChecked sha256Hex file infos).isSome ↔
      ∀ before info after, infos = before ++ info :: after →
        (∀ i ∈ before, i.Readable sha256Hex file) → info.Fits := by
  induction infos with
  | nil =>
    refine iff_of_true rfl fun before info after h => ?_
    simp at h
  | cons first infos ih =>
    rw [readSectionsChecked]
    by_cases hfits : first.Fits
    · rw [if_pos hfits]
      cases hread : readSection sha256Hex file first with
      | error e =>
        refine iff_of_true rfl fun before info after h hbefore => ?_
        cases before with
        | nil =>
          obtain ⟨rfl, -⟩ := List.cons.inj h
          exact hfits
        | cons i before =>
          obtain ⟨rfl, -⟩ := List.cons.inj h
          have hok := readSection_ok_iff.mpr ⟨hbefore _ List.mem_cons_self, rfl⟩
          rw [hread] at hok
          cases hok
      | ok pair =>
        have hreadable := (readSection_ok_iff.mp hread).1
        rw [Option.isSome_map, ih]
        constructor
        · intro h before info after heq hbefore
          cases before with
          | nil =>
            obtain ⟨rfl, -⟩ := List.cons.inj heq
            exact hfits
          | cons i before =>
            obtain ⟨-, heq⟩ := List.cons.inj heq
            exact h before info after heq fun j hj => hbefore j (List.mem_cons_of_mem _ hj)
        · intro h before info after heq hbefore
          refine h (first :: before) info after (by rw [heq]; rfl) ?_
          exact List.forall_mem_cons.mpr ⟨hreadable, hbefore⟩
    · rw [if_neg hfits]
      refine iff_of_false (by simp) fun h => hfits ?_
      exact h [] first infos rfl fun _ hmem => absurd hmem List.not_mem_nil

end

/-- The reader survives the bytes, with an error or with what the directory
describes. -/
def Survives (file : List Byte) (needed : List String) : Prop :=
  ∃ r, readChecked text sha256Hex file needed = some r ∧
    ∀ s, r = .ok s → s.Describes sha256Hex file

/-- A directory that fits is read as without the checks, and one that does not is not. -/
theorem readChecked_eq (file : List Byte) (needed : List String) :
    (DirectoryFits text sha256Hex file →
        readChecked text sha256Hex file needed = some (read text sha256Hex file needed)) ∧
      ((readChecked text sha256Hex file needed).isSome → DirectoryFits text sha256Hex file) := by
  rw [DirectoryFits, readChecked]
  cases hheader : parsedHeader text file with
  | none =>
    refine ⟨fun _ => rfl, fun _ header h => ?_⟩
    cases h
  | some header =>
    have hsome := @readSectionsChecked_isSome_iff sha256Hex file header.sections
    constructor
    · intro h
      obtain ⟨sections, hsections⟩ := Option.isSome_iff_exists.mp (hsome.mpr (h header rfl))
      simp only [hsections, Option.map_some]
    · intro h header' heq
      obtain rfl := Option.some.inj heq
      simp only [Option.isSome_map] at h
      exact hsome.mp h

theorem survives_iff (file : List Byte) (needed : List String) :
    Survives text sha256Hex file needed ↔ DirectoryFits text sha256Hex file := by
  obtain ⟨heq, hfits⟩ := readChecked_eq text sha256Hex file needed
  constructor
  · rintro ⟨r, hr, -⟩
    exact hfits (by rw [hr]; rfl)
  · exact fun h => ⟨_, heq h, fun s => describes_of_read text sha256Hex⟩

/-- A container that was written reads back with its header's fields and its sections;
and whatever the bytes, the reader survives them exactly when no end of a section that it
gets to overflows. -/
theorem container_iff :
    (∀ (s : Snapshot Manifest) (file : List Byte) (needed : List String),
        s.write text sha256Hex = .ok file → file.length < 2 ^ 64 →
        text.RoundTrips (s.written sha256Hex) →
        (∀ name ∈ needed, (s.sectionNamed name).isSome = true) →
        readChecked text sha256Hex file needed =
          some (.ok ⟨{ s.header with sections := layout sha256Hex bodyOffset s.sections },
            s.sections⟩)) ∧
      ∀ (file : List Byte) (needed : List String),
        Survives text sha256Hex file needed ↔ DirectoryFits text sha256Hex file := by
  refine ⟨?_, survives_iff text sha256Hex⟩
  intro s file needed hwrite hlength hround hneeded
  have hread := read_of_write text sha256Hex needed hwrite hround hneeded
  have hdescribes := describes_of_read text sha256Hex hread
  have hfits : DirectoryFits text sha256Hex file := by
    intro header hheader before info after heq _
    rw [(of_read text sha256Hex hread).1] at hheader
    obtain rfl := Option.some.inj hheader
    have hmem : info ∈ (s.written sha256Hex).sections := by
      rw [heq]
      exact List.mem_append_right _ List.mem_cons_self
    exact Nat.lt_of_le_of_lt (hdescribes.readable info hmem).1 hlength
  rw [(readChecked_eq text sha256Hex file needed).1 hfits, hread]
  rfl

/-! ### A section that ends past every address -/

/-- A header with one section, of one byte at the last address. -/
def overflowing : Header Unit where
  formatVersion := 3
  kind := .frame
  generator := ""
  createdFrom := ⟨none, false, none⟩
  icount := 0
  stopCondition := none
  pc := none
  regs := none
  ramBase := none
  ramSize := none
  ipms := none
  textStart := none
  textEnd := none
  frameCommitCount := 0
  lastFrameCommit := none
  frame := none
  fbhash := none
  sections := [⟨"framebuffer", 18446744073709551615, 1, ""⟩]

/-- The header as one line. -/
def overflowingJson : String :=
  "\x7b\"format_version\":3,\"kind\":\"frame\",\"generator\":\"\"," ++
  "\"created_from\":\x7b\"rom_sha256\":null,\"pinned\":false,\"rom_manifest\":null\x7d," ++
  "\"icount\":0,\"stop_condition\":null,\"pc\":null,\"regs\":null,\"ram_base\":null," ++
  "\"ram_size\":null,\"ipms\":null,\"text_start\":null,\"text_end\":null," ++
  "\"frame_commit_count\":0,\"last_frame_commit\":null,\"frame\":null,\"fbhash\":null," ++
  "\"sections\":[\x7b\"name\":\"framebuffer\",\"offset\":18446744073709551615,\"length\":1," ++
  "\"sha256\":\"\"\x7d]\x7d"

def overflowingText : HeaderText Unit where
  toString _ := utf8 overflowingJson
  fromSlice line := if line = utf8 overflowingJson then some overflowing else none

def overflowingFile : List Byte := magic ++ utf8 overflowingJson ++ [newline]

/-- The end of that section is not a 64-bit number, and the reader computes it. -/
theorem reader_overflows :
    readChecked overflowingText (fun _ => "") overflowingFile [] = none := by
  have hline : newline ∉ utf8 overflowingJson := by decide +kernel
  have hhead : (utf8 overflowingJson ++ [newline]).takeWhile (· ≠ newline) = utf8 overflowingJson := by
    rw [List.takeWhile_append_of_pos]
    · simp
    · intro b hb
      exact decide_eq_true fun h => hline (h ▸ hb)
  have hheader : parsedHeader overflowingText overflowingFile = some overflowing := by
    rw [parsedHeader, overflowingFile, List.append_assoc, List.take_left, List.drop_left, hhead,
      if_pos ⟨rfl, List.mem_append_right _ List.mem_cons_self⟩]
    simp only [overflowingText, if_true]
  rw [readChecked, hheader]
  rfl

end Snapshot
end ClickDoom
