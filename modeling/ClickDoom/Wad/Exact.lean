import ClickDoom.Wad.Parse

/-! # A WAD is read exactly

`parse` never panics; what it accepts is what the directory says, each lump with the marker it
belongs to; and a list of lumps written anywhere in a file is read back.
-/
namespace ClickDoom.Lumps
open LittleEndian

/-! ## Lumps written to a file -/

/-- A number as the file has it. -/
def le32 (n : Nat) : List Byte := bytes (BitVec.ofNat 32 n) 4

/-- The entry of a lump whose body starts at `start`. -/
def entryOf (start : Nat) (lump : List Byte × List Byte) : List Byte :=
  le32 start ++ (le32 lump.2.length ++ (lump.1 ++ List.replicate (8 - lump.1.length) 0))

/-- A name the field holds. -/
structure ValidName (name : List Byte) : Prop where
  ne_nil : name ≠ []
  short : name.length ≤ 8
  graphic : ∀ b ∈ name, isAsciiGraphic b

/-- Named lumps in a file: the directory at `offset`, and every body somewhere. -/
structure LaidOut (bytes : List Byte) (kind : WadKind) (lumps : List (List Byte × List Byte))
    (offset : Nat) : Prop where
  header : bytes.take 12 = kind.magic ++ (le32 lumps.length ++ le32 offset)
  few : lumps.length < 2 ^ 31
  low : offset < 2 ^ 31
  inside : offset + 16 * lumps.length ≤ bytes.length
  names : ∀ lump ∈ lumps, ValidName lump.1
  bodies : ∀ i lump, lumps[i]? = some lump → ∃ start, start < 2 ^ 31 ∧ lump.2.length < 2 ^ 31 ∧
    start + lump.2.length ≤ bytes.length ∧ (bytes.drop start).take lump.2.length = lump.2 ∧
    (bytes.drop (offset + 16 * i)).take 16 = entryOf start lump

theorem length_le32 (n : Nat) : (le32 n).length = 4 := length_bytes _ 4

theorem readI32_le32 {n : Nat} (small : n < 2 ^ 31) : readI32 (le32 n) = n := by
  have same : (BitVec.ofNat 32 n).toNat = n := by
    rw [BitVec.toNat_ofNat]
    exact Nat.mod_eq_of_lt (by omega)
  rw [readI32, le32, value_bytes _ (by decide), BitVec.toInt_eq_toNat_of_lt (by omega), same]

theorem entryStart_entryOf {start : Nat} (low : start < 2 ^ 31) (lump : List Byte × List Byte) :
    entryStart (entryOf start lump) = start := by
  rw [entryStart, entryOf, List.take_left' (length_le32 start), readI32_le32 low]

theorem entrySize_entryOf (start : Nat) {lump : List Byte × List Byte}
    (small : lump.2.length < 2 ^ 31) : entrySize (entryOf start lump) = lump.2.length := by
  rw [entrySize, entryOf, List.drop_left' (length_le32 start), List.take_left' (length_le32 _),
    readI32_le32 small]

theorem drop_entryOf (start : Nat) (lump : List Byte × List Byte) :
    (entryOf start lump).drop 8 = lump.1 ++ List.replicate (8 - lump.1.length) 0 := by
  rw [entryOf, ← List.append_assoc]
  apply List.drop_left'
  rw [List.length_append, length_le32, length_le32]

theorem entryName_entryOf (start : Nat) {lump : List Byte × List Byte} (valid : ValidName lump.1) :
    entryName (entryOf start lump) = lump.1 := by
  have graphic : ∀ b ∈ lump.1, b ≠ 0 := by
    rintro b mem rfl
    cases valid.graphic 0 mem
  rw [entryName, drop_entryOf, List.takeWhile_append_of_pos (by simpa using graphic)]
  cases 8 - lump.1.length <;> simp [List.replicate_succ]

theorem wellFormed_entryOf {bytes : List Byte} {start : Nat} {lump : List Byte × List Byte}
    (valid : ValidName lump.1) (low : start < 2 ^ 31) (small : lump.2.length < 2 ^ 31)
    (inside : start + lump.2.length ≤ bytes.length) : WellFormed bytes (entryOf start lump) where
  named := by
    rw [entryName_entryOf start valid]
    exact valid.ne_nil
  graphic := by
    rw [entryName_entryOf start valid]
    exact valid.graphic
  padded := by
    rw [entryName_entryOf start valid, drop_entryOf, List.drop_left' rfl]
    exact fun b mem => List.eq_of_mem_replicate mem
  start := by
    rw [entryStart_entryOf low]
    exact Int.natCast_nonneg start
  size := by
    rw [entrySize_entryOf start small]
    exact Int.natCast_nonneg _
  inside := by
    rw [entryStart_entryOf low, entrySize_entryOf start small]
    exact inside

theorem length_magic (kind : WadKind) : kind.magic.length = 4 := by cases kind <;> rfl

/-- The header of a file with lumps laid out in it. -/
theorem LaidOut.fields {bytes : List Byte} {kind : WadKind} {lumps : List (List Byte × List Byte)}
    {offset : Nat} (laid : LaidOut bytes kind lumps offset) :
    12 ≤ bytes.length ∧ bytes.take 4 = kind.magic ∧
      readI32 ((bytes.drop 4).take 4) = lumps.length ∧ readI32 ((bytes.drop 8).take 4) = offset := by
  have lengths := congrArg List.length laid.header
  rw [List.length_take, List.length_append, List.length_append, length_magic, length_le32,
    length_le32] at lengths
  have first : bytes.take 4 = (bytes.take 12).take 4 := by rw [List.take_take]; rfl
  have second : (bytes.drop 4).take 4 = ((bytes.take 12).drop 4).take 4 := by
    rw [List.drop_take, List.take_take]
    rfl
  have third : (bytes.drop 8).take 4 = (((bytes.take 12).drop 4).drop 4).take 4 := by
    rw [List.drop_drop, List.drop_take, List.take_take]
    rfl
  rw [first, second, third, laid.header, List.take_left' (length_magic kind),
    List.drop_left' (length_magic kind), List.take_left' (length_le32 _),
    List.drop_left' (length_le32 _), List.take_of_length_le (Nat.le_of_eq (length_le32 _)),
    readI32_le32 laid.few, readI32_le32 laid.low]
  exact ⟨by omega, rfl, rfl, rfl⟩

/-- Lumps laid out in a file have a directory, and its entries say what they are. -/
theorem LaidOut.directory {bytes : List Byte} {kind : WadKind}
    {lumps : List (List Byte × List Byte)} {offset : Nat} (laid : LaidOut bytes kind lumps offset) :
    ∃ entries, Directory bytes kind entries ∧ (∀ entry ∈ entries, WellFormed bytes entry) ∧
      entries.map (fun entry => (entryName entry, entryBody bytes entry)) = lumps := by
  obtain ⟨long, magic, count, place⟩ := laid.fields
  refine ⟨(List.range lumps.length).map fun i => (bytes.drop (offset + 16 * i)).take 16,
    ⟨long, magic, lumps.length, offset, count, place, laid.inside, rfl⟩, ?_, ?_⟩
  · intro entry mem
    obtain ⟨i, small, rfl⟩ := List.mem_map.1 mem
    have small := List.mem_range.1 small
    obtain ⟨start, low, short, inside, -, here⟩ :=
      laid.bodies i lumps[i] (List.getElem?_eq_getElem small)
    rw [here]
    exact wellFormed_entryOf (laid.names _ (List.getElem_mem small)) low short inside
  · apply List.ext_getElem
    · rw [List.length_map, List.length_map, List.length_range]
    · intro i _ small
      obtain ⟨start, low, short, inside, body, here⟩ :=
        laid.bodies i lumps[i] (List.getElem?_eq_getElem small)
      have named := entryName_entryOf start (laid.names _ (List.getElem_mem small))
      rw [List.getElem_map, List.getElem_map, List.getElem_range, here, named, entryBody,
        entryStart_entryOf low, entrySize_entryOf start short, Int.toNat_natCast, Int.toNat_natCast,
        body]

/-! ## The lumps of a file -/

/-- The names of the lumps up to one of them. -/
def Wad.namesTo (wad : Wad) (i : Nat) : List (List Byte) := (wad.lumps.take (i + 1)).map Lump.name

/-- What is read of a file: a lump for each entry, with the slice and the name the entry has and the
marker it belongs to, and for a map the lumps that belong to its marker. -/
structure ReadsExactly (bytes : List Byte) (wad : Wad) : Prop where
  entries : ∃ entries, Directory bytes wad.kind entries ∧
    (∀ entry ∈ entries, WellFormed bytes entry) ∧ wad.lumps.length = entries.length ∧
    ∀ i entry (lump : Lump), entries[i]? = some entry → wad.lumps[i]? = some lump →
      lump.index = i ∧ lump.name = entryName entry ∧ lump.bytes = entryBody bytes entry
  markers : ∀ i (lump : Lump), wad.lumps[i]? = some lump → Carried (wad.namesTo i) lump.mapMarker
  map_sublist : ∀ marker, (wad.map marker).Sublist wad.lumps
  mem_map : ∀ marker, marker ≠ [] → ∀ i lump, wad.lumps[i]? = some lump →
    (lump ∈ wad.map marker ↔ OwnedBy (wad.namesTo i) marker)

theorem Listed.map_name {bytes : List Byte} {names entries : List (List Byte)} {lumps : List Lump}
    (listed : Listed bytes names entries lumps) : lumps.map Lump.name = entries.map entryName := by
  induction listed with
  | nil => rfl
  | cons _ _ _ _ ih => rw [List.map_cons, List.map_cons, ih]

theorem Listed.map_pair {bytes : List Byte} {names entries : List (List Byte)} {lumps : List Lump}
    (listed : Listed bytes names entries lumps) :
    lumps.map (fun lump => (lump.name, lump.bytes)) =
      entries.map fun entry => (entryName entry, entryBody bytes entry) := by
  induction listed with
  | nil => rfl
  | cons _ _ _ _ ih => rw [List.map_cons, List.map_cons, ih]

theorem readsExactly {bytes : List Byte} {kind : WadKind} {entries : List (List Byte)}
    {lumps : List Lump} (directory : Directory bytes kind entries)
    (listed : Listed bytes [] entries lumps) : ReadsExactly bytes ⟨kind, lumps⟩ := by
  have names : ∀ i, (entries.take (i + 1)).map entryName = (⟨kind, lumps⟩ : Wad).namesTo i := by
    intro i
    rw [Wad.namesTo, List.map_take, List.map_take, listed.map_name]
  have markers : ∀ i lump, lumps[i]? = some lump →
      Carried ((⟨kind, lumps⟩ : Wad).namesTo i) lump.mapMarker := by
    intro i lump there
    have small : i < entries.length := by
      rw [← listed.length]
      exact (List.getElem?_eq_some_iff.1 there).1
    have here := listed.entry (List.getElem?_eq_getElem small) there
    rw [← names i]
    exact here.marker
  refine ⟨⟨entries, directory, listed.wellFormed, listed.length, fun i entry lump here there => ?_⟩,
    markers, fun marker => List.filter_sublist, fun marker ne i lump there => ?_⟩
  · have found := listed.entry here there
    exact ⟨by simpa using found.index, found.name, found.bytes⟩
  · rw [markers i lump there marker, Wad.map, List.mem_filter, decide_eq_true_eq]
    constructor
    · rintro ⟨-, rfl⟩
      exact ⟨rfl, ne⟩
    · rintro ⟨rfl, -⟩
      exact ⟨List.mem_of_getElem? there, rfl⟩

theorem safe_parse (bytes : List Byte) : Panics.Safe (parse bytes) := by
  by_cases header : ∃ kind entries, Directory bytes kind entries
  case neg =>
    obtain ⟨e, ends, -⟩ := parse_no_directory header
    rw [ends]
    exact Panics.safe_fail e
  obtain ⟨kind, entries, directory⟩ := header
  rcases parse_cases directory with ⟨_, _, ends⟩ | ⟨_, _, _, _, _, _, _, _, ends⟩ |
    ⟨_, _, _, _, _, _, _, _, _, ends⟩
  all_goals
    rw [ends]
    exact nofun

theorem readsExactly_of_ok {bytes : List Byte} {wad : Wad} (ok : parse bytes = .ok wad) :
    ReadsExactly bytes wad := by
  by_cases header : ∃ kind entries, Directory bytes kind entries
  case neg =>
    obtain ⟨e, ends, -⟩ := parse_no_directory header
    rw [ends] at ok
    cases ok
  obtain ⟨kind, entries, directory⟩ := header
  rcases parse_cases directory with ⟨lumps, listed, ends⟩ | ⟨_, _, _, _, _, _, _, _, ends⟩ |
    ⟨_, _, _, _, _, _, _, _, _, ends⟩
  all_goals
    rw [ends] at ok
    cases ok
  exact readsExactly directory listed

/-- Two ways to cut a list at an item: one is before the other, or they are the same. -/
theorem cut_cases {α : Type} {left left' right right' : List α} {item item' : α}
    (eq : left ++ item :: right = left' ++ item' :: right') :
    (∃ between, left = left' ++ item' :: between) ∨ item ∈ left' ++ [item'] := by
  rcases List.append_eq_append_iff.1 eq with ⟨between, rfl, tail⟩ | ⟨between, rfl, tail⟩
  · right
    cases between with
    | nil =>
      cases tail
      simp
    | cons first between =>
      cases tail
      simp
  · cases between with
    | nil =>
      right
      cases tail
      simp
    | cons first between =>
      left
      cases tail
      exact ⟨between, rfl⟩

theorem orphan_iff (bytes : List Byte) :
    (∃ index name, parse bytes = Panics.fail (.orphanMapLump index name)) ↔
      ∃ kind taken entry rest, Directory bytes kind (taken ++ entry :: rest) ∧
        (∀ e ∈ taken ++ [entry], WellFormed bytes e) ∧
        Orphan (taken.map entryName) (entryName entry) := by
  constructor
  · rintro ⟨index, name, orphan⟩
    by_cases header : ∃ kind entries, Directory bytes kind entries
    case neg =>
      obtain ⟨e, ends, other⟩ := parse_no_directory header
      rw [ends] at orphan
      cases orphan
      exact absurd rfl (other index name)
    obtain ⟨kind, entries, directory⟩ := header
    rcases parse_cases directory with ⟨lumps, listed, ends⟩ | ⟨taken, entry, rest, lumps, rfl, listed,
      formed, outside, ends⟩ | ⟨_, _, _, _, e, _, _, _, other, ends⟩
    · rw [ends] at orphan
      cases orphan
    · refine ⟨kind, taken, entry, rest, directory, fun e mem => ?_, outside⟩
      rcases List.mem_append.1 mem with mem | mem
      · exact listed.wellFormed e mem
      · rwa [List.mem_singleton.1 mem]
    · rw [ends] at orphan
      cases orphan
      exact absurd rfl (other index name)
  · rintro ⟨kind, taken, entry, rest, directory, formed, outside⟩
    rcases parse_cases directory with ⟨lumps, listed, ends⟩ | ⟨_, _, _, _, _, _, _, _, ends⟩ |
      ⟨taken', entry', rest', lumps, e, eq, listed, malformed, other, ends⟩
    · exact absurd outside listed.at
    · exact ⟨_, _, ends⟩
    · rcases cut_cases eq.symm with ⟨between, rfl⟩ | mem
      · exact absurd outside listed.at
      · exact absurd (formed entry' mem) malformed

theorem parse_laidOut {bytes : List Byte} {kind : WadKind} {lumps : List (List Byte × List Byte)}
    {offset : Nat} (laid : LaidOut bytes kind lumps offset)
    (owned : ∀ before lump after, lumps = before ++ lump :: after →
      ¬Orphan (before.map Prod.fst) lump.1) :
    ∃ wad, parse bytes = .ok wad ∧ wad.kind = kind ∧
      wad.lumps.map (fun lump => (lump.name, lump.bytes)) = lumps := by
  obtain ⟨entries, directory, formed, same⟩ := laid.directory
  rcases parse_cases directory with ⟨read, listed, ends⟩ | ⟨taken, entry, rest, _, rfl, _, _, outside,
    _⟩ | ⟨taken, entry, rest, _, _, rfl, _, malformed, _⟩
  · exact ⟨_, ends, rfl, listed.map_pair.trans same⟩
  · rw [List.map_append, List.map_cons] at same
    refine absurd ?_ (owned _ _ _ same.symm)
    rwa [List.map_map]
  · exact absurd (formed entry (by simp)) malformed

/-- `parse` reads every file without a panic, and exactly: what it accepts is what the directory
says, a map lump outside any map is what it refuses as such, and lumps laid out in a file without
one are read back. -/
theorem parse_lumps_exact (bytes : List Byte) :
    Panics.Safe (parse bytes) ∧
    (∀ wad, parse bytes = .ok wad → ReadsExactly bytes wad) ∧
    ((∃ index name, parse bytes = Panics.fail (.orphanMapLump index name)) ↔
      ∃ kind taken entry rest, Directory bytes kind (taken ++ entry :: rest) ∧
        (∀ e ∈ taken ++ [entry], WellFormed bytes e) ∧
        Orphan (taken.map entryName) (entryName entry)) ∧
    ∀ kind lumps offset, LaidOut bytes kind lumps offset →
      (∀ before lump after, lumps = before ++ lump :: after →
        ¬Orphan (before.map Prod.fst) lump.1) →
      ∃ wad, parse bytes = .ok wad ∧ wad.kind = kind ∧
        wad.lumps.map (fun lump => (lump.name, lump.bytes)) = lumps :=
  ⟨safe_parse bytes, fun _ ok => readsExactly_of_ok ok, orphan_iff bytes,
    fun _ _ _ laid owned => parse_laidOut laid owned⟩

/-- A file with one lump. -/
def oneLump (name : List Byte) : List Byte :=
  WadKind.iwad.magic ++ (le32 1 ++ (le32 12 ++ entryOf 0 (name, [])))

/-- The lumps no map owns are listed under the empty name. -/
theorem pnames_under_no_marker : ∃ wad lump, parse (oneLump (ascii "PNAMES")) = .ok wad ∧
    lump ∈ wad.map [] ∧ ¬OwnedBy (wad.namesTo 0) [] :=
  ⟨⟨.iwad, [⟨0, ascii "PNAMES", [], []⟩]⟩, ⟨0, ascii "PNAMES", [], []⟩, by decide +kernel,
    by decide, fun ⟨_, _, _, isMarker, _⟩ => by cases isMarker⟩

/-- A marker and a map lump of three bytes before their directory. -/
def twoLumps : List (List Byte × List Byte) := [(ascii "E1M1", []), (ascii "THINGS", [1, 2, 3])]

def twoLumpsFile : List Byte :=
  WadKind.iwad.magic ++ (le32 2 ++ (le32 15 ++ ([1, 2, 3] ++
    (entryOf 12 (ascii "E1M1", []) ++ entryOf 12 (ascii "THINGS", [1, 2, 3])))))

theorem laidOut_twoLumps : LaidOut twoLumpsFile .iwad twoLumps 15 where
  header := by decide +kernel
  few := by decide
  low := by decide
  inside := by decide +kernel
  names := by
    intro lump mem
    rcases List.mem_pair.1 mem with rfl | rfl
    · exact ⟨by decide, by decide, by decide⟩
    · exact ⟨by decide, by decide, by decide⟩
  bodies := by
    intro i lump here
    match i with
    | 0 =>
      cases here
      exact ⟨12, by decide, by decide, by decide +kernel, by decide +kernel, by decide +kernel⟩
    | 1 =>
      cases here
      exact ⟨12, by decide, by decide, by decide +kernel, by decide +kernel, by decide +kernel⟩
    | i + 2 => cases here

/-- The map of the marker is the marker and its lump, and a map lump without a marker is refused. -/
theorem twoLumps_read :
    (∃ wad, parse twoLumpsFile = .ok wad ∧ ReadsExactly twoLumpsFile wad ∧
      wad.lumps.map (fun lump => (lump.name, lump.bytes)) = twoLumps) ∧
    ∃ kind taken entry rest, Directory (oneLump (ascii "THINGS")) kind (taken ++ entry :: rest) ∧
      (∀ e ∈ taken ++ [entry], WellFormed (oneLump (ascii "THINGS")) e) ∧
      Orphan (taken.map entryName) (entryName entry) := by
  constructor
  · obtain ⟨-, exactly, -, laid⟩ := parse_lumps_exact twoLumpsFile
    obtain ⟨wad, ok, -, same⟩ := laid .iwad twoLumps 15 laidOut_twoLumps (by
      intro before lump after eq orphan
      have owner : OwnedBy (before.map Prod.fst ++ [lump.1]) (ascii "E1M1") := by
        match before with
        | [] =>
          cases eq
          exact absurd orphan.1 (by decide)
        | [first] =>
          cases eq
          exact ⟨[], [ascii "THINGS"], rfl, by decide, by decide⟩
        | first :: second :: rest =>
          cases rest <;> cases eq
      exact orphan.2 ⟨_, owner⟩)
    exact ⟨wad, ok, exactly wad ok, same⟩
  · exact (parse_lumps_exact (oneLump (ascii "THINGS"))).2.2.1.1 ⟨0, ascii "THINGS", by decide +kernel⟩

end ClickDoom.Lumps
