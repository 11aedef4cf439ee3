import ClickDoom.Base.Bytes
import ClickDoom.Base.Panics

/-! # Reading a WAD's header and directory

`native/src/wad/mod.rs`, `name.rs` and `marker.rs`.  A name is the bytes it is written with, all of
them printable ASCII once it is read.  An index out of range is a panic; the sums that the code
checks are checked here.
-/
namespace ClickDoom.Lumps
open LittleEndian

/-- Which kind of WAD the magic says this is. -/
inductive WadKind
  | iwad
  | pwad
  deriving DecidableEq, Repr

/-- The bytes of an ASCII text. -/
def ascii (text : String) : List Byte := text.toList.map fun c => BitVec.ofNat 8 c.toNat

def WadKind.magic : WadKind → List Byte
  | .iwad => ascii "IWAD"
  | .pwad => ascii "PWAD"

inductive WadError
  | headerTooShort (len : Nat)
  | badMagic (magic : List Byte)
  | negativeLumpCount (count : Int)
  | negativeDirectoryOffset (offset : Int)
  | directoryOutOfRange (offset count len : Nat)
  | negativeLumpExtent (index : Nat) (offset size : Int)
  | lumpOutOfRange (index : Nat) (name : List Byte) (offset size len : Nat)
  | badName (index : Nat) (bytes : List Byte)
  | orphanMapLump (index : Nat) (name : List Byte)
  deriving DecidableEq, Repr

/-- One lump: its directory entry, and its bytes as they lie in the file. -/
structure Lump where
  index : Nat
  name : List Byte
  mapMarker : List Byte
  bytes : List Byte
  deriving DecidableEq, Repr

structure Wad where
  kind : WadKind
  lumps : List Lump
  deriving DecidableEq, Repr

/-! ## Names and markers -/

/-- `is_ascii_graphic`. -/
def isAsciiGraphic (b : Byte) : Bool := 0x21 ≤ b.toNat && b.toNat ≤ 0x7e

/-- `is_ascii_digit`. -/
def isAsciiDigit (b : Byte) : Bool := 0x30 ≤ b.toNat && b.toNat ≤ 0x39

def mapLumps : List (List Byte) :=
  ["THINGS", "LINEDEFS", "SIDEDEFS", "VERTEXES", "SEGS", "SSECTORS", "NODES", "SECTORS", "REJECT",
    "BLOCKMAP"].map ascii

/-- `is_marker`: `ExMy` or `MAPxx`. -/
def isMarker : List Byte → Bool
  | [b0, b1, b2, b3] => [b0] == ascii "E" && isAsciiDigit b1 && [b2] == ascii "M" && isAsciiDigit b3
  | [b0, b1, b2, b3, b4] => [b0, b1, b2] == ascii "MAP" && isAsciiDigit b3 && isAsciiDigit b4
  | _ => false

/-- `is_map_lump`. -/
def isMapLump (name : List Byte) : Bool := mapLumps.contains name

/-- `name::read`.  Printable ASCII is UTF-8, so the last step of the source refuses nothing. -/
def read (index : Nat) (field : List Byte) : Panics WadError (List Byte) := do
  let stop := (field.findIdx? (· = 0)).getD 8
  let padding ← Panics.range field stop field.length
  let name ← Panics.range field 0 stop
  if stop = 0 ∨ padding.any (· ≠ 0) ∨ name.any (fun b => !isAsciiGraphic b) then
    Panics.fail (.badName index field)
  else return name

/-! ## The reader -/

/-- `read_i32`. -/
def readI32 (bytes : List Byte) : Int := (value 32 bytes).toInt

/-- `split_entry`: body offset, body size, name bytes. -/
def splitEntry (entry : List Byte) : Int × Int × List Byte :=
  (readI32 (entry.take 4), readI32 ((entry.drop 4).take 4), entry.drop 8)

/-- `directory_slice`. -/
def directorySlice (bytes : List Byte) (offset count : Nat) : Panics WadError (List Byte) :=
  let span := (Panics.checkedMul count 16).bind fun span => Panics.checkedAdd span offset
  match span.bind fun span => Panics.getRange bytes offset span with
  | some slice => .ok slice
  | none => Panics.fail (.directoryOutOfRange offset count bytes.length)

/-- `read_entry`. -/
def readEntry (bytes : List Byte) (index : Nat) (entry : List Byte) : Panics WadError Lump := do
  let (offset, size, field) := splitEntry entry
  let name ← read index field
  if offset < 0 ∨ size < 0 then Panics.fail (.negativeLumpExtent index offset size)
  else
    let body := (Panics.checkedAdd offset.toNat size.toNat).bind fun stop =>
      Panics.getRange bytes offset.toNat stop
    match body with
    | some body => return ⟨index, name, [], body⟩
    | none => Panics.fail (.lumpOutOfRange index name offset.toNat size.toNat bytes.length)

/-- The marker carried past a lump; none for a map lump outside any marker. -/
def nextMarker (marker name : List Byte) : Option (List Byte) :=
  if isMarker name then some name
  else if !isMapLump name then some []
  else if marker.isEmpty then none
  else some marker

/-- The loop of `Wad::parse`. -/
def readLumps (bytes : List Byte) : Nat → List Byte → List (List Byte) → Panics WadError (List Lump)
  | _, _, [] => .ok []
  | index, marker, entry :: rest => do
    let lump ← readEntry bytes index entry
    match nextMarker marker lump.name with
    | none => Panics.fail (.orphanMapLump index lump.name)
    | some marker =>
      let lumps ← readLumps bytes (index + 1) marker rest
      return { lump with mapMarker := marker } :: lumps

def kindOf (magic : List Byte) : Option WadKind :=
  if magic = WadKind.iwad.magic then some .iwad
  else if magic = WadKind.pwad.magic then some .pwad
  else none

/-- `Wad::parse`. -/
def parse (bytes : List Byte) : Panics WadError Wad :=
  if bytes.length < 12 then Panics.fail (.headerTooShort bytes.length)
  else match kindOf (bytes.take 4) with
  | none => Panics.fail (.badMagic (bytes.take 4))
  | some kind =>
    let count := readI32 ((bytes.drop 4).take 4)
    let offset := readI32 ((bytes.drop 8).take 4)
    if count < 0 then Panics.fail (.negativeLumpCount count)
    else if offset < 0 then Panics.fail (.negativeDirectoryOffset offset)
    else do
      let directory ← directorySlice bytes offset.toNat count.toNat
      let lumps ← readLumps bytes 0 [] (chunks 16 directory)
      return ⟨kind, lumps⟩

/-- `Wad::map`. -/
def Wad.map (wad : Wad) (mapMarker : List Byte) : List Lump :=
  wad.lumps.filter fun lump => lump.mapMarker = mapMarker

/-! ## What a directory entry says -/

/-- The name, trimmed at its NUL terminator. -/
def entryName (entry : List Byte) : List Byte := (entry.drop 8).takeWhile (· ≠ 0)

def entryStart (entry : List Byte) : Int := readI32 (entry.take 4)

def entrySize (entry : List Byte) : Int := readI32 ((entry.drop 4).take 4)

/-- The slice of the file an entry names. -/
def entryBody (bytes entry : List Byte) : List Byte :=
  (bytes.drop (entryStart entry).toNat).take (entrySize entry).toNat

/-- A name of printable ASCII with only NULs after it, and a slice that lies in the file. -/
structure WellFormed (bytes entry : List Byte) : Prop where
  named : entryName entry ≠ []
  graphic : ∀ b ∈ entryName entry, isAsciiGraphic b
  padded : ∀ b ∈ (entry.drop 8).drop (entryName entry).length, b = 0
  start : 0 ≤ entryStart entry
  size : 0 ≤ entrySize entry
  inside : (entryStart entry).toNat + (entrySize entry).toNat ≤ bytes.length

/-- The first NUL is where the name ends. -/
theorem findIdx_nul (field : List Byte) :
    (field.findIdx? (· = 0)).getD field.length = (field.takeWhile (· ≠ 0)).length := by
  induction field with
  | nil => rfl
  | cons b field ih =>
    rw [List.findIdx?_cons]
    by_cases nul : b = 0
    case pos => simp [nul]
    case neg =>
      have found : ((field.findIdx? (· = 0)).map (· + 1)).getD (field.length + 1) =
          (field.findIdx? (· = 0)).getD field.length + 1 := by
        cases field.findIdx? (· = 0) <;> rfl
      rw [List.takeWhile_cons_of_pos (by simpa using nul), if_neg (by simpa using nul),
        List.length_cons, List.length_cons, found, ih]

/-- What `read` makes of a name field. -/
theorem read_eq (index : Nat) {entry : List Byte} (full : entry.length = 16) :
    read index (entry.drop 8) =
      if entryName entry = [] ∨ (∃ b ∈ (entry.drop 8).drop (entryName entry).length, b ≠ 0) ∨
        (∃ b ∈ entryName entry, isAsciiGraphic b = false) then
        Panics.fail (.badName index (entry.drop 8))
      else .ok (entryName entry) := by
  have eight : (entry.drop 8).length = 8 := by rw [List.length_drop, full]
  have stop : ((entry.drop 8).findIdx? (· = 0)).getD 8 = (entryName entry).length := by
    have found := findIdx_nul (entry.drop 8)
    rwa [eight] at found
  have le : (entryName entry).length ≤ (entry.drop 8).length :=
    (List.takeWhile_prefix _).length_le
  have name : ((entry.drop 8).drop 0).take ((entryName entry).length - 0) = entryName entry := by
    rw [List.drop_zero, Nat.sub_zero]
    exact (List.prefix_iff_eq_take.1 (List.takeWhile_prefix _)).symm
  have padding : ((entry.drop 8).drop (entryName entry).length).take
      ((entry.drop 8).length - (entryName entry).length) =
      (entry.drop 8).drop (entryName entry).length := by
    rw [List.take_of_length_le]
    rw [List.length_drop]
  rw [read]
  simp only [stop, Panics.range_eq le (Nat.le_refl _), Panics.range_eq (Nat.zero_le _) le,
    Panics.ok_bind, name, padding, List.length_eq_zero_iff, List.any_eq_true, decide_eq_true_eq,
    Bool.not_eq_true']
  rfl

theorem readI32_lt (bytes : List Byte) : readI32 bytes < 2 ^ 31 := BitVec.toInt_lt

/-- The body of an entry with a good extent, where it lies in the file. -/
theorem body_eq (bytes entry : List Byte) :
    ((Panics.checkedAdd (entryStart entry).toNat (entrySize entry).toNat).bind fun stop =>
      Panics.getRange bytes (entryStart entry).toNat stop) =
    if (entryStart entry).toNat + (entrySize entry).toNat ≤ bytes.length then
      some (entryBody bytes entry) else none := by
  have start : entryStart entry < 2 ^ 31 := readI32_lt _
  have size : entrySize entry < 2 ^ 31 := readI32_lt _
  rw [Panics.checkedAdd, if_pos (by omega), Option.bind_some, Panics.getRange, Nat.add_sub_cancel_left]
  simp only [Nat.le_add_right, true_and]
  rfl

/-- What `read_entry` makes of an entry. -/
theorem readEntry_eq (bytes : List Byte) (index : Nat) {entry : List Byte}
    (full : entry.length = 16) :
    readEntry bytes index entry =
      if entryName entry = [] ∨ (∃ b ∈ (entry.drop 8).drop (entryName entry).length, b ≠ 0) ∨
        (∃ b ∈ entryName entry, isAsciiGraphic b = false) then
        Panics.fail (.badName index (entry.drop 8))
      else if entryStart entry < 0 ∨ entrySize entry < 0 then
        Panics.fail (.negativeLumpExtent index (entryStart entry) (entrySize entry))
      else if (entryStart entry).toNat + (entrySize entry).toNat ≤ bytes.length then
        .ok ⟨index, entryName entry, [], entryBody bytes entry⟩
      else Panics.fail (.lumpOutOfRange index (entryName entry) (entryStart entry).toNat
        (entrySize entry).toNat bytes.length) := by
  rw [readEntry, splitEntry]
  show (read index (entry.drop 8) >>= fun name => _) = _
  rw [read_eq index full]
  split
  case isTrue => rfl
  case isFalse =>
    rw [Panics.ok_bind]
    show (if entryStart entry < 0 ∨ entrySize entry < 0 then _ else _) = _
    split
    case isTrue => rfl
    case isFalse =>
      have body := body_eq bytes entry
      by_cases inside : (entryStart entry).toNat + (entrySize entry).toNat ≤ bytes.length
      case pos =>
        rw [if_pos inside] at body ⊢
        simp only [entryStart, entrySize] at body
        rw [body]
        rfl
      case neg =>
        rw [if_neg inside] at body ⊢
        simp only [entryStart, entrySize] at body
        rw [body]
        rfl

/-- A well-formed entry is read as what it says. -/
theorem readEntry_wellFormed {bytes entry : List Byte} (index : Nat) (full : entry.length = 16)
    (formed : WellFormed bytes entry) :
    readEntry bytes index entry = .ok ⟨index, entryName entry, [], entryBody bytes entry⟩ := by
  have start := formed.start
  have size := formed.size
  rw [readEntry_eq bytes index full, if_neg, if_neg (by omega), if_pos formed.inside]
  rintro (nil | ⟨b, mem, other⟩ | ⟨b, mem, dull⟩)
  · exact formed.named nil
  · exact other (formed.padded b mem)
  · rw [formed.graphic b mem] at dull
    cases dull

/-- Any other entry is an error, and not that of a map lump outside its map. -/
theorem readEntry_malformed {bytes entry : List Byte} (index : Nat) (full : entry.length = 16)
    (malformed : ¬WellFormed bytes entry) :
    ∃ e, readEntry bytes index entry = Panics.fail e ∧ ∀ i name, e ≠ .orphanMapLump i name := by
  rw [readEntry_eq bytes index full]
  split
  case isTrue => exact ⟨_, rfl, nofun⟩
  case isFalse good =>
    split
    case isTrue => exact ⟨_, rfl, nofun⟩
    case isFalse extent =>
      split
      case isFalse => exact ⟨_, rfl, nofun⟩
      case isTrue inside =>
        obtain ⟨named, rest⟩ := not_or.1 good
        obtain ⟨padded, graphic⟩ := not_or.1 rest
        refine absurd ⟨named, fun b mem => ?_, fun b mem => ?_, by omega, by omega, inside⟩ malformed
        · exact Bool.of_not_eq_false fun dull => graphic ⟨b, mem, dull⟩
        · exact of_not_not fun other => padded ⟨b, mem, other⟩

/-! ## The marker a lump belongs to -/

/-- The last of the names belongs to a marker: the closest one at or before it, with only map lumps
in between. -/
def OwnedBy (names : List (List Byte)) (marker : List Byte) : Prop :=
  ∃ before between, names = before ++ marker :: between ∧ isMarker marker ∧
    ∀ name ∈ between, isMapLump name

/-- No map lump has the name of a marker. -/
theorem not_isMarker {name : List Byte} (isMap : isMapLump name) : isMarker name = false := by
  have none : ∀ name ∈ mapLumps, isMarker name = false := by decide
  exact none name (List.contains_iff_mem.1 isMap)

theorem not_ownedBy_nil (marker : List Byte) : ¬OwnedBy [] marker := by
  rintro ⟨before, between, eq, -⟩
  cases before <;> cases eq

/-- What one more name does. -/
theorem ownedBy_snoc {names : List (List Byte)} {name marker : List Byte} :
    OwnedBy (names ++ [name]) marker ↔
      isMarker name ∧ marker = name ∨ isMapLump name ∧ OwnedBy names marker := by
  constructor
  · rintro ⟨before, between, eq, isMarker, maps⟩
    rcases List.eq_nil_or_concat between with rfl | ⟨between, last, rfl⟩
    · obtain ⟨-, same⟩ := List.append_inj' eq rfl
      cases same
      exact .inl ⟨isMarker, rfl⟩
    · rw [List.concat_eq_append, ← List.cons_append, ← List.append_assoc] at eq
      obtain ⟨rfl, same⟩ := List.append_inj' eq rfl
      cases same
      exact .inr ⟨maps _ (by simp), before, between, rfl, isMarker,
        fun name mem => maps name (by simp [mem])⟩
  · rintro (⟨isMarker, rfl⟩ | ⟨isMap, before, between, rfl, isMarker, maps⟩)
    · exact ⟨names, [], rfl, isMarker, nofun⟩
    · refine ⟨before, between ++ [name], by simp, isMarker, fun other mem => ?_⟩
      rcases List.mem_append.1 mem with mem | mem
      · exact maps other mem
      · rwa [List.mem_singleton.1 mem]

/-- The marker carried is the one the last name belongs to, and empty where there is none. -/
def Carried (names : List (List Byte)) (marker : List Byte) : Prop :=
  ∀ owner, OwnedBy names owner ↔ owner = marker ∧ marker ≠ []

/-- The last name is that of a map lump outside any map. -/
def Orphan (names : List (List Byte)) (name : List Byte) : Prop :=
  isMapLump name ∧ ¬∃ marker, OwnedBy (names ++ [name]) marker

theorem carried_nil : Carried [] [] := fun owner =>
  ⟨fun owned => absurd owned (not_ownedBy_nil owner), fun h => absurd rfl h.2⟩

/-- A marker has a name. -/
theorem ne_nil_of_isMarker {name : List Byte} (marker : isMarker name) : name ≠ [] := by
  rintro rfl
  cases marker

/-- The marker is carried past a lump. -/
theorem Carried.step {names : List (List Byte)} {marker : List Byte} (carried : Carried names marker)
    (name : List Byte) :
    (∃ next, nextMarker marker name = some next ∧ ¬Orphan names name ∧
      Carried (names ++ [name]) next) ∨
    nextMarker marker name = none ∧ Orphan names name := by
  rw [nextMarker]
  by_cases isMarker : isMarker name
  case pos =>
    rw [if_pos isMarker]
    have isMap : isMapLump name ≠ true := fun isMap => by
      rw [not_isMarker isMap] at isMarker
      cases isMarker
    refine .inl ⟨name, rfl, fun orphan => isMap orphan.1, fun owner => ?_⟩
    rw [ownedBy_snoc]
    simp [isMarker, isMap, ne_nil_of_isMarker isMarker]
  case neg =>
    rw [if_neg isMarker]
    by_cases isMap : isMapLump name
    case neg =>
      rw [if_pos (by simp [isMap])]
      refine .inl ⟨[], rfl, fun orphan => isMap orphan.1, fun owner => ?_⟩
      rw [ownedBy_snoc]
      simp [isMarker, isMap]
    case pos =>
      rw [if_neg (by simp [isMap])]
      have same : ∀ owner, OwnedBy (names ++ [name]) owner ↔ owner = marker ∧ marker ≠ [] := by
        intro owner
        rw [ownedBy_snoc, carried owner]
        simp [isMarker, isMap]
      cases marker with
      | nil => exact .inr ⟨rfl, isMap, fun ⟨owner, owned⟩ => ((same owner).1 owned).2 rfl⟩
      | cons b marker =>
        exact .inl ⟨b :: marker, rfl, fun orphan => orphan.2 ⟨_, (same _).2 ⟨rfl, nofun⟩⟩, same⟩

/-! ## The loop -/

/-- The lumps of well-formed entries, with the names before them. -/
inductive Listed (bytes : List Byte) : List (List Byte) → List (List Byte) → List Lump → Prop
  | nil (names : List (List Byte)) : Listed bytes names [] []
  | cons {names entries : List (List Byte)} {entry marker : List Byte} {lumps : List Lump} :
    WellFormed bytes entry → ¬Orphan names (entryName entry) →
      Carried (names ++ [entryName entry]) marker →
      Listed bytes (names ++ [entryName entry]) entries lumps →
      Listed bytes names (entry :: entries)
        (⟨names.length, entryName entry, marker, entryBody bytes entry⟩ :: lumps)

/-- How the loop ends: with every lump, at a map lump outside any map, or at a malformed entry. -/
theorem readLumps_cases {bytes : List Byte} {entries : List (List Byte)}
    (full : ∀ entry ∈ entries, entry.length = 16) {names : List (List Byte)} {marker : List Byte}
    (carried : Carried names marker) :
    (∃ lumps, Listed bytes names entries lumps ∧
      readLumps bytes names.length marker entries = .ok lumps) ∨
    (∃ taken entry rest lumps, entries = taken ++ entry :: rest ∧ Listed bytes names taken lumps ∧
      WellFormed bytes entry ∧ Orphan (names ++ taken.map entryName) (entryName entry) ∧
      readLumps bytes names.length marker entries =
        Panics.fail (.orphanMapLump (names.length + taken.length) (entryName entry))) ∨
    ∃ taken entry rest lumps e, entries = taken ++ entry :: rest ∧ Listed bytes names taken lumps ∧
      ¬WellFormed bytes entry ∧ (∀ i name, e ≠ .orphanMapLump i name) ∧
      readLumps bytes names.length marker entries = Panics.fail e := by
  induction entries generalizing names marker with
  | nil => exact .inl ⟨[], .nil names, rfl⟩
  | cons entry entries ih =>
    by_cases formed : WellFormed bytes entry
    case neg =>
      obtain ⟨e, read, other⟩ := readEntry_malformed names.length (full entry List.mem_cons_self) formed
      refine .inr (.inr ⟨[], entry, entries, [], e, rfl, .nil names, formed, other, ?_⟩)
      rw [readLumps, read]
      rfl
    have read := readEntry_wellFormed names.length (full entry List.mem_cons_self) formed
    rcases carried.step (entryName entry) with ⟨next, stepped, owned, carried⟩ | ⟨stepped, orphan⟩
    case inr =>
      refine .inr (.inl ⟨[], entry, entries, [], rfl, .nil names, formed, ?_, ?_⟩)
      · rwa [List.map_nil, List.append_nil]
      · rw [readLumps, read, Panics.ok_bind]
        simp only [stepped]
        rfl
    have loop : readLumps bytes names.length marker (entry :: entries) = (do
        let lumps ← readLumps bytes (names ++ [entryName entry]).length next entries
        return ⟨names.length, entryName entry, next, entryBody bytes entry⟩ :: lumps) := by
      rw [readLumps, read, Panics.ok_bind, List.length_append]
      simp only [stepped]
      rfl
    have later := ih (fun e mem => full e (List.mem_cons_of_mem _ mem)) carried
    rw [loop]
    rcases later with ⟨lumps, listed, ends⟩ | ⟨taken, last, rest, lumps, rfl, listed, lastFormed,
      orphan, ends⟩ | ⟨taken, last, rest, lumps, e, rfl, listed, malformed, other, ends⟩
    · refine .inl ⟨_, .cons formed owned carried listed, ?_⟩
      rw [ends]
      rfl
    · refine .inr (.inl ⟨entry :: taken, last, rest, _, rfl, .cons formed owned carried listed,
        lastFormed, ?_, ?_⟩)
      · rwa [List.map_cons, List.append_cons]
      · rw [ends, List.length_append, List.length_singleton, List.length_cons, Nat.add_assoc,
          Nat.add_comm 1]
        rfl
    · refine .inr (.inr ⟨entry :: taken, last, rest, _, e, rfl, .cons formed owned carried listed,
        malformed, other, ?_⟩)
      rw [ends]
      rfl

/-- A listed entry is well formed, and no orphan. -/
theorem Listed.at {bytes : List Byte} {names taken rest : List (List Byte)} {entry : List Byte}
    {lumps : List Lump} (listed : Listed bytes names (taken ++ entry :: rest) lumps) :
    ¬Orphan (names ++ taken.map entryName) (entryName entry) := by
  induction taken generalizing names lumps with
  | nil =>
    cases listed with
    | cons _ owned _ _ => rwa [List.map_nil, List.append_nil]
  | cons first taken ih =>
    cases listed with
    | cons _ _ _ listed =>
      have later := ih listed
      rwa [List.map_cons, List.append_cons]

theorem Listed.wellFormed {bytes : List Byte} {names entries : List (List Byte)}
    {lumps : List Lump} (listed : Listed bytes names entries lumps) :
    ∀ entry ∈ entries, WellFormed bytes entry := by
  induction listed with
  | nil => exact nofun
  | cons formed _ _ _ ih =>
    intro entry mem
    rcases List.mem_cons.1 mem with rfl | mem
    · exact formed
    · exact ih entry mem

/-- What a listed lump is. -/
structure Listed.Entry (bytes : List Byte) (names : List (List Byte)) (i : Nat) (entry : List Byte)
    (lump : Lump) : Prop where
  index : lump.index = i
  name : lump.name = entryName entry
  bytes : lump.bytes = entryBody bytes entry
  marker : Carried names lump.mapMarker

theorem Listed.length {bytes : List Byte} {names entries : List (List Byte)} {lumps : List Lump}
    (listed : Listed bytes names entries lumps) : lumps.length = entries.length := by
  induction listed with
  | nil => rfl
  | cons _ _ _ _ ih => rw [List.length_cons, List.length_cons, ih]

theorem Listed.entry {bytes : List Byte} {names entries : List (List Byte)} {lumps : List Lump}
    (listed : Listed bytes names entries lumps) {i : Nat} {entry : List Byte} {lump : Lump}
    (here : entries[i]? = some entry) (there : lumps[i]? = some lump) :
    Listed.Entry bytes (names ++ (entries.take (i + 1)).map entryName) (names.length + i) entry
      lump := by
  induction listed generalizing i with
  | nil => cases here
  | cons formed owned carried listed ih =>
    cases i with
    | zero =>
      cases here
      cases there
      exact ⟨rfl, rfl, rfl, carried⟩
    | succ i =>
      have later := ih here there
      rw [List.length_append, List.length_singleton, Nat.add_assoc, Nat.add_comm 1] at later
      rwa [List.take_succ_cons, List.map_cons, List.append_cons]

/-! ## The directory -/

/-- The header of a WAD and the entries it points at, all of them in the file. -/
structure Directory (bytes : List Byte) (kind : WadKind) (entries : List (List Byte)) : Prop where
  long : 12 ≤ bytes.length
  magic : bytes.take 4 = kind.magic
  placed : ∃ count offset : Nat, readI32 ((bytes.drop 4).take 4) = count ∧
    readI32 ((bytes.drop 8).take 4) = offset ∧ offset + 16 * count ≤ bytes.length ∧
    entries = (List.range count).map fun i => (bytes.drop (offset + 16 * i)).take 16

theorem Directory.full {bytes : List Byte} {kind : WadKind} {entries : List (List Byte)}
    (directory : Directory bytes kind entries) : ∀ entry ∈ entries, entry.length = 16 := by
  obtain ⟨count, offset, -, -, inside, rfl⟩ := directory.placed
  intro entry mem
  obtain ⟨i, small, rfl⟩ := List.mem_map.1 mem
  have small := List.mem_range.1 small
  rw [List.length_take, List.length_drop]
  omega

/-- The directory cut into its entries. -/
theorem chunks_directory {bytes : List Byte} {offset count : Nat}
    (inside : offset + 16 * count ≤ bytes.length) :
    chunks 16 ((bytes.drop offset).take (16 * count)) =
      (List.range count).map fun i => (bytes.drop (offset + 16 * i)).take 16 := by
  have length : ((bytes.drop offset).take (16 * count)).length / 16 = count := by
    rw [List.length_take, List.length_drop]
    omega
  rw [chunks, length]
  apply List.map_congr_left
  intro i small
  have small := List.mem_range.1 small
  rw [List.drop_take, List.drop_drop, List.take_take, Nat.mul_comm i 16]
  congr 1
  omega

theorem directorySlice_eq (bytes : List Byte) {offset count : Nat} (small : offset < 2 ^ 31)
    (few : count < 2 ^ 31) :
    directorySlice bytes offset count =
      if offset + 16 * count ≤ bytes.length then .ok ((bytes.drop offset).take (16 * count))
      else Panics.fail (.directoryOutOfRange offset count bytes.length) := by
  rw [directorySlice, Panics.checkedMul, if_pos (by omega)]
  simp only [Option.bind_some]
  rw [Panics.checkedAdd, if_pos (by omega), Option.bind_some, Panics.getRange]
  have span : count * 16 + offset - offset = 16 * count := by omega
  have stop : count * 16 + offset = offset + 16 * count := by omega
  rw [span, stop]
  by_cases inside : offset + 16 * count ≤ bytes.length
  case pos =>
    rw [if_pos ⟨Nat.le_add_right _ _, inside⟩, if_pos inside]
  case neg =>
    rw [if_neg fun h => inside h.2, if_neg inside]

theorem kindOf_eq_some {magic : List Byte} {kind : WadKind} :
    kindOf magic = some kind ↔ magic = kind.magic := by
  have other : WadKind.pwad.magic ≠ WadKind.iwad.magic := by decide
  constructor
  · intro found
    rw [kindOf] at found
    split at found
    case isTrue same =>
      cases found
      exact same
    case isFalse =>
      split at found
      case isTrue same =>
        cases found
        exact same
      case isFalse => cases found
  · rintro rfl
    cases kind with
    | iwad => rfl
    | pwad => rw [kindOf, if_neg other, if_pos rfl]

/-- `parse`, once the header is read. -/
theorem parse_directory {bytes : List Byte} {kind : WadKind} {entries : List (List Byte)}
    (directory : Directory bytes kind entries) :
    parse bytes = (do
      let lumps ← readLumps bytes 0 [] entries
      return ⟨kind, lumps⟩) := by
  obtain ⟨count, offset, countEq, offsetEq, inside, rfl⟩ := directory.placed
  have few : count < 2 ^ 31 := by
    have := readI32_lt ((bytes.drop 4).take 4)
    omega
  have small : offset < 2 ^ 31 := by
    have := readI32_lt ((bytes.drop 8).take 4)
    omega
  rw [parse, if_neg (Nat.not_lt.2 directory.long), kindOf_eq_some.2 directory.magic]
  simp only [countEq, offsetEq]
  rw [if_neg (by omega), if_neg (by omega), Int.toNat_natCast, Int.toNat_natCast,
    directorySlice_eq bytes small few, if_pos inside, Panics.ok_bind, chunks_directory inside]

/-- Anything else is an error of the header. -/
theorem parse_no_directory {bytes : List Byte}
    (none : ¬∃ kind entries, Directory bytes kind entries) :
    ∃ e, parse bytes = Panics.fail e ∧ ∀ i name, e ≠ .orphanMapLump i name := by
  rw [parse]
  split
  case isTrue => exact ⟨_, rfl, nofun⟩
  case isFalse long =>
    split
    case h_1 => exact ⟨_, rfl, nofun⟩
    case h_2 kind magic =>
      dsimp only
      split
      case isTrue => exact ⟨_, rfl, nofun⟩
      case isFalse counted =>
        split
        case isTrue => exact ⟨_, rfl, nofun⟩
        case isFalse placed =>
          have few := readI32_lt ((bytes.drop 4).take 4)
          have small := readI32_lt ((bytes.drop 8).take 4)
          rw [directorySlice_eq bytes (by omega) (by omega)]
          split
          case isFalse => exact ⟨_, rfl, nofun⟩
          case isTrue inside =>
            exact absurd ⟨kind, _, Nat.not_lt.1 long, kindOf_eq_some.1 magic, _, _,
              (Int.toNat_of_nonneg (Int.not_lt.1 counted)).symm,
              (Int.toNat_of_nonneg (Int.not_lt.1 placed)).symm, inside, rfl⟩ none

/-- How `parse` ends, once the header is read. -/
theorem parse_cases {bytes : List Byte} {kind : WadKind} {entries : List (List Byte)}
    (directory : Directory bytes kind entries) :
    (∃ lumps, Listed bytes [] entries lumps ∧ parse bytes = .ok ⟨kind, lumps⟩) ∨
    (∃ taken entry rest lumps, entries = taken ++ entry :: rest ∧ Listed bytes [] taken lumps ∧
      WellFormed bytes entry ∧ Orphan (taken.map entryName) (entryName entry) ∧
      parse bytes = Panics.fail (.orphanMapLump taken.length (entryName entry))) ∨
    ∃ taken entry rest lumps e, entries = taken ++ entry :: rest ∧ Listed bytes [] taken lumps ∧
      ¬WellFormed bytes entry ∧ (∀ i name, e ≠ .orphanMapLump i name) ∧
      parse bytes = Panics.fail e := by
  rw [parse_directory directory]
  rcases readLumps_cases directory.full carried_nil with ⟨lumps, listed, ends⟩ | ⟨taken, entry, rest,
    lumps, eq, listed, formed, orphan, ends⟩ | ⟨taken, entry, rest, lumps, e, eq, listed, malformed,
    other, ends⟩
  · refine .inl ⟨lumps, listed, ?_⟩
    rw [← List.length_nil, ends]
    rfl
  · refine .inr (.inl ⟨taken, entry, rest, lumps, eq, listed, formed, orphan, ?_⟩)
    rw [← List.length_nil, ends, List.length_nil, Nat.zero_add]
    rfl
  · refine .inr (.inr ⟨taken, entry, rest, lumps, e, eq, listed, malformed, other, ?_⟩)
    rw [← List.length_nil, ends]
    rfl

end ClickDoom.Lumps
