import ClickDoom.Base.Table
import ClickDoom.Base.Words
import ClickDoom.Spec.Map

/-! # Loading a ROM

`driver/src/emulation/rom.rs`: the image's words and zeros up to the size of RAM are
inserted into `ram`, and the load is refused unless the table is then dense from the
image's base word.  Every row inserted has version 0, and the check counts rows: a row
an earlier run flushed with a version above 0 keeps its place.

The database answers here; one that does not ends the load with an error of its own.
-/
namespace ClickDoom
open LittleEndian

/-- What `load` reads of the manifest. -/
structure Manifest where
  loadAddr : Option Word
  size : Option Nat
  sha256 : Option String

inductive LoadRomError where
  | sizeMismatch (path : String) (actual expected : Nat)
  | hashMismatch (path actual expected : String)
  | unaligned (path : String) (len : Nat)
  | loadAddrUnaligned (loadAddr : Word)
  | overflow (imageEnd ramWords regionEnd : Word)
  | notDense (rows span lowest : Nat) (ramWords baseWord : Word)
  deriving DecidableEq

/-- What loading a ROM produced. -/
structure Loaded where
  words : Word
  bytes : Nat
  baseWord : Word
  ramWords : Word
  deriving DecidableEq

namespace Rom

abbrev Rows := List (TableRow Nat Word)

/-- The checks of the image against its manifest, up to its base word. -/
def check (sha256Hex : List Byte → String) (path : String) (manifest : Manifest)
    (blob : List Byte) : Except LoadRomError Word :=
  match manifest.size.filter (blob.length ≠ ·), manifest.sha256.filter (sha256Hex blob ≠ ·) with
  | some expected, _ => .error (.sizeMismatch path blob.length expected)
  | none, some expected => .error (.hashMismatch path (sha256Hex blob) expected)
  | none, none =>
    let loadAddr := manifest.loadAddr.getD ramBase
    if blob.length % 4 ≠ 0 then .error (.unaligned path blob.length)
    else if loadAddr % 4 ≠ 0 then .error (.loadAddrUnaligned loadAddr)
    else .ok (loadAddr / 4)

/-- The image's words at their addresses. -/
def imageRows (baseWord : Word) (blob : List Byte) : Rows :=
  (List.range (blob.length / 4)).map fun i =>
    { key := (baseWord + BitVec.ofNat 32 i).toNat, value := wordAt blob i, version := 0 }

/-- `SELECT toUInt32(fill_start + number), 0, 0 FROM numbers(fill_count)`. -/
def fillRows (fillStart fillCount : Word) : Rows :=
  (List.range fillCount.toNat).map fun number =>
    { key := (fillStart.toNat + number) % 2 ^ 32, value := 0, version := 0 }

/-- The zeros from the end of the image to the end of the region. -/
def zeroFill (fillStart regionEnd : Word) : Rows :=
  if fillStart < regionEnd then fillRows fillStart (regionEnd - fillStart) else []

/-- `count()`, `max(word_addr) - min(word_addr) + 1` and `min(word_addr)` of `ram FINAL`. -/
def density (ram : Rows) : Nat × Nat × Nat :=
  let addrs := Table.keys ram
  (addrs.length, addrs.max?.getD 0 - addrs.min?.getD 0 + 1, addrs.min?.getD 0)

/-- `load`, from the files as they were read, with the table it leaves. -/
def load (sha256Hex : List Byte → String) (path : String) (ram : Rows) (manifest : Manifest)
    (blob : List Byte) (ramWords : Word) : Except LoadRomError Loaded × Rows :=
  match check sha256Hex path manifest blob with
  | .error e => (.error e, ram)
  | .ok baseWord =>
    let wordCount := BitVec.ofNat 32 (blob.length / 4)
    let ram := ram ++ imageRows baseWord blob
    let fillStart := baseWord + wordCount
    let regionEnd := baseWord + ramWords
    if fillStart > regionEnd then
      (.error (.overflow fillStart ramWords regionEnd), ram)
    else
      let ram := ram ++ zeroFill fillStart regionEnd
      let (rows, span, lowest) := density ram
      if rows ≠ span ∨ rows ≠ ramWords.toNat ∨ lowest ≠ baseWord.toNat then
        (.error (.notDense rows span lowest ramWords baseWord), ram)
      else
        (.ok { words := wordCount, bytes := blob.length, baseWord, ramWords }, ram)

/-- The image's words, then zeros up to the size of RAM. -/
def words (blob : List Byte) (ramWords : Nat) : List Word :=
  (List.range (blob.length / 4)).map (wordAt blob) ++
    List.replicate (ramWords - blob.length / 4) 0

/-- Reading `ram FINAL` gives these words, one row for each word from `base`. -/
def Established (ram : Rows) (base ramWords : Nat) (blob : List Byte) : Prop :=
  Table.readFinal ram = (List.range' base ramWords).zip (words blob ramWords)

/-- No word of the region is kept by a row that a load cannot replace, unless it is the
one that would be loaded. -/
def Replaceable (ram : Rows) (base ramWords : Nat) (blob : List Byte) : Prop :=
  ∀ i < ramWords, ∀ row, Table.kept ram (base + i) = some row →
    row.version = 0 ∨ (words blob ramWords)[i]? = some row.value

/-! ## The rows a load inserts -/

theorem length_words {blob : List Byte} {ramWords : Nat} (h : blob.length ≤ 4 * ramWords) :
    (words blob ramWords).length = ramWords := by
  rw [words, List.length_append, List.length_map, List.length_range, List.length_replicate]
  omega

/-- The rows of a region: one version 0 row for each word. -/
def regionRows (base : Nat) (ws : List Word) : Rows :=
  ws.zipIdx.map fun (w, i) => { key := base + i, value := w, version := 0 }

theorem regionRows_append (base : Nat) (ws ws' : List Word) :
    regionRows base (ws ++ ws') = regionRows base ws ++ regionRows (base + ws.length) ws' := by
  rw [regionRows, List.zipIdx_append, List.map_append, regionRows, regionRows]
  congr 1
  rw [Nat.zero_add, List.zipIdx_eq_map_add, List.map_map]
  apply List.map_congr_left
  rintro ⟨w, i⟩ -
  simp only [Function.comp_apply]
  congr 1
  omega

/-- An image inside the address space is inserted at its words. -/
theorem imageRows_eq {baseWord : Word} {blob : List Byte}
    (h : baseWord.toNat + blob.length / 4 ≤ 2 ^ 32) :
    imageRows baseWord blob =
      regionRows baseWord.toNat ((List.range (blob.length / 4)).map (wordAt blob)) := by
  apply List.ext_getElem?
  intro i
  simp only [imageRows, regionRows, List.getElem?_map, List.getElem?_zipIdx]
  by_cases hi : i < blob.length / 4
  · simp [hi]
    omega
  · simp [hi]

theorem fillRows_eq {fillStart fillCount : Word}
    (h : fillStart.toNat + fillCount.toNat ≤ 2 ^ 32) :
    fillRows fillStart fillCount =
      regionRows fillStart.toNat (List.replicate fillCount.toNat 0) := by
  apply List.ext_getElem?
  intro i
  simp only [fillRows, regionRows, List.getElem?_map, List.getElem?_zipIdx]
  by_cases hi : i < fillCount.toNat
  · simp [hi]
    omega
  · simp [hi]

section
variable {sha256Hex : List Byte → String} {path : String} {ram : Rows} {manifest : Manifest}
  {blob : List Byte} {ramWords : Word} {loaded : Loaded}

theorem check_ok {baseWord : Word} (h : check sha256Hex path manifest blob = .ok baseWord) :
    blob.length % 4 = 0 ∧ baseWord.toNat < 2 ^ 30 := by
  rw [check] at h
  split at h
  · cases h
  · cases h
  · dsimp only at h
    split_ifs at h with hlen haddr
    injection h with h
    refine ⟨by omega, ?_⟩
    rw [← h, BitVec.toNat_udiv]
    have := (manifest.loadAddr.getD ramBase).isLt
    change _ / 4 < _
    omega

theorem zeroFill_eq {fillStart regionEnd : Word} (h : fillStart ≤ regionEnd) :
    zeroFill fillStart regionEnd =
      regionRows fillStart.toNat (List.replicate (regionEnd.toNat - fillStart.toNat) 0) := by
  have hend := regionEnd.isLt
  have hsub := BitVec.toNat_sub_of_le h
  rw [BitVec.le_def] at h
  rw [zeroFill]
  split_ifs with hlt
  · rw [fillRows_eq (by rw [hsub]; omega), hsub]
  · rw [BitVec.lt_def] at hlt
    rw [show regionEnd.toNat - fillStart.toNat = 0 by omega]
    rfl

/-- The rows inserted before the check, when the image does not pass the region's end. -/
theorem inserted_cases {baseWord : Word} (hbase : baseWord.toNat < 2 ^ 30)
    (hfits : blob.length ≤ 4 * ramWords.toNat)
    (hle : baseWord + BitVec.ofNat 32 (blob.length / 4) ≤ baseWord + ramWords) :
    imageRows baseWord blob ++
          zeroFill (baseWord + BitVec.ofNat 32 (blob.length / 4)) (baseWord + ramWords) =
        regionRows baseWord.toNat (words blob ramWords.toNat) ∨
      baseWord.toNat ≠ 0 ∧ ∃ row ∈ imageRows baseWord blob ++
        zeroFill (baseWord + BitVec.ofNat 32 (blob.length / 4)) (baseWord + ramWords),
        row.key = 0 := by
  have hW := ramWords.isLt
  have hcount : (BitVec.ofNat 32 (blob.length / 4)).toNat = blob.length / 4 := by
    rw [BitVec.toNat_ofNat]
    omega
  rw [zeroFill_eq hle]
  rw [BitVec.le_def, BitVec.toNat_add, BitVec.toNat_add, hcount] at hle
  rw [BitVec.toNat_add, BitVec.toNat_add, hcount]
  by_cases hwrap : baseWord.toNat + ramWords.toNat ≤ 2 ^ 32
  · left
    rw [imageRows_eq (by omega), words, regionRows_append, List.length_map, List.length_range]
    congr 1
    by_cases hend : baseWord.toNat + blob.length / 4 = 2 ^ 32
    · have h0 : ramWords.toNat - blob.length / 4 = 0 := by omega
      have h1 : (baseWord.toNat + ramWords.toNat) % 2 ^ 32 -
        (baseWord.toNat + blob.length / 4) % 2 ^ 32 = 0 := by omega
      rw [h0, h1]
      rfl
    · have h0 : (baseWord.toNat + blob.length / 4) % 2 ^ 32 = baseWord.toNat + blob.length / 4 := by
        omega
      have h1 : (baseWord.toNat + ramWords.toNat) % 2 ^ 32 -
        (baseWord.toNat + blob.length / 4) = ramWords.toNat - blob.length / 4 := by omega
      rw [h0, h1]
  · -- the region wraps: its word at address 0 is inserted, below the base
    right
    refine ⟨by omega, ?_⟩
    simp only [List.mem_append]
    by_cases hend : baseWord.toNat + blob.length / 4 = 2 ^ 32
    · refine ⟨⟨0, 0, 0⟩, Or.inr ?_, rfl⟩
      rw [regionRows, List.mem_map]
      refine ⟨(0, 0), ?_, by simp [hend]⟩
      rw [List.mk_mem_zipIdx_iff_getElem?, List.getElem?_replicate]
      exact if_pos (by omega)
    · refine ⟨_, Or.inl (List.mem_map.mpr ⟨2 ^ 32 - baseWord.toNat, ?_, rfl⟩), ?_⟩
      · rw [List.mem_range]
        omega
      · change (baseWord + BitVec.ofNat 32 _).toNat = 0
        rw [BitVec.toNat_add, BitVec.toNat_ofNat]
        omega

theorem min?_getD_keys_eq_zero {ram : Rows} (h : ∃ row ∈ ram, row.key = 0) :
    (Table.keys ram).min?.getD 0 = 0 := by
  have hmem : 0 ∈ Table.keys ram := Table.mem_keys.mpr h
  cases hmin : (Table.keys ram).min? with
  | none => rfl
  | some a => exact Nat.le_zero.mp ((List.min?_eq_some_iff.mp hmin).2 0 hmem)

/-- A load that returned inserted the region's rows, and the table has as many keys as
the region has words. -/
theorem load_ok (hfits : blob.length ≤ 4 * ramWords.toNat)
    (h : (load sha256Hex path ram manifest blob ramWords).1 = .ok loaded) :
    (load sha256Hex path ram manifest blob ramWords).2 =
        ram ++ regionRows loaded.baseWord.toNat (words blob ramWords.toNat) ∧
      (Table.keys (ram ++ regionRows loaded.baseWord.toNat (words blob ramWords.toNat))).length =
        ramWords.toNat := by
  cases hcheck : check sha256Hex path manifest blob with
  | error e =>
    rw [load, hcheck] at h
    cases h
  | ok baseWord =>
    obtain ⟨-, hbase⟩ := check_ok hcheck
    simp only [load, hcheck] at h ⊢
    split_ifs at h ⊢ with hover hdense
    simp only [density, not_or, not_not] at hdense
    obtain ⟨-, hrows, hlowest⟩ := hdense
    injection h with h
    subst h
    rcases inserted_cases hbase hfits (BitVec.not_lt.mp hover) with hrows' | ⟨hne, row, hrow, hkey⟩
    · rw [List.append_assoc, hrows'] at hrows ⊢
      exact ⟨rfl, hrows⟩
    · rw [min?_getD_keys_eq_zero] at hlowest
      · exact absurd hlowest.symm hne
      · refine ⟨row, ?_, hkey⟩
        rw [List.append_assoc]
        exact List.mem_append_right _ hrow

/-! ## What the table reads -/

theorem mem_regionRows {base : Nat} {ws : List Word} {row : TableRow Nat Word} :
    row ∈ regionRows base ws ↔
      ∃ i, ∃ w, ws[i]? = some w ∧ row = { key := base + i, value := w, version := 0 } := by
  rw [regionRows, List.mem_map]
  constructor
  · rintro ⟨⟨w, i⟩, hmem, rfl⟩
    exact ⟨i, w, List.mk_mem_zipIdx_iff_getElem?.mp hmem, rfl⟩
  · rintro ⟨i, w, hw, rfl⟩
    exact ⟨(w, i), List.mk_mem_zipIdx_iff_getElem?.mpr hw, rfl⟩

theorem kept_regionRows {base i : Nat} {ws : List Word} {w : Word} (hw : ws[i]? = some w) :
    Table.kept (regionRows base ws) (base + i) =
      some { key := base + i, value := w, version := 0 } := by
  have hmem : { key := base + i, value := w, version := 0 } ∈ regionRows base ws :=
    mem_regionRows.mpr ⟨i, w, hw, rfl⟩
  cases hkept : Table.kept (regionRows base ws) (base + i) with
  | none => exact absurd rfl (Table.kept_none.mp hkept _ hmem)
  | some row =>
    obtain ⟨hrow, hkey, -⟩ := Table.kept_some hkept
    obtain ⟨j, w', hw', rfl⟩ := mem_regionRows.mp hrow
    obtain rfl : j = i := Nat.add_left_cancel hkey
    rw [hw] at hw'
    cases hw'
    rfl

/-- Under a word of the region the table reads what was loaded, unless the row kept
before has a version above 0 and another value. -/
theorem final_append_regionRows {base i : Nat} {ws : List Word} {w : Word}
    (hw : ws[i]? = some w) :
    Table.final (ram ++ regionRows base ws) (base + i) = some w ↔
      ∀ row, Table.kept ram (base + i) = some row → row.version = 0 ∨ some w = some row.value := by
  have hkept : Table.kept (ram ++ regionRows base ws) (base + i) =
      TableRow.newest (Table.kept ram (base + i))
        (some { key := base + i, value := w, version := 0 }) := by
    rw [← kept_regionRows hw, Table.kept, List.filter_append, List.foldl_append,
      TableRow.foldl_newer]
    rfl
  rw [Table.final, hkept]
  cases Table.kept ram (base + i) with
  | none => simp [TableRow.newest, TableRow.newer]
  | some row =>
    by_cases hversion : row.version = 0
    · simp [TableRow.newest, TableRow.newer, hversion]
    · simp [TableRow.newest, TableRow.newer, hversion, eq_comm]

/-- A table with one key for each word of the region reads in order what it reads under
each. -/
theorem established_iff_final {base : Nat} (hfits : blob.length ≤ 4 * ramWords.toNat)
    (hkeys : Table.keys ram = List.range' base ramWords.toNat) :
    Established ram base ramWords.toNat blob ↔
      ∀ i < ramWords.toNat, Table.final ram (base + i) = (words blob ramWords.toNat)[i]? := by
  have hlen : (words blob ramWords.toNat).length = (Table.keys ram).length := by
    rw [length_words hfits, hkeys, List.length_range']
  rw [Established, ← hkeys, Table.readFinal_eq_zip hlen, hkeys]
  constructor
  · intro h i hi
    refine h i _ ?_
    rw [List.getElem?_range' hi, Nat.one_mul]
  · intro h i k hk
    obtain ⟨hi, rfl⟩ := List.getElem?_eq_some_iff.mp hk
    rw [List.length_range'] at hi
    rw [List.getElem_range', Nat.one_mul]
    exact h i hi

/-- The keys after a load are the region's words. -/
theorem keys_eq_range' {base : Nat} {ws : List Word}
    (h : (Table.keys (ram ++ regionRows base ws)).length = ws.length) :
    Table.keys (ram ++ regionRows base ws) = List.range' base ws.length := by
  have hsub : List.range' base ws.length ⊆ Table.keys (ram ++ regionRows base ws) := by
    intro k hk
    obtain ⟨i, hi, rfl⟩ := List.mem_range'.mp hk
    rw [Nat.one_mul]
    refine Table.mem_keys.mpr ⟨_, List.mem_append_right _ (mem_regionRows.mpr
      ⟨i, _, List.getElem?_eq_getElem hi, rfl⟩), rfl⟩
  have hperm : (List.range' base ws.length).Perm (Table.keys (ram ++ regionRows base ws)) := by
    refine ((List.nodup_range' _).subperm hsub).perm_of_length_le ?_
    rw [h, List.length_range']
  exact (hperm.eq_of_pairwise' ((List.pairwise_lt_range' _).imp le_of_lt)
    ((Table.pairwise_keys _).imp le_of_lt)).symm

theorem established_iff_replaceable {base : Nat} (hfits : blob.length ≤ 4 * ramWords.toNat)
    (hcount : (Table.keys (ram ++ regionRows base (words blob ramWords.toNat))).length =
      ramWords.toNat) :
    Established (ram ++ regionRows base (words blob ramWords.toNat)) base ramWords.toNat blob ↔
      Replaceable ram base ramWords.toNat blob := by
  have hlen := length_words hfits
  have hkeys := keys_eq_range' (hcount.trans hlen.symm)
  rw [hlen] at hkeys
  rw [established_iff_final hfits hkeys, Replaceable]
  refine forall_congr' fun i => forall_congr' fun hi => ?_
  have hw := List.getElem?_eq_getElem (hi.trans_eq hlen.symm)
  rw [hw]
  exact final_append_regionRows hw

/-- A load that returned established RAM exactly if every row it met could be replaced. -/
theorem load_established_iff (hfits : blob.length ≤ 4 * ramWords.toNat)
    (h : (load sha256Hex path ram manifest blob ramWords).1 = .ok loaded) :
    Established (load sha256Hex path ram manifest blob ramWords).2 loaded.baseWord.toNat
        ramWords.toNat blob ↔
      Replaceable ram loaded.baseWord.toNat ramWords.toNat blob := by
  obtain ⟨hrows, hcount⟩ := load_ok hfits h
  rw [hrows]
  exact established_iff_replaceable hfits hcount

end

/-! ## A word that was there before -/

/-- A table that has one row, for the first word of RAM. -/
def oneWord (version : Nat) : Rows := [{ key := 536870912, value := 7, version }]

/-- An image of one word. -/
def oneWordImage : List Byte := [1, 0, 0, 0]

/-- A manifest that declares nothing. -/
def noManifest : Manifest := { loadAddr := none, size := none, sha256 := none }

theorem load_oneWord (version : Nat) :
    (load (fun _ => "") "rom.bin" (oneWord version) noManifest oneWordImage 1).1 =
      .ok { words := 1, bytes := 4, baseWord := 536870912, ramWords := 1 } := by
  have hkeys : Table.keys (oneWord version ++ imageRows 536870912 oneWordImage ++
      zeroFill 536870913 536870913) = [536870912] := by
    apply Table.keys_eq (by simp)
    intro k
    simp [oneWord, imageRows, zeroFill, oneWordImage, eq_comm]
  have hcheck : check (fun _ => "") "rom.bin" noManifest oneWordImage = .ok 536870912 := by decide
  have hdensity : density (oneWord version ++ imageRows 536870912 oneWordImage ++
      zeroFill 536870913 536870913) = (1, 1, 536870912) := by
    rw [density, hkeys]
    rfl
  have hend : (536870912 : Word) + BitVec.ofNat 32 (oneWordImage.length / 4) = 536870913 := by decide
  have hregion : (536870912 : Word) + 1 = 536870913 := by decide
  rw [load, hcheck]
  simp only [hend, hregion, hdensity]
  rfl

/-- A row of an earlier load is replaced. -/
theorem load_established_iff_loaded :
    Established (load (fun _ => "") "rom.bin" (oneWord 0) noManifest oneWordImage 1).2 536870912 1
      oneWordImage := by
  refine (load_established_iff (by decide) (load_oneWord 0)).mpr ?_
  intro i hi row hrow
  obtain rfl : i = 0 := by
    change i < 1 at hi
    omega
  have hkept : Table.kept (oneWord 0) 536870912 = some ⟨536870912, 7, 0⟩ := by decide
  obtain rfl := Option.some.inj (hkept.symm.trans hrow)
  exact Or.inl rfl

/-- A row an earlier run flushed is not: the load returns, and the word read is the old
one. -/
theorem flushed_row_survives :
    (load (fun _ => "") "rom.bin" (oneWord 1) noManifest oneWordImage 1).1 =
        .ok { words := 1, bytes := 4, baseWord := 536870912, ramWords := 1 } ∧
      ¬Established (load (fun _ => "") "rom.bin" (oneWord 1) noManifest oneWordImage 1).2
        536870912 1 oneWordImage := by
  have hload := load_oneWord 1
  refine ⟨hload, ?_⟩
  obtain ⟨hrows, hcount⟩ := load_ok (by decide) hload
  rw [hrows]
  intro h
  have hreplaceable := (established_iff_replaceable (by decide) hcount).mp h
  have hkept : Table.kept (oneWord 1) 536870912 = some ⟨536870912, 7, 1⟩ := by decide
  rcases hreplaceable 0 (by decide) _ hkept with hversion | hvalue
  · cases hversion
  · revert hvalue
    decide

end Rom
end ClickDoom
