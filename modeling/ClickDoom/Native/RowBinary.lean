import ClickDoom.Base.Bytes

/-! # Rows a resident statement reads

`native/src/resident/rowbinary.rs`: a row under construction, the LEB128 length of
a `String`, and the padding row that opens a statement's body.  Nothing frames a
row or a column, so the reader is given the types of the columns.  It is the
RowBinary reader of the server: fixed-width integers least significant byte first,
a variable-length count of at most ten bytes, and as many bytes as it says.
-/
namespace ClickDoom.Native
open LittleEndian (Byte bytes value value_bytes)

/-! ## Values and their types -/

/-- A byte slice: its length fits the machine's signed size. -/
structure Slice where
  bytes : List Byte
  length_lt : bytes.length < 2 ^ 63

/-- The types a column may have. -/
inductive ColumnKind
  | uint8 | int8 | uint16 | int16 | uint32 | int32 | uint64 | int64 | string
  deriving DecidableEq, Repr

inductive Value
  | u8 (value : UInt8)
  | i8 (value : Int8)
  | u16 (value : UInt16)
  | i16 (value : Int16)
  | u32 (value : UInt32)
  | i32 (value : Int32)
  | u64 (value : UInt64)
  | i64 (value : Int64)
  | bytes (value : Slice)

def Value.kind : Value → ColumnKind
  | .u8 _ => .uint8
  | .i8 _ => .int8
  | .u16 _ => .uint16
  | .i16 _ => .int16
  | .u32 _ => .uint32
  | .i32 _ => .int32
  | .u64 _ => .uint64
  | .i64 _ => .int64
  | .bytes _ => .string

/-! ## The writer -/

/-- Seven bits a byte, low group first, the high bit set on every byte but the
last. -/
def putLeb128 (buf : List Byte) (value : Nat) : List Byte :=
  let group : Byte := BitVec.ofNat 8 value &&& 0x7F#8
  if value >>> 7 = 0 then buf ++ [group]
  else putLeb128 (buf ++ [group ||| 0x80#8]) (value >>> 7)
termination_by value
decreasing_by
  rw [Nat.shiftRight_eq_div_pow] at *
  omega

structure Row where
  buf : List Byte
  deriving DecidableEq

namespace Row

def new : Row := ⟨[]⟩

/-- Appends the low `n` bytes of a value. -/
def putLe {w : Nat} (row : Row) (value : BitVec w) (n : Nat) : Row := ⟨row.buf ++ bytes value n⟩

def u8 (row : Row) (value : UInt8) : Row := row.putLe value.toBitVec 1
def i8 (row : Row) (value : Int8) : Row := row.putLe value.toBitVec 1
def u16 (row : Row) (value : UInt16) : Row := row.putLe value.toBitVec 2
def i16 (row : Row) (value : Int16) : Row := row.putLe value.toBitVec 2
def u32 (row : Row) (value : UInt32) : Row := row.putLe value.toBitVec 4
def i32 (row : Row) (value : Int32) : Row := row.putLe value.toBitVec 4
def u64 (row : Row) (value : UInt64) : Row := row.putLe value.toBitVec 8
def i64 (row : Row) (value : Int64) : Row := row.putLe value.toBitVec 8

/-- A `String`: its length, then its bytes. -/
def bytes (row : Row) (value : Slice) : Row :=
  ⟨putLeb128 row.buf value.bytes.length ++ value.bytes⟩

def finish (row : Row) : List Byte := row.buf

/-- Appends one typed value. -/
def put (row : Row) : Value → Row
  | .u8 v => row.u8 v
  | .i8 v => row.i8 v
  | .u16 v => row.u16 v
  | .i16 v => row.i16 v
  | .u32 v => row.u32 v
  | .i32 v => row.i32 v
  | .u64 v => row.u64 v
  | .i64 v => row.i64 v
  | .bytes v => row.bytes v

end Row

/-- The bytes of a row holding the values, in order. -/
def encode (values : List Value) : List Byte := (values.foldl Row.put Row.new).finish

/-! ## The reader -/

/-- A value of `n` bytes. -/
def readFixed (w n : Nat) (input : List Byte) : Option (BitVec w × List Byte) :=
  if n ≤ input.length then some (value w (input.take n), input.drop n) else none

/-- A count of at most `n` bytes. -/
def readVarUInt : Nat → List Byte → Option (Nat × List Byte)
  | 0, _ => none
  | _ + 1, [] => none
  | n + 1, b :: input =>
    if b.toNat < 128 then some (b.toNat, input)
    else (readVarUInt n input).map fun (v, rest) => (b.toNat % 128 + 128 * v, rest)

def readString (input : List Byte) : Option (Slice × List Byte) :=
  match readVarUInt 10 input with
  | none => none
  | some (n, rest) =>
    if h : n ≤ rest.length ∧ n < 2 ^ 63 then
      some (⟨rest.take n, lt_of_le_of_lt (List.length_take_le n rest) h.2⟩, rest.drop n)
    else none

/-- The value of one column. -/
def decodeValue (input : List Byte) : ColumnKind → Option (Value × List Byte)
  | .uint8 => (readFixed 8 1 input).map fun (v, rest) => (.u8 ⟨v⟩, rest)
  | .int8 => (readFixed 8 1 input).map fun (v, rest) => (.i8 (.ofBitVec v), rest)
  | .uint16 => (readFixed 16 2 input).map fun (v, rest) => (.u16 ⟨v⟩, rest)
  | .int16 => (readFixed 16 2 input).map fun (v, rest) => (.i16 (.ofBitVec v), rest)
  | .uint32 => (readFixed 32 4 input).map fun (v, rest) => (.u32 ⟨v⟩, rest)
  | .int32 => (readFixed 32 4 input).map fun (v, rest) => (.i32 (.ofBitVec v), rest)
  | .uint64 => (readFixed 64 8 input).map fun (v, rest) => (.u64 ⟨v⟩, rest)
  | .int64 => (readFixed 64 8 input).map fun (v, rest) => (.i64 (.ofBitVec v), rest)
  | .string => (readString input).map fun (v, rest) => (.bytes v, rest)

/-- The values of a row by the types of its columns, and what is left. -/
def decodeRow : List ColumnKind → List Byte → Option (List Value × List Byte)
  | [], input => some ([], input)
  | kind :: kinds, input =>
    match decodeValue input kind with
    | none => none
    | some (v, rest) => (decodeRow kinds rest).map fun (vs, rest) => (v :: vs, rest)

/-! ## One value read back -/

theorem readFixed_bytes {w n : Nat} (hw : w ≤ 8 * n) (v : BitVec w) (rest : List Byte) :
    readFixed w n (bytes v n ++ rest) = some (v, rest) := by
  have hlen : (bytes v n).length = n := LittleEndian.length_bytes v n
  have htake : (bytes v n ++ rest).take n = bytes v n := List.take_left' hlen
  have hdrop : (bytes v n ++ rest).drop n = rest := List.drop_left' hlen
  rw [readFixed, if_pos (by simp [hlen]), htake, hdrop, value_bytes v hw]

theorem putLeb128_append (buf : List Byte) (n : Nat) : putLeb128 buf n = buf ++ putLeb128 [] n := by
  induction n using Nat.strongRecOn generalizing buf with
  | ind n ih =>
    rw [putLeb128, putLeb128.eq_1 []]
    by_cases h : n >>> 7 = 0
    · simp [h]
    · have hlt : n >>> 7 < n := by
        rw [Nat.shiftRight_eq_div_pow] at h ⊢
        omega
      simp only [h, if_false, List.nil_append]
      rw [ih _ hlt (buf ++ _), ih _ hlt [_], List.append_assoc]

theorem toNat_group (n : Nat) : (BitVec.ofNat 8 n &&& 0x7F#8).toNat = n % 128 := by
  rw [BitVec.toNat_and, BitVec.toNat_ofNat, show (0x7F#8).toNat = 2 ^ 7 - 1 from rfl,
    Nat.and_two_pow_sub_one_eq_mod]
  omega

theorem toNat_group_or (n : Nat) :
    ((BitVec.ofNat 8 n &&& 0x7F#8) ||| 0x80#8).toNat = n % 128 + 128 := by
  have hlow := toNat_group n
  generalize BitVec.ofNat 8 n &&& 0x7F#8 = group at hlow ⊢
  rw [BitVec.toNat_or, hlow, show (0x80#8).toNat = 2 ^ 7 * 1 from rfl, Nat.or_comm,
    ← Nat.two_pow_add_eq_or_of_lt (by omega)]
  omega

/-- A count below `128 ^ k` is read back from at most `k` bytes. -/
theorem readVarUInt_putLeb128 {k n : Nat} (hn : n < 128 ^ (k + 1)) (rest : List Byte) :
    readVarUInt (k + 1) (putLeb128 [] n ++ rest) = some (n, rest) := by
  induction k generalizing n with
  | zero =>
    have hzero : n >>> 7 = 0 := by
      rw [Nat.shiftRight_eq_div_pow]
      omega
    rw [putLeb128]
    simp only [hzero, if_true, List.nil_append, List.singleton_append, readVarUInt, toNat_group]
    rw [if_pos (by omega), Nat.mod_eq_of_lt (by omega)]
  | succ k ih =>
    rw [putLeb128]
    by_cases hzero : n >>> 7 = 0
    · simp only [hzero, if_true, List.nil_append, List.singleton_append, readVarUInt, toNat_group]
      rw [Nat.shiftRight_eq_div_pow] at hzero
      rw [if_pos (by omega), Nat.mod_eq_of_lt (by omega)]
    · have hshift : n >>> 7 = n / 128 := Nat.shiftRight_eq_div_pow n 7
      have hdiv : n / 128 < 128 ^ (k + 1) := by
        rw [Nat.pow_succ'] at hn
        exact Nat.div_lt_of_lt_mul hn
      simp only [hzero, if_false, List.nil_append]
      rw [putLeb128_append, List.append_assoc, List.singleton_append, readVarUInt, toNat_group_or,
        if_neg (by omega), hshift, ih hdiv]
      simp only [Option.map_some]
      congr 2
      omega

theorem readString_bytes (v : Slice) (rest : List Byte) :
    readString (putLeb128 [] v.bytes.length ++ (v.bytes ++ rest)) = some (v, rest) := by
  have hcount : readVarUInt 10 (putLeb128 [] v.bytes.length ++ (v.bytes ++ rest)) =
      some (v.bytes.length, v.bytes ++ rest) :=
    readVarUInt_putLeb128 (lt_trans v.length_lt (by norm_num)) _
  rw [readString, hcount]
  dsimp only
  rw [dif_pos ⟨by simp, v.length_lt⟩]
  simp

/-- What a value adds to a row. -/
def valueBytes (v : Value) : List Byte := (Row.new.put v).buf

theorem put_buf (row : Row) (v : Value) : (row.put v).buf = row.buf ++ valueBytes v := by
  cases v with
  | bytes v =>
    change putLeb128 row.buf v.bytes.length ++ v.bytes = row.buf ++ (putLeb128 [] _ ++ v.bytes)
    rw [putLeb128_append, List.append_assoc]
  | _ => rfl

theorem decodeValue_valueBytes (v : Value) (rest : List Byte) :
    decodeValue (valueBytes v ++ rest) v.kind = some (v, rest) := by
  cases v with
  | u8 v =>
    have h : readFixed 8 1 (valueBytes (.u8 v) ++ rest) = some (v.toBitVec, rest) :=
      readFixed_bytes (by omega) v.toBitVec rest
    simp only [Value.kind, decodeValue, h]
    rfl
  | i8 v =>
    have h : readFixed 8 1 (valueBytes (.i8 v) ++ rest) = some (v.toBitVec, rest) :=
      readFixed_bytes (by omega) v.toBitVec rest
    simp only [Value.kind, decodeValue, h, Option.map_some, Int8.ofBitVec_toBitVec]
  | u16 v =>
    have h : readFixed 16 2 (valueBytes (.u16 v) ++ rest) = some (v.toBitVec, rest) :=
      readFixed_bytes (by omega) v.toBitVec rest
    simp only [Value.kind, decodeValue, h]
    rfl
  | i16 v =>
    have h : readFixed 16 2 (valueBytes (.i16 v) ++ rest) = some (v.toBitVec, rest) :=
      readFixed_bytes (by omega) v.toBitVec rest
    simp only [Value.kind, decodeValue, h, Option.map_some, Int16.ofBitVec_toBitVec]
  | u32 v =>
    have h : readFixed 32 4 (valueBytes (.u32 v) ++ rest) = some (v.toBitVec, rest) :=
      readFixed_bytes (by omega) v.toBitVec rest
    simp only [Value.kind, decodeValue, h]
    rfl
  | i32 v =>
    have h : readFixed 32 4 (valueBytes (.i32 v) ++ rest) = some (v.toBitVec, rest) :=
      readFixed_bytes (by omega) v.toBitVec rest
    simp only [Value.kind, decodeValue, h, Option.map_some, Int32.ofBitVec_toBitVec]
  | u64 v =>
    have h : readFixed 64 8 (valueBytes (.u64 v) ++ rest) = some (v.toBitVec, rest) :=
      readFixed_bytes (by omega) v.toBitVec rest
    simp only [Value.kind, decodeValue, h]
    rfl
  | i64 v =>
    have h : readFixed 64 8 (valueBytes (.i64 v) ++ rest) = some (v.toBitVec, rest) :=
      readFixed_bytes (by omega) v.toBitVec rest
    simp only [Value.kind, decodeValue, h, Option.map_some, Int64.ofBitVec_toBitVec]
  | bytes v =>
    have h : readString (valueBytes (.bytes v) ++ rest) = some (v, rest) := by
      have := readString_bytes v rest
      rwa [← List.append_assoc] at this
    simp only [Value.kind, decodeValue, h]
    rfl

/-! ## A row read back -/

theorem buf_foldl (values : List Value) (row : Row) :
    (values.foldl Row.put row).buf = row.buf ++ values.flatMap valueBytes := by
  induction values generalizing row with
  | nil => simp
  | cons v values ih => rw [List.foldl_cons, ih, put_buf, List.flatMap_cons, List.append_assoc]

theorem decodeRow_append (values : List Value) (rest : List Byte) :
    decodeRow (values.map Value.kind) (values.flatMap valueBytes ++ rest) = some (values, rest) := by
  induction values with
  | nil => rfl
  | cons v values ih =>
    rw [List.map_cons, List.flatMap_cons, List.append_assoc, decodeRow, decodeValue_valueBytes]
    dsimp only
    rw [ih]
    rfl

theorem decodeRow_encode (values : List Value) :
    decodeRow (values.map Value.kind) (encode values) = some (values, []) := by
  have h := decodeRow_append values []
  rwa [List.append_nil, ← List.nil_append (values.flatMap valueBytes), ← buf_foldl] at h

/-! ## The padding row -/

/-- What decides a column's encoding: a width in bytes, or text. -/
inductive ColumnType
  | fixed (width : Nat)
  | text
  deriving DecidableEq, Repr

inductive SchemaError
  | shape (column : List Char)
  | type (column found : List Char)
  | noText
  deriving DecidableEq, Repr

def paddingBytes : Nat := 128

/-- `char::is_whitespace`. -/
def isWhitespace (c : Char) : Bool :=
  let n := c.toNat
  (9 ≤ n && n ≤ 13) || n == 0x20 || n == 0x85 || n == 0xA0 || n == 0x1680 ||
    (0x2000 ≤ n && n ≤ 0x200A) || n == 0x2028 || n == 0x2029 || n == 0x202F || n == 0x205F ||
    n == 0x3000

/-- `str::trim`. -/
def trim (s : List Char) : List Char := (s.dropWhile isWhitespace).rdropWhile isWhitespace

/-- `rsplit_once`: what stands before and after the last character that satisfies
the test. -/
def rsplitOnce (p : Char → Bool) (s : List Char) : Option (List Char × List Char) :=
  if s.any p then some ((s.rdropWhile (!p ·)).dropLast, s.rtakeWhile (!p ·)) else none

def columnType (typeName : List Char) : Option ColumnType :=
  if typeName = "UInt8".toList ∨ typeName = "Int8".toList then some (.fixed 1)
  else if typeName = "UInt16".toList ∨ typeName = "Int16".toList then some (.fixed 2)
  else if typeName = "UInt32".toList ∨ typeName = "Int32".toList then some (.fixed 4)
  else if typeName = "UInt64".toList ∨ typeName = "Int64".toList then some (.fixed 8)
  else if typeName = "String".toList then some .text
  else none

/-- The columns of a schema, as texts. -/
def schemaColumns (inputSchema : List Char) : List (List Char) :=
  ((inputSchema.splitOn ',').map trim).filter (!·.isEmpty)

def parseColumn (column : List Char) : Except SchemaError ColumnType :=
  match rsplitOnce isWhitespace column with
  | none => .error (.shape column)
  | some (_, typeName) =>
    match columnType typeName with
    | none => .error (.type column typeName)
    | some t => .ok t

/-- The types of the columns; the first column that has none is the error. -/
def parseSchema (inputSchema : List Char) : Except SchemaError (List ColumnType) :=
  (schemaColumns inputSchema).mapM parseColumn

def pad : Slice := ⟨List.replicate paddingBytes 0x30#8, by simp [paddingBytes]⟩

/-- Appends a column of the padding row. -/
def Row.putPadding (row : Row) : ColumnType → Row
  | .fixed width => (List.range width).foldl (fun row _ => row.u8 0) row
  | .text => row.bytes pad

def paddingRow (inputSchema : List Char) : Except SchemaError (List Byte) := do
  let columns ← parseSchema inputSchema
  if .text ∉ columns then
    throw .noText
  return (columns.foldl Row.putPadding Row.new).finish

/-! ## What the reader makes of it -/

namespace ColumnKind

def ofName (typeName : List Char) : Option ColumnKind :=
  if typeName = "UInt8".toList then some .uint8
  else if typeName = "Int8".toList then some .int8
  else if typeName = "UInt16".toList then some .uint16
  else if typeName = "Int16".toList then some .int16
  else if typeName = "UInt32".toList then some .uint32
  else if typeName = "Int32".toList then some .int32
  else if typeName = "UInt64".toList then some .uint64
  else if typeName = "Int64".toList then some .int64
  else if typeName = "String".toList then some .string
  else none

def columnType : ColumnKind → ColumnType
  | uint8 | int8 => .fixed 1
  | uint16 | int16 => .fixed 2
  | uint32 | int32 => .fixed 4
  | uint64 | int64 => .fixed 8
  | string => .text

/-- Zero, or the padding text. -/
def paddingValue : ColumnKind → Value
  | uint8 => .u8 0
  | int8 => .i8 0
  | uint16 => .u16 0
  | int16 => .i16 0
  | uint32 => .u32 0
  | int32 => .i32 0
  | uint64 => .u64 0
  | int64 => .i64 0
  | string => .bytes pad

@[simp] theorem kind_paddingValue (k : ColumnKind) : k.paddingValue.kind = k := by cases k <;> rfl

theorem columnType_eq (typeName : List Char) :
    Native.columnType typeName = (ofName typeName).map columnType := by
  by_cases h1 : typeName = "UInt8".toList
  · subst h1; decide
  by_cases h2 : typeName = "Int8".toList
  · subst h2; decide
  by_cases h3 : typeName = "UInt16".toList
  · subst h3; decide
  by_cases h4 : typeName = "Int16".toList
  · subst h4; decide
  by_cases h5 : typeName = "UInt32".toList
  · subst h5; decide
  by_cases h6 : typeName = "Int32".toList
  · subst h6; decide
  by_cases h7 : typeName = "UInt64".toList
  · subst h7; decide
  by_cases h8 : typeName = "Int64".toList
  · subst h8; decide
  by_cases h9 : typeName = "String".toList
  · subst h9; decide
  simp only [Native.columnType, ofName, h1, h2, h3, h4, h5, h6, h7, h8, h9, or_self, if_false,
    Option.map_none]

end ColumnKind

/-- The types of a schema's columns in the order it lists them. -/
def schemaKinds (inputSchema : List Char) : Option (List ColumnKind) :=
  (schemaColumns inputSchema).mapM fun column =>
    (rsplitOnce isWhitespace column).bind fun (_, typeName) => ColumnKind.ofName typeName

theorem buf_putPadding (row : Row) (k : ColumnKind) :
    (row.putPadding k.columnType).buf = row.buf ++ valueBytes k.paddingValue := by
  cases k with
  | string =>
    rw [← put_buf]
    rfl
  | _ =>
    simp only [ColumnKind.columnType, Row.putPadding, List.range_succ, List.range_zero,
      List.nil_append, List.foldl_append, List.foldl_cons, List.foldl_nil, Row.u8, Row.putLe,
      List.append_assoc]
    rfl

theorem buf_foldl_putPadding (kinds : List ColumnKind) (row : Row) :
    ((kinds.map ColumnKind.columnType).foldl Row.putPadding row).buf =
      row.buf ++ (kinds.map ColumnKind.paddingValue).flatMap valueBytes := by
  induction kinds generalizing row with
  | nil => simp
  | cons k kinds ih =>
    rw [List.map_cons, List.map_cons, List.foldl_cons, ih, buf_putPadding, List.flatMap_cons,
      List.append_assoc]

/-- A column the parser takes is one the reader has a type for. -/
theorem kind_of_parseColumn {column : List Char} {t : ColumnType} (h : parseColumn column = .ok t) :
    ∃ k : ColumnKind, k.columnType = t ∧
      (rsplitOnce isWhitespace column).bind (fun (_, typeName) => ColumnKind.ofName typeName) =
        some k := by
  unfold parseColumn at h
  cases hsplit : rsplitOnce isWhitespace column with
  | none =>
    rw [hsplit] at h
    cases h
  | some pair =>
    rw [hsplit] at h
    dsimp only at h
    rw [ColumnKind.columnType_eq] at h
    cases hname : ColumnKind.ofName pair.2 with
    | none =>
      rw [hname] at h
      cases h
    | some k =>
      rw [hname] at h
      cases h
      exact ⟨k, rfl, hname⟩

theorem kinds_of_mapM {columns : List (List Char)} {types : List ColumnType}
    (h : columns.mapM parseColumn = .ok types) :
    ∃ kinds : List ColumnKind, kinds.map ColumnKind.columnType = types ∧
      columns.mapM (fun column => (rsplitOnce isWhitespace column).bind fun (_, typeName) =>
        ColumnKind.ofName typeName) = some kinds := by
  induction columns generalizing types with
  | nil =>
    cases h
    exact ⟨[], rfl, rfl⟩
  | cons column columns ih =>
    rw [List.mapM_cons] at h
    cases hcolumn : parseColumn column with
    | error e =>
      rw [hcolumn] at h
      cases h
    | ok t =>
      cases hrest : columns.mapM parseColumn with
      | error e =>
        rw [hcolumn, hrest] at h
        cases h
      | ok ts =>
        rw [hcolumn, hrest] at h
        cases h
        obtain ⟨k, rfl, hk⟩ := kind_of_parseColumn hcolumn
        obtain ⟨kinds, rfl, hkinds⟩ := ih hrest
        exact ⟨k :: kinds, rfl, by rw [List.mapM_cons, hk, hkinds]; rfl⟩

theorem decodeRow_paddingRow {inputSchema : List Char} {row : List Byte}
    (h : paddingRow inputSchema = .ok row) :
    ∃ kinds, schemaKinds inputSchema = some kinds ∧
      decodeRow kinds row = some (kinds.map ColumnKind.paddingValue, []) := by
  unfold paddingRow at h
  cases htypes : parseSchema inputSchema with
  | error e =>
    rw [htypes] at h
    cases h
  | ok types =>
    rw [htypes] at h
    obtain ⟨kinds, rfl, hkinds⟩ := kinds_of_mapM htypes
    simp only [bind, Except.bind] at h
    split_ifs at h
    · cases h
      refine ⟨kinds, hkinds, ?_⟩
      have hrow := decodeRow_append (kinds.map ColumnKind.paddingValue) []
      have hmap : (kinds.map ColumnKind.paddingValue).map Value.kind = kinds := by
        rw [List.map_map, show Value.kind ∘ ColumnKind.paddingValue = id from
          funext ColumnKind.kind_paddingValue, List.map_id]
      rw [hmap, List.append_nil] at hrow
      rw [Row.finish, buf_foldl_putPadding]
      exact hrow

/-- **Rows are decodable.**  Whatever values a row is built from, reading its bytes
by their types gives them back and consumes every byte; and the padding row of a
schema that has one reads as one row, every column in the schema's order at its
padding value. -/
theorem rowBinary_decodable :
    (∀ values : List Value, decodeRow (values.map Value.kind) (encode values) = some (values, [])) ∧
      ∀ inputSchema row, paddingRow inputSchema = .ok row →
        ∃ kinds, schemaKinds inputSchema = some kinds ∧
          decodeRow kinds row = some (kinds.map ColumnKind.paddingValue, []) :=
  ⟨decodeRow_encode, fun _ _ => decodeRow_paddingRow⟩

/-- The padding row of `tic UInt32, pad String`. -/
theorem rowBinary_decodable_tic :
    ∃ row, paddingRow "tic UInt32, pad String".toList = .ok row ∧
      decodeRow [.uint32, .string] row = some ([.u32 0, .bytes pad], []) := by
  have hkinds : schemaKinds "tic UInt32, pad String".toList = some [.uint32, .string] := by
    decide +kernel
  obtain ⟨kinds, hk, hdecode⟩ := rowBinary_decodable.2 "tic UInt32, pad String".toList _ rfl
  obtain rfl := Option.some.inj (hkinds.symm.trans hk)
  exact ⟨_, rfl, hdecode⟩

end ClickDoom.Native
