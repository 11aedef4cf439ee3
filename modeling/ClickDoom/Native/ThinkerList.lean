import ClickDoom.Native.Crossings
import ClickDoom.Native.Lights
import ClickDoom.Native.Planes

/-! # The list of the sector thinkers over a run

The stages that change the list take turns: a press and the lines crossed append thinkers, the lights
and the planes step them, and the planes take the finished ones off.  Two things are followed through
any order of them.  A sector's `specialdata` names a thinker that drives a plane of that sector; an
identity is given out once, as long as no crossed line starts a thinker and the counter stays within
its 32 bits.  Both hold of the list the level starts on.
-/
namespace ClickDoom.Native.ThinkerList
open ClickHouse
open Planes (drivesPlane)

/-- What names a thinker: its identity, its kind and its sector. -/
def key (t : SectorThinker) : UInt32 × Kind × Nat := (t.seq, t.kind, t.sector)

/-! ## Back-pointers -/

/-- A sector's `specialdata` is zero or the slot of a thinker that drives a plane of the sector. -/
def Named (thinkers : List SectorThinker) (specialdata : List Nat) : Prop :=
  ∀ (sector slot : Nat), specialdata[sector]? = some slot → slot ≠ 0 →
    ∃ t, thinkers[slot - 1]? = some t ∧ drivesPlane t.kind = true ∧ t.sector = sector

section
variable {thinkers thinkers' rows : List SectorThinker} {specialdata : List Nat}

/-- A thinker whose key is the one at the same place. -/
theorem exists_of_keys (same : thinkers'.map key = thinkers.map key) {i : Nat} {t : SectorThinker}
    (there : thinkers[i]? = some t) : ∃ t', thinkers'[i]? = some t' ∧
      t'.seq = t.seq ∧ t'.kind = t.kind ∧ t'.sector = t.sector := by
  have keyed : (thinkers'.map key)[i]? = some (key t) := by
    rw [same, List.getElem?_map, there]
    rfl
  rw [List.getElem?_map, Option.map_eq_some_iff] at keyed
  obtain ⟨t', there', keyed⟩ := keyed
  simp only [key, Prod.mk.injEq] at keyed
  exact ⟨t', there', keyed⟩

theorem Named.congr (named : Named thinkers specialdata) (same : thinkers'.map key = thinkers.map key) :
    Named thinkers' specialdata := by
  intro sector slot held some
  obtain ⟨t, there, drives, home⟩ := named sector slot held some
  obtain ⟨t', there', -, kind, home'⟩ := exists_of_keys same there
  exact ⟨t', there', by rw [kind, drives], home'.trans home⟩

/-- Thinkers appended, each named by no sector but its own. -/
theorem Named.append (named : Named thinkers specialdata) {after : List Nat}
    (drives : ∀ t ∈ rows, drivesPlane t.kind = true)
    (new : ∀ (sector slot : Nat), after[sector]? = some slot → specialdata[sector]? = some slot ∨
      ∃ i t, slot = thinkers.length + i + 1 ∧ rows[i]? = some t ∧ t.sector = sector) :
    Named (thinkers ++ rows) after := by
  intro sector slot held some
  rcases new sector slot held with held | ⟨i, t, rfl, there, home⟩
  · obtain ⟨t, there, rest⟩ := named sector slot held some
    exact ⟨t, by rw [List.getElem?_append_left (List.getElem?_eq_some_iff.1 there).1, there], rest⟩
  · refine ⟨t, ?_, drives t (List.mem_of_getElem? there), home⟩
    rwa [Nat.add_sub_cancel, List.getElem?_append_right (Nat.le_add_right _ _),
      Nat.add_sub_cancel_left]

/-- The slot a kept thinker moves to. -/
theorem getElem?_thinkerSlot (keep : SectorThinker → Bool) {slot : Nat} {t : SectorThinker}
    (named : slot ≠ 0) (there : thinkers[slot - 1]? = some t) (kept : keep t = true) :
    (thinkers.filter keep)[Planes.thinkerSlot (thinkers.map keep) slot - 1]? = some t := by
  obtain ⟨i, rfl⟩ := Nat.exists_eq_add_one_of_ne_zero named
  rw [Nat.add_sub_cancel] at there
  obtain ⟨inside, rfl⟩ := List.getElem?_eq_some_iff.1 there
  have cut : thinkers.filter keep = (thinkers.take i).filter keep ++
      thinkers[i] :: (thinkers.drop (i + 1)).filter keep := by
    conv_lhs => rw [← List.take_append_drop i thinkers, List.drop_eq_getElem_cons inside,
      List.filter_append, List.filter_cons_of_pos kept]
  have count : Planes.thinkerSlot (thinkers.map keep) (i + 1) =
      ((thinkers.take i).filter keep).length + 1 := by
    have here : (thinkers.map keep).getD i false = true := by
      rw [List.getD_eq_getElem?_getD, List.getElem?_map, there]
      exact kept
    rw [Planes.thinkerSlot, Nat.add_sub_cancel, if_pos ⟨named, here⟩, ← List.map_take,
      List.take_succ_eq_append_getElem inside, List.map_append, List.count_append, List.count,
      List.countP_map, List.countP_eq_length_filter]
    simp [kept, Function.comp_def]
  rw [cut, count, Nat.add_sub_cancel, List.getElem?_append_right le_rfl, Nat.sub_self]
  rfl

/-- A slot left of the sectors whose thinkers came off the list is one of the sector's, and the sector
is none of theirs. -/
theorem getElem?_cleared {gone : List SectorThinker} {sector slot : Nat}
    (held : (gone.foldl (fun acc t => acc.set t.sector 0) specialdata)[sector]? = some slot)
    (named : slot ≠ 0) :
    specialdata[sector]? = some slot ∧ ∀ t ∈ gone, t.sector ≠ sector := by
  induction gone generalizing specialdata with
  | nil => exact ⟨held, by simp⟩
  | cons t gone ih =>
    obtain ⟨before, others⟩ := ih held
    have apart : t.sector ≠ sector := by
      rintro rfl
      rw [List.getElem?_set_self'] at before
      cases at_ : specialdata[t.sector]? with
      | none => simp [at_] at before
      | some old =>
        rw [at_] at before
        exact named (Option.some.inj before).symm
    rw [List.getElem?_set_ne apart] at before
    exact ⟨before, List.forall_mem_cons.2 ⟨apart, others⟩⟩

/-- Finished thinkers taken off the list, their sectors cleared. -/
theorem Named.remove (named : Named thinkers specialdata) (keep : SectorThinker → Bool) :
    Named (thinkers.filter keep)
      (((thinkers.filter fun t => !keep t).foldl (fun acc t => acc.set t.sector 0) specialdata).map
        (Planes.thinkerSlot (thinkers.map keep))) := by
  intro sector slot held some
  rw [List.getElem?_map, Option.map_eq_some_iff] at held
  obtain ⟨old, held, rfl⟩ := held
  have was : old ≠ 0 := by
    rintro rfl
    simp [Planes.thinkerSlot] at some
  obtain ⟨before, others⟩ := getElem?_cleared held was
  obtain ⟨t, there, drives, home⟩ := named sector old before was
  have kept : keep t = true := by
    by_contra gone
    exact others t (List.mem_filter.2 ⟨List.mem_of_getElem? there, by simp [gone]⟩) home
  exact ⟨t, getElem?_thinkerSlot keep was there kept, drives, home⟩

end

/-! ## Identities -/

/-- The identities ascend along the list, and the next one is above them. -/
structure Identified (thinkers : List SectorThinker) (nextSeq : UInt32) : Prop where
  ascending : thinkers.Pairwise fun t u => t.seq < u.seq
  fresh : ∀ t ∈ thinkers, t.seq < nextSeq

section
variable {thinkers thinkers' rows : List SectorThinker} {nextSeq : UInt32}

theorem identified_iff : Identified thinkers nextSeq ↔
    (thinkers.map (·.seq)).Pairwise (· < ·) ∧ ∀ seq ∈ thinkers.map (·.seq), seq < nextSeq := by
  rw [List.pairwise_map, List.forall_mem_map]
  exact ⟨fun ids => ⟨ids.ascending, ids.fresh⟩, fun ids => ⟨ids.1, ids.2⟩⟩

/-- The identities from one on, as the columns hold them. -/
def seqsFrom (first count : Nat) : List UInt32 := (List.range' first count).map UInt32.ofNat

theorem seqsFrom_append (first count more : Nat) :
    seqsFrom first count ++ seqsFrom (first + count) more = seqsFrom first (count + more) := by
  rw [seqsFrom, seqsFrom, seqsFrom, ← List.map_append, List.range'_append_1]

/-- Within 32 bits they are the numbers they stand for. -/
theorem mem_seqsFrom {first count : Nat} {seq : UInt32} (room : first + count ≤ UInt32.size)
    (there : seq ∈ seqsFrom first count) : first ≤ seq.toNat ∧ seq.toNat < first + count := by
  obtain ⟨n, inside, rfl⟩ := List.mem_map.1 there
  have range := List.mem_range'_1.1 inside
  rwa [UInt32.toNat_ofNat_of_lt' (range.2.trans_le room)]

theorem pairwise_seqsFrom {first count : Nat} (room : first + count ≤ UInt32.size) :
    (seqsFrom first count).Pairwise (· < ·) := by
  rw [seqsFrom, List.pairwise_map]
  refine List.Pairwise.imp_of_mem (fun {n m} low high less => ?_) List.pairwise_lt_range'
  have low := (List.mem_range'_1.1 low).2.trans_le room
  have high := (List.mem_range'_1.1 high).2.trans_le room
  rwa [UInt32.lt_iff_toNat_lt, UInt32.toNat_ofNat_of_lt' low, UInt32.toNat_ofNat_of_lt' high]

theorem seqs_of_keys (same : thinkers'.map key = thinkers.map key) :
    thinkers'.map (·.seq) = thinkers.map (·.seq) := by
  have seqs := congrArg (List.map Prod.fst) same
  rwa [List.map_map, List.map_map] at seqs

theorem Identified.congr (ids : Identified thinkers nextSeq)
    (same : thinkers'.map key = thinkers.map key) : Identified thinkers' nextSeq := by
  rw [identified_iff, seqs_of_keys same]
  exact identified_iff.1 ids

/-- Rows that take the identities from the next one on. -/
theorem Identified.ascending_append (ids : Identified thinkers nextSeq)
    (numbered : rows.map (·.seq) = seqsFrom nextSeq.toNat rows.length)
    (room : nextSeq.toNat + rows.length ≤ UInt32.size) :
    (thinkers ++ rows).Pairwise fun t u => t.seq < u.seq := by
  rw [identified_iff] at ids
  rw [← List.pairwise_map, List.map_append, numbered]
  refine List.pairwise_append.2 ⟨ids.1, pairwise_seqsFrom room, fun seq there seq' new => ?_⟩
  have low := (mem_seqsFrom room new).1
  exact UInt32.lt_of_lt_of_le (ids.2 seq there) (UInt32.le_iff_toNat_le.2 low)

/-- The counter moves past them, as long as it does not wrap. -/
theorem Identified.append (ids : Identified thinkers nextSeq)
    (numbered : rows.map (·.seq) = seqsFrom nextSeq.toNat rows.length)
    (room : nextSeq.toNat + rows.length < UInt32.size) :
    Identified (thinkers ++ rows) (UInt32.ofNat (nextSeq.toNat + rows.length)) := by
  refine ⟨ids.ascending_append numbered room.le, fun t there => ?_⟩
  rw [UInt32.lt_iff_toNat_lt, UInt32.toNat_ofNat_of_lt' room]
  rcases List.mem_append.1 there with there | new
  · exact (UInt32.lt_iff_toNat_lt.1 (ids.fresh t there)).trans_le (Nat.le_add_right _ _)
  · have seq : t.seq ∈ rows.map (·.seq) := List.mem_map_of_mem new
    rw [numbered] at seq
    exact (mem_seqsFrom room.le seq).2

/-- Rows numbered along a list of sectors, from an identity on. -/
theorem seqs_zipIdx (row : Nat × Nat → SectorThinker) (first : Nat) (sectors : List Nat)
    (numbered : ∀ e, (row e).seq = UInt32.ofNat (first + e.2)) :
    (sectors.zipIdx.map row).map (·.seq) = seqsFrom first sectors.length := by
  rw [List.map_map, show (fun t : SectorThinker => t.seq) ∘ row =
    UInt32.ofNat ∘ (first + ·) ∘ Prod.snd from funext numbered, ← List.map_map, ← List.map_map,
    List.zipIdx_map_snd, List.map_add_range', Nat.add_zero, seqsFrom]

theorem Identified.remove (ids : Identified thinkers nextSeq) (keep : SectorThinker → Bool) :
    Identified (thinkers.filter keep) nextSeq :=
  ⟨ids.ascending.filter _, fun t there => ids.fresh t (List.mem_filter.1 there).1⟩

end

/-! ## A press -/

section
variable (level : Press.Level) (s : Press.State) (line : Nat)

theorem key_heldDirection (opened : Option Press.Opened) (t : SectorThinker) :
    key (Press.heldDirection opened t) = key t := by
  cases opened with
  | none => rfl
  | some opened =>
    cases opened with
    | reopens slot =>
      rw [Press.heldDirection]
      split_ifs <;> rfl
    | oneSided => rfl
    | locked message => rfl
    | makes sector type speed topheight clears => rfl

theorem doorRows_cases (opened : Option Press.Opened) : Press.doorRows s opened = [] ∨
    ∃ t, Press.doorRows s opened = [t] ∧ t.seq = s.nextSeq ∧ t.kind = .door := by
  cases opened with
  | none => exact .inl rfl
  | some opened =>
    cases opened with
    | makes sector type speed topheight clears => exact .inr ⟨_, rfl, rfl, rfl⟩
    | oneSided => exact .inl rfl
    | locked message => exact .inl rfl
    | reopens slot => exact .inl rfl

theorem getElem?_platRows {first i sector : Nat} {sectors : List Nat}
    (there : sectors[i]? = some sector) : ∃ t, (Press.platRows level s first sectors)[i]? = some t ∧
      t.kind = .plat ∧ t.sector = sector := by
  rw [Press.platRows, List.getElem?_map, List.getElem?_zipIdx, there]
  exact ⟨_, rfl, rfl, rfl⟩

/-- The rows a press appends. -/
def pressRows : List SectorThinker :=
  let doors := Press.doorRows s (Press.useOpened level s line)
  doors ++ Press.platRows level s (s.nextSeq.toNat + doors.length) (Press.platSectors level s line)

theorem seqs_pressRows : (pressRows level s line).map (·.seq) =
    seqsFrom s.nextSeq.toNat (pressRows level s line).length := by
  have plats : ∀ first sectors, (Press.platRows level s first sectors).map (·.seq) =
      seqsFrom first sectors.length := by
    intro first sectors
    rw [Press.platRows]
    exact seqs_zipIdx _ _ _ fun _ => rfl
  have length : ∀ first sectors, (Press.platRows level s first sectors).length = sectors.length := by
    intro first sectors
    rw [Press.platRows, List.length_map, List.length_zipIdx]
  rw [pressRows, List.map_append, plats, List.length_append, length, ← seqsFrom_append]
  congr 1
  rcases doorRows_cases s (Press.useOpened level s line) with none | ⟨t, one, seq, -⟩
  · rw [none]
    rfl
  · rw [one]
    refine congrArg (fun seq => [seq]) (seq.trans ?_)
    exact (UInt32.ofNat_toNat).symm

theorem drives_pressRows : ∀ t ∈ pressRows level s line, drivesPlane t.kind = true := by
  intro t there
  rcases List.mem_append.1 there with door | plat
  · rcases doorRows_cases s (Press.useOpened level s line) with none | ⟨t', one, -, kind⟩
    · rw [none] at door
      cases door
    · rw [one, List.mem_singleton] at door
      rw [door, kind]
      rfl
  · obtain ⟨_, -, rfl⟩ := List.mem_map.1 plat
    rfl

variable {level s line}

theorem thinkers_useSpecialLine : (Press.useSpecialLine level s line).thinkers =
    s.thinkers.map (Press.heldDirection (Press.useOpened level s line)) ++ pressRows level s line :=
  rfl

theorem keys_heldDirection :
    (s.thinkers.map (Press.heldDirection (Press.useOpened level s line))).map key =
      s.thinkers.map key := by
  rw [List.map_map]
  exact List.map_congr_left fun t _ => key_heldDirection _ t

theorem Named.useSpecialLine (named : Named s.thinkers s.secSpecialdata) :
    Named (Press.useSpecialLine level s line).thinkers
      (Press.useSpecialLine level s line).secSpecialdata := by
  rw [thinkers_useSpecialLine]
  refine (named.congr keys_heldDirection).append (drives_pressRows level s line) ?_
  intro sector slot held
  rw [Press.useSpecialLine, List.getElem?_mapIdx, Option.map_eq_some_iff] at held
  obtain ⟨old, held, rfl⟩ := held
  rw [List.length_map]
  split_ifs with door plat
  · -- the door the press made
    rcases doorRows_cases s (Press.useOpened level s line) with none | ⟨t, one, -⟩
    · simp [none] at door
    · refine .inr ⟨0, t, rfl, by rw [pressRows, one]; rfl, ?_⟩
      simpa [one] using door
  · obtain ⟨t, there, -, home⟩ := getElem?_platRows level s (List.getElem?_idxOf plat)
    refine .inr ⟨_, t, congrArg (· + 1) (Nat.add_assoc _ _ _), ?_, home⟩
    rw [pressRows, List.getElem?_append_right (Nat.le_add_right _ _), Nat.add_sub_cancel_left]
    exact there
  · exact .inl held

theorem nextSeq_useSpecialLine : (Press.useSpecialLine level s line).nextSeq =
    UInt32.ofNat (s.nextSeq.toNat + (pressRows level s line).length) := by
  rw [pressRows, List.length_append, Press.platRows, List.length_map, List.length_zipIdx,
    ← Nat.add_assoc]
  rfl

theorem Identified.useSpecialLine (ids : Identified s.thinkers s.nextSeq)
    (room : s.nextSeq.toNat + (pressRows level s line).length < UInt32.size) :
    Identified (Press.useSpecialLine level s line).thinkers
      (Press.useSpecialLine level s line).nextSeq := by
  rw [thinkers_useSpecialLine, nextSeq_useSpecialLine]
  exact (ids.congr keys_heldDirection).append (seqs_pressRows level s line) room

end

/-! ## Crossed lines -/

section
open Crossings
variable (level : Press.Level) (s : Press.State) (lines : List Nat)

theorem getElem?_of_indexOf {a : List Nat} {x i : Nat} (found : indexOf a x = i + 1) :
    a[i]? = some x := by
  rw [indexOf] at found
  split_ifs at found with there
  · rw [← Nat.succ.inj found]
    exact List.getElem?_idxOf there

theorem length_platRows : (platRows level s lines).length = (platSectors level s lines).length := by
  rw [platRows, List.length_map, List.length_zipIdx]

theorem length_doorRows : (doorRows level s lines).length = (doorSectors level s lines).length := by
  rw [doorRows, List.length_map, List.length_zipIdx]

theorem length_floorRows :
    (floorRows level s lines).length = (floorSectors level s lines).length := by
  rw [floorRows, List.length_map, List.length_zipIdx]

theorem seqs_rows : (rows level s lines).map (·.seq) =
    seqsFrom s.nextSeq.toNat (rows level s lines).length := by
  have plats : (platRows level s lines).map (·.seq) =
      seqsFrom s.nextSeq.toNat (platSectors level s lines).length := by
    rw [platRows]
    refine seqs_zipIdx _ _ _ ?_
    rintro ⟨sec, i⟩
    rfl
  have doors : (doorRows level s lines).map (·.seq) = seqsFrom
      (s.nextSeq.toNat + (platSectors level s lines).length) (doorSectors level s lines).length := by
    rw [doorRows]
    refine seqs_zipIdx _ _ _ ?_
    rintro ⟨sec, i⟩
    rfl
  have floors : (floorRows level s lines).map (·.seq) = seqsFrom
      (s.nextSeq.toNat + (platSectors level s lines).length + (doorSectors level s lines).length)
      (floorSectors level s lines).length := by
    rw [floorRows]
    refine seqs_zipIdx _ _ _ ?_
    rintro ⟨sec, i⟩
    rfl
  rw [rows, List.map_append, List.map_append, plats, doors, floors, List.length_append,
    List.length_append, length_platRows, length_doorRows, length_floorRows, seqsFrom_append,
    Nat.add_assoc, seqsFrom_append]

theorem drives_rows : ∀ t ∈ rows level s lines, drivesPlane t.kind = true := by
  intro t there
  rcases List.mem_append.1 there with there | there
  · rcases List.mem_append.1 there with there | there
    · obtain ⟨_, -, rfl⟩ := List.mem_map.1 there
      rfl
    · obtain ⟨_, -, rfl⟩ := List.mem_map.1 there
      rfl
  · obtain ⟨_, -, rfl⟩ := List.mem_map.1 there
    rfl

/-- The row of a sector at its place among the sectors. -/
theorem getElem?_row {row : Nat × Nat → SectorThinker} {sectors : List Nat} {i sector : Nat}
    (home : ∀ e, (row e).sector = e.1 - 1) (there : sectors[i]? = some (sector + 1)) :
    ∃ t, (sectors.zipIdx.map row)[i]? = some t ∧ t.sector = sector := by
  rw [List.getElem?_map, List.getElem?_zipIdx, there]
  exact ⟨_, rfl, home _⟩

theorem getElem?_platRow {i sector : Nat} (there : (platSectors level s lines)[i]? = some (sector + 1)) :
    ∃ t, (platRows level s lines)[i]? = some t ∧ t.sector = sector := by
  rw [platRows]
  refine getElem?_row ?_ there
  rintro ⟨sec, i⟩
  rfl

theorem getElem?_doorRow {i sector : Nat} (there : (doorSectors level s lines)[i]? = some (sector + 1)) :
    ∃ t, (doorRows level s lines)[i]? = some t ∧ t.sector = sector := by
  rw [doorRows]
  refine getElem?_row ?_ there
  rintro ⟨sec, i⟩
  rfl

theorem getElem?_floorRow {i sector : Nat}
    (there : (floorSectors level s lines)[i]? = some (sector + 1)) :
    ∃ t, (floorRows level s lines)[i]? = some t ∧ t.sector = sector := by
  rw [floorRows]
  refine getElem?_row ?_ there
  rintro ⟨sec, i⟩
  rfl

variable {level s lines}

theorem Named.crossDispatch (named : Named s.thinkers s.secSpecialdata) :
    Named (s.thinkers ++ rows level s lines) (specialdata level s lines) := by
  refine named.append (drives_rows level s lines) ?_
  intro sector slot held
  rw [specialdata, List.getElem?_mapIdx, Option.map_eq_some_iff] at held
  obtain ⟨old, held, rfl⟩ := held
  split_ifs with plat door floor
  · obtain ⟨i, found⟩ := Nat.exists_eq_add_one_of_ne_zero plat
    obtain ⟨t, there, home⟩ := getElem?_platRow level s lines (getElem?_of_indexOf found)
    refine .inr ⟨i, t, by rw [found, Nat.add_assoc], ?_, home⟩
    have short := (List.getElem?_eq_some_iff.1 there).1
    rw [rows, List.append_assoc, List.getElem?_append_left short]
    exact there
  · obtain ⟨i, found⟩ := Nat.exists_eq_add_one_of_ne_zero door
    obtain ⟨t, there, home⟩ := getElem?_doorRow level s lines (getElem?_of_indexOf found)
    refine .inr ⟨(platSectors level s lines).length + i, t, by rw [found]; omega, ?_, home⟩
    have short := (List.getElem?_eq_some_iff.1 there).1
    rw [rows, List.append_assoc, ← length_platRows, List.getElem?_append_right (Nat.le_add_right _ _),
      Nat.add_sub_cancel_left, List.getElem?_append_left short]
    exact there
  · obtain ⟨i, found⟩ := Nat.exists_eq_add_one_of_ne_zero floor
    obtain ⟨t, there, home⟩ := getElem?_floorRow level s lines (getElem?_of_indexOf found)
    refine .inr ⟨(platSectors level s lines).length + (doorSectors level s lines).length + i, t,
      by rw [found]; omega, ?_, home⟩
    rw [rows, ← length_platRows, ← length_doorRows, ← List.length_append,
      List.getElem?_append_right (Nat.le_add_right _ _), Nat.add_sub_cancel_left]
    exact there
  · exact .inl held

end

/-! ## The lights and the planes -/

theorem keys_step (rnd : List UInt8) (index : Nat) (held : Lights.Held) (j : Nat) :
    (Lights.step rnd index held j).thinkers.map key = held.thinkers.map key := by
  rw [Lights.step]
  cases there : held.thinkers[j]? with
  | none => rfl
  | some t =>
    obtain ⟨inside, rfl⟩ := List.getElem?_eq_some_iff.1 there
    dsimp only
    split_ifs
    · rw [List.map_set]
      refine List.ext_getElem? fun i => ?_
      rw [List.getElem?_set]
      split_ifs with here low
      · subst here
        rw [List.getElem?_map, there]
        rfl
      · rw [List.length_map] at low
        omega
      · rfl
    · rfl

/-- The lights step thinkers where they stand. -/
theorem keys_lights (rnd : List UInt8) (index : Nat) (levels : List Int16)
    (thinkers : List SectorThinker) :
    (Lights.lights rnd index levels thinkers).thinkers.map key = thinkers.map key := by
  have steps : ∀ (order : List Nat) (held : Lights.Held),
      (order.foldl (Lights.step rnd index) held).thinkers.map key = held.thinkers.map key := by
    intro order
    induction order with
    | nil => exact fun _ => rfl
    | cons j order ih => exact fun held => (ih _).trans (keys_step rnd index held j)
  exact steps _ _

section
variable (clip : Planes.Clip) {w : Planes.World}

/-- Whether the planes pass keeps a thinker on the list. -/
def keeps (w : Planes.World) (t : SectorThinker) : Bool := !Planes.doneOf clip w t

theorem keys_ran (thinkers : List SectorThinker) :
    (thinkers.map (Planes.ranOf clip w)).map key = thinkers.map key := by
  rw [List.map_map]
  rfl

theorem Named.planes (named : Named w.thinkers w.specialdata) :
    Named (Planes.planes clip w).1.thinkers (Planes.planes clip w).1.specialdata := by
  rw [Planes.planes]
  split_ifs with idle
  · have kept := named.remove fun _ => true
    simpa using kept
  · refine Named.congr ?_ (keys_ran clip _)
    have gone : (fun t => !keeps clip w t) = Planes.doneOf clip w := funext fun _ => Bool.not_not _
    have kept := named.remove (keeps clip w)
    rwa [gone] at kept

theorem Identified.planes {nextSeq : UInt32} (ids : Identified w.thinkers nextSeq) :
    Identified (Planes.planes clip w).1.thinkers nextSeq := by
  rw [Planes.planes]
  split_ifs with idle
  · exact ids
  · exact (ids.remove (keeps clip w)).congr (keys_ran clip _)

/-- The planes pass makes no thinker. -/
theorem mem_planes {t : SectorThinker} (there : t ∈ (Planes.planes clip w).1.thinkers) :
    ∃ u ∈ w.thinkers, key u = key t := by
  rw [Planes.planes] at there
  split_ifs at there with idle
  · exact ⟨t, there, rfl⟩
  · obtain ⟨u, kept, rfl⟩ := List.mem_map.1 there
    exact ⟨u, (List.mem_filter.1 kept).1, rfl⟩

end

/-! ## Runs -/

/-- The columns the stages below read and leave. -/
structure World where
  crossed : Crossings.State
  secLightlevel : List Int16
  deriving DecidableEq, Repr

def World.press (w : World) : Press.State := w.crossed.press

/-- A stage of a tic that the list goes through: a use press at a line, things that take identities,
the lines crossed, the lights and the planes. -/
inductive Stage
  | press (line : Nat)
  | spawn (count : Nat)
  | cross (pxCrossedLine : Int) (txCrossedLine : List Int)
  | lights (rnd : List UInt8) (index : Nat)
  | planes (clip : Planes.Clip)

/-- The columns the planes pass is given. -/
def World.planes (w : World) : Planes.World :=
  ⟨w.press.thinkers, w.press.secFloorheight, w.press.secCeilingheight, w.press.secSpecialdata⟩

def World.put (w : World) (press : Press.State) : World :=
  { w with crossed := { w.crossed with press } }

/-- One stage. -/
def run (level : Press.Level) (w : World) : Stage → World
  | .press line => w.put (Press.useSpecialLine level w.press line)
  | .spawn count =>
    w.put { w.press with nextSeq := UInt32.ofNat (w.press.nextSeq.toNat + count) }
  | .cross pxCrossedLine txCrossedLine =>
    { w with crossed := (Crossings.crossDispatch level pxCrossedLine txCrossedLine w.crossed).1 }
  | .lights rnd index =>
    let held := Lights.lights rnd index w.secLightlevel w.press.thinkers
    { w.put { w.press with thinkers := held.thinkers } with secLightlevel := held.levels }
  | .planes clip =>
    let after := (Planes.planes clip w.planes).1
    w.put { w.press with
      thinkers := after.thinkers, secFloorheight := after.floors
      secCeilingheight := after.ceilings, secSpecialdata := after.specialdata }

/-! ## The level's first row -/

/-- The columns of the first row, as `setup` writes them: the light thinkers numbered from one, no
sector held, and the counter past the map's things and the lights. -/
def setup (level : Press.Level) (things : Nat) (lights : List SectorThinker) (w : World) : World :=
  w.put { w.press with
    thinkers := lights.mapIdx fun i t => { t with seq := UInt32.ofNat (i + 1) }
    nextSeq := UInt32.ofNat (things + lights.length + 1)
    secSpecialdata := List.replicate level.secTag.length 0 }

section
variable (level : Press.Level) (things : Nat) (lights : List SectorThinker) (w : World)

theorem named_setup :
    Named (setup level things lights w).press.thinkers
      (setup level things lights w).press.secSpecialdata := by
  intro sector slot held some
  exact absurd (List.eq_of_mem_replicate (List.mem_of_getElem? held)) some

theorem identified_setup (room : things + lights.length + 1 < UInt32.size) :
    Identified (setup level things lights w).press.thinkers
      (setup level things lights w).press.nextSeq := by
  have seqs : (setup level things lights w).press.thinkers.map (·.seq) =
      seqsFrom 1 lights.length := by
    refine List.ext_getElem? fun i => ?_
    change (List.map _ (List.mapIdx _ lights))[i]? = ((List.range' 1 lights.length).map _)[i]?
    rw [List.getElem?_map, List.getElem?_mapIdx, List.getElem?_map]
    by_cases inside : i < lights.length
    · rw [List.getElem?_eq_getElem inside, List.getElem?_range' inside]
      simp [Nat.add_comm]
    · rw [List.getElem?_eq_none (Nat.not_lt.1 inside), List.getElem?_eq_none (by simpa using inside)]
      rfl
  have low : 1 + lights.length ≤ UInt32.size := by omega
  rw [identified_iff, seqs]
  refine ⟨pairwise_seqsFrom low, fun seq there => ?_⟩
  have below := (mem_seqsFrom low there).2
  change seq < UInt32.ofNat (things + lights.length + 1)
  rw [UInt32.lt_iff_toNat_lt, UInt32.toNat_ofNat_of_lt' room]
  omega

end

/-! ## A hall

A lift behind one line, a door behind another, and a strobe.
-/

def hall : Press.Level where
  lineFront := [0, 0]
  lineBack := [1, 2]
  lineSide0 := [0, 1]
  lineFlags := [4, 4]
  lineTag := [7, 0]
  secLines := [[0, 1], [0], [1]]
  secTag := [0, 7, 0]
  switches := []

/-- The first row of a map without things. -/
def hallWorld : World :=
  setup hall 0 [{ SectorThinker.blank with kind := .strobe, count := 5 }]
    { crossed :=
        { press :=
            { thinkers := []
              nextSeq := 0
              secSpecialdata := []
              secFloorheight := [0, 0, 0]
              secCeilingheight := [8388608, 8388608, 0]
              lineSpecial := [88, 1]
              cards := []
              walls := ⟨[], [], [], []⟩
              message := none }
          secFloorpic := [1, 2, 3]
          secSpecial := [0, 0, 0] }
      secLightlevel := [160, 160, 160] }

def roomy : Planes.Clip := ⟨fun _ => false, false⟩

theorem hallWorld_identified : Identified hallWorld.press.thinkers hallWorld.press.nextSeq :=
  identified_setup _ _ _ _ (by decide)

section
variable (level : Press.Level) {w : World}

theorem Named.run (named : Named w.press.thinkers w.press.secSpecialdata) (stage : Stage) :
    Named (run level w stage).press.thinkers (run level w stage).press.secSpecialdata := by
  cases stage with
  | press line => exact named.useSpecialLine
  | spawn count => exact named
  | cross pxCrossedLine txCrossedLine => exact named.crossDispatch
  | lights rnd index => exact named.congr (keys_lights rnd index _ _)
  | planes clip => exact Named.planes clip named

/-- Over any order of the stages a sector's `specialdata` names a thinker that drives a plane of it, or
none, and no two sectors name the same one. -/
theorem specialdata_named (named : Named w.press.thinkers w.press.secSpecialdata)
    (stages : List Stage) :
    Named (stages.foldl (run level) w).press.thinkers (stages.foldl (run level) w).press.secSpecialdata ∧
    ∀ sector sector' slot : Nat, slot ≠ 0 →
      (stages.foldl (run level) w).press.secSpecialdata[sector]? = some slot →
      (stages.foldl (run level) w).press.secSpecialdata[sector']? = some slot → sector = sector' := by
  have held : Named (stages.foldl (ThinkerList.run level) w).press.thinkers
      (stages.foldl (ThinkerList.run level) w).press.secSpecialdata := by
    induction stages generalizing w with
    | nil => exact named
    | cons stage stages ih => exact ih (named.run level stage)
  refine ⟨held, fun sector sector' slot some there there' => ?_⟩
  obtain ⟨t, at_, -, home⟩ := held sector slot there some
  obtain ⟨t', at_', -, home'⟩ := held sector' slot there' some
  cases at_.symm.trans at_'
  exact home.symm.trans home'

/-- A lift started by a crossing and a door by a press, each named by its sector. -/
theorem specialdata_named_hall :
    ([.cross 0 [], .press 1, .lights [] 0, .planes roomy].foldl (run hall)
      hallWorld).press.secSpecialdata = [0, 2, 3] ∧
    Named ([.cross 0 [], .press 1, .lights [] 0, .planes roomy].foldl (run hall)
        hallWorld).press.thinkers
      ([.cross 0 [], .press 1, .lights [] 0, .planes roomy].foldl (run hall)
        hallWorld).press.secSpecialdata :=
  ⟨by decide +kernel, (specialdata_named hall (named_setup _ _ _ _) _).1⟩

/-- A crossed line starts no thinker. -/
def Quiet (w : World) : Stage → Prop
  | .cross pxCrossedLine txCrossedLine =>
    Crossings.rows level w.press (Crossings.cxLines pxCrossedLine txCrossedLine) = []
  | _ => True

/-- The identities a stage takes leave the counter within its 32 bits. -/
def Counted (w : World) : Stage → Prop
  | .press line => w.press.nextSeq.toNat + (pressRows level w.press line).length < UInt32.size
  | .spawn count => w.press.nextSeq.toNat + count < UInt32.size
  | _ => True

/-- No stage of a run crosses a line that starts a thinker, and the counter does not wrap. -/
def QuietRun : List Stage → World → Prop
  | [], _ => True
  | stage :: stages, w =>
    Quiet level w stage ∧ Counted level w stage ∧ QuietRun stages (ThinkerList.run level w stage)

variable {level}

/-- A counter that does not wrap does not go back. -/
theorem le_counted {nextSeq : UInt32} {count : Nat} (room : nextSeq.toNat + count < UInt32.size) :
    nextSeq ≤ UInt32.ofNat (nextSeq.toNat + count) := by
  rw [UInt32.le_iff_toNat_le, UInt32.toNat_ofNat_of_lt' room]
  exact Nat.le_add_right _ _

theorem Identified.run (ids : Identified w.press.thinkers w.press.nextSeq) {stage : Stage}
    (quiet : Quiet level w stage) (counted : Counted level w stage) :
    Identified (run level w stage).press.thinkers (run level w stage).press.nextSeq ∧
    w.press.nextSeq ≤ (run level w stage).press.nextSeq ∧
    ∀ t ∈ (run level w stage).press.thinkers,
      (∃ u ∈ w.press.thinkers, key u = key t) ∨ w.press.nextSeq ≤ t.seq := by
  have carried : ∀ {thinkers : List SectorThinker},
      thinkers.map key = w.press.thinkers.map key → ∀ t ∈ thinkers,
        (∃ u ∈ w.press.thinkers, key u = key t) ∨ w.press.nextSeq ≤ t.seq := by
    intro thinkers same t there
    have keyed : key t ∈ w.press.thinkers.map key := same ▸ List.mem_map_of_mem there
    exact .inl (List.mem_map.1 keyed)
  cases stage with
  | press line =>
    have room : w.press.nextSeq.toNat + (pressRows level w.press line).length < UInt32.size := counted
    refine ⟨ids.useSpecialLine room, ?_, fun t there => ?_⟩
    · change w.press.nextSeq ≤ (Press.useSpecialLine level w.press line).nextSeq
      rw [nextSeq_useSpecialLine]
      exact le_counted room
    · rcases List.mem_append.1 (@thinkers_useSpecialLine level w.press line ▸ there) with there | new
      · exact carried keys_heldDirection t there
      · have seq : t.seq ∈ (pressRows level w.press line).map (·.seq) := List.mem_map_of_mem new
        rw [seqs_pressRows] at seq
        exact .inr (UInt32.le_iff_toNat_le.2 (mem_seqsFrom room.le seq).1)
  | spawn count =>
    have grown := le_counted counted
    refine ⟨⟨ids.ascending, fun t there => ?_⟩, grown, carried rfl⟩
    exact UInt32.lt_of_lt_of_le (ids.fresh t there) grown
  | cross pxCrossedLine txCrossedLine =>
    have same : (ThinkerList.run level w (.cross pxCrossedLine txCrossedLine)).press.thinkers =
        w.press.thinkers := by
      refine (congrArg (w.press.thinkers ++ ·) quiet).trans (List.append_nil _)
    refine ⟨?_, UInt32.le_rfl, carried (congrArg (List.map key) same)⟩
    rw [same]
    exact ids
  | lights rnd index =>
    have same := keys_lights rnd index w.secLightlevel w.press.thinkers
    exact ⟨ids.congr same, UInt32.le_rfl, carried same⟩
  | planes clip =>
    exact ⟨Identified.planes (w := w.planes) clip ids, UInt32.le_rfl, fun t there =>
      .inl (mem_planes (w := w.planes) clip there)⟩

/-- As long as no crossed line starts a thinker and the counter does not wrap, the identities ascend
along the list below the next one, and an identity names the same thinker whenever it is on the
list. -/
theorem identities_once (ids : Identified w.press.thinkers w.press.nextSeq) (stages : List Stage)
    (quiet : QuietRun level stages w) :
    Identified (stages.foldl (run level) w).press.thinkers (stages.foldl (run level) w).press.nextSeq ∧
    w.press.nextSeq ≤ (stages.foldl (run level) w).press.nextSeq ∧
    ∀ t ∈ (stages.foldl (run level) w).press.thinkers,
      (∃ u ∈ w.press.thinkers, key u = key t) ∨ w.press.nextSeq ≤ t.seq := by
  induction stages generalizing w with
  | nil => exact ⟨ids, UInt32.le_rfl, fun t there => .inl ⟨t, there, rfl⟩⟩
  | cons stage stages ih =>
    obtain ⟨ids', grown, since⟩ := ids.run quiet.1 quiet.2.1
    obtain ⟨final, grown', since'⟩ := ih ids' quiet.2.2
    refine ⟨final, UInt32.le_trans grown grown', fun t there => ?_⟩
    rcases since' t there with ⟨u, here, same⟩ | late
    · rcases since u here with ⟨v, before, same'⟩ | new
      · exact .inl ⟨v, before, same'.trans same⟩
      · have seq : u.seq = t.seq := congrArg Prod.fst same
        exact .inr (seq ▸ new)
    · exact .inr (UInt32.le_trans grown late)

theorem identities_once_hall :
    Identified ([.press 1, .spawn 2, .cross 1 [], .planes roomy].foldl (run hall)
        hallWorld).press.thinkers
      ([.press 1, .spawn 2, .cross 1 [], .planes roomy].foldl (run hall) hallWorld).press.nextSeq :=
  have quiet : QuietRun hall [.press 1, .spawn 2, .cross 1 [], .planes roomy] hallWorld :=
    ⟨trivial, show _ < UInt32.size by decide +kernel, trivial, show _ < UInt32.size by decide +kernel,
      show Crossings.rows _ _ _ = [] by decide +kernel, trivial, trivial, trivial, trivial⟩
  (identities_once hallWorld_identified _ quiet).1

/-- A crossing leaves the next identity as it was: where the rows it starts take no identity past 32
bits the list still ascends, the identities stay below the next one exactly where no thinker started,
and where one did, the next thinker a press starts takes an identity that is on the list. -/
theorem cross_identities (ids : Identified w.press.thinkers w.press.nextSeq)
    (pxCrossedLine : Int) (txCrossedLine : List Int) :
    (w.press.nextSeq.toNat + (Crossings.rows level w.press
        (Crossings.cxLines pxCrossedLine txCrossedLine)).length ≤ UInt32.size →
      (run level w (.cross pxCrossedLine txCrossedLine)).press.thinkers.Pairwise
        fun t u => t.seq < u.seq) ∧
    (Identified (run level w (.cross pxCrossedLine txCrossedLine)).press.thinkers
        (run level w (.cross pxCrossedLine txCrossedLine)).press.nextSeq ↔
      Quiet level w (.cross pxCrossedLine txCrossedLine)) ∧
    (¬ Quiet level w (.cross pxCrossedLine txCrossedLine) → ∀ line,
      pressRows level (run level w (.cross pxCrossedLine txCrossedLine)).press line ≠ [] →
      ¬ ((run level (run level w (.cross pxCrossedLine txCrossedLine)) (.press line)).press.thinkers.map
        (·.seq)).Nodup) := by
  have seqs := seqs_rows level w.press (Crossings.cxLines pxCrossedLine txCrossedLine)
  -- a row that starts has the next identity, and so has a press after it
  have first : ∀ {rows : List SectorThinker}, rows ≠ [] →
      rows.map (·.seq) = seqsFrom w.press.nextSeq.toNat rows.length →
      w.press.nextSeq ∈ rows.map (·.seq) := by
    intro rows some numbered
    obtain ⟨t, more, rfl⟩ := List.exists_cons_of_ne_nil some
    rw [numbered, seqsFrom, List.length_cons, List.range'_succ, List.map_cons, UInt32.ofNat_toNat]
    exact List.mem_cons_self
  refine ⟨ids.ascending_append seqs, ⟨fun fresh => ?_, fun quiet => ?_⟩,
    fun started line some nodup => ?_⟩
  · by_contra started
    obtain ⟨t, new, same⟩ := List.mem_map.1 (first started seqs)
    have below := fresh.fresh t (List.mem_append_right _ new)
    rw [same] at below
    exact UInt32.lt_irrefl _ below
  · have crossed := ids.run quiet trivial
    exact crossed.1
  · have taken := first some (seqs_pressRows level _ line)
    have held : w.press.nextSeq ∈ ((ThinkerList.run level w
        (.cross pxCrossedLine txCrossedLine)).press.thinkers.map (Press.heldDirection
          (Press.useOpened level (ThinkerList.run level w
            (.cross pxCrossedLine txCrossedLine)).press line))).map (·.seq) := by
      rw [seqs_of_keys keys_heldDirection]
      change _ ∈ (w.press.thinkers ++ _).map (·.seq)
      rw [List.map_append]
      exact List.mem_append_right _ (first started seqs)
    have split := congrArg (List.map fun t : SectorThinker => t.seq) (@thinkers_useSpecialLine level
      (ThinkerList.run level w (.cross pxCrossedLine txCrossedLine)).press line)
    rw [List.map_append] at split
    exact (List.nodup_append.1 (split ▸ nodup)).2.2 _ held _ taken rfl

/-- The lift and the door after it both have the identity 2. -/
theorem cross_identities_hall :
    ¬ ((run hall (run hall hallWorld (.cross 0 [])) (.press 1)).press.thinkers.map (·.seq)).Nodup :=
  (cross_identities hallWorld_identified 0 []).2.2
    (show ¬ Crossings.rows _ _ _ = [] by decide +kernel) 1 (by decide +kernel)

end

end ClickDoom.Native.ThinkerList
