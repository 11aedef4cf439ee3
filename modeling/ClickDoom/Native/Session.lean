import Mathlib

/-! # The two statements of a simulation

`driver/src/native/session.rs`: a session holds two statements open.  The first writes a
row of `native_stage` for each tic it is sent; the second reads that row back and writes
the tic's row of `native_state`.  `wait_sim` sends a tic to the second once it finds the
first's row.  A statement that has stopped is ended and opened again by `recover`, which
empties `native_stage` in between.

The server takes a statement's rows in order, reads what a row needs when it begins it
and writes when it finishes; it may give a statement up at any row.  A statement whose
close was not answered in time is out of the session's hands: it takes no further row,
but the one it had begun it may still finish, at any time.
-/
namespace ClickDoom.Native

/-- A row of `native_stage`, with the statement that wrote it. -/
structure StageRow (Stage : Type) where
  writer : Nat
  value : Stage

/-- A row of `native_state`, with the rows it was computed from. -/
structure StateRow (Stage State : Type) where
  value : State
  stage : Option (StageRow Stage)
  prev : Option State

/-- A statement: what it was sent and has not begun, and the row it has begun. -/
structure Statement (Entry Row : Type) where
  id : Nat
  inbox : List Entry
  begun : Option (Nat × Row)
  alive : Bool

/-- The row a statement out of the session's hands has begun. -/
inductive Late (Stage State : Type) where
  | first (tic : Nat) (row : StageRow Stage)
  | second (tic : Nat) (row : StateRow Stage State)

/-- Where the session's caller is: in `open` or `recover` (ending the statements, after
the truncation, after opening), between calls, or in `wait_sim` of a tic, with the row
of `native_stage` it took as present. -/
inductive Client (Stage : Type) where
  | ending
  | truncated
  | reopened
  | ready
  | waiting (tic : Nat) (seen : Option (StageRow Stage))

/-- Which of the two statements. -/
inductive Role where
  | first
  | second
  deriving DecidableEq

/-- What the caller and the server do. -/
inductive Action (Input : Type) where
  | recover
  | closed (role : Role)
  | unanswered (role : Role)
  | reset
  | reopen
  | resume
  | feed (tic : Nat) (input : Input)
  | wait (tic : Nat)
  | pollStaged
  | pollCommitted
  | timeout
  | begin (role : Role)
  | finish (role : Role)
  | stop (role : Role)
  | late (i : Nat)

/-- The session, the caller's next tic and whether it is fed, and the two tables.  The
last row written for a tic is the one a table holds; `highest` is the highest tic of
`native_state`. -/
structure Session (Input Stage State : Type) where
  client : Client Stage
  epoch : Nat
  next : Nat
  fed : Bool
  first : Option (Statement (Nat × Input) (StageRow Stage))
  second : Option (Statement Nat (StateRow Stage State))
  late : List (Late Stage State)
  stage : Nat → Option (StageRow Stage)
  state : Nat → Option (StateRow Stage State)
  highest : Nat

/-- The transforms of the two statements. -/
structure Transforms (Input Stage State : Type) where
  stage1 : Nat → Input → Option State → Stage
  stage2 : Nat → Option Stage → Option State → State

namespace Client
variable {Stage : Type}

def isEnding : Client Stage → Bool
  | .ending => true
  | _ => false

/-- The session is open: the caller is between calls or waits for a tic. -/
def isLive : Client Stage → Bool
  | .ready => true
  | .waiting _ _ => true
  | _ => false

end Client

namespace Statement
variable {Entry Row : Type}

/-- A statement that was just opened. -/
def opened (id : Nat) : Statement Entry Row where
  id := id
  inbox := []
  begun := none
  alive := true

def send (st : Statement Entry Row) (entry : Entry) : Statement Entry Row :=
  { st with inbox := st.inbox ++ [entry] }

/-- The server takes the next row, and computes what it is to write. -/
def begin (st : Statement Entry Row) (f : Entry → Nat × Row) : Option (Statement Entry Row) :=
  match st.alive, st.begun, st.inbox with
  | true, none, entry :: inbox => some { st with inbox, begun := some (f entry) }
  | _, _, _ => none

/-- The row is written. -/
def finished (st : Statement Entry Row) : Statement Entry Row := { st with begun := none }

/-- The server gives the statement up. -/
def stopped (st : Statement Entry Row) : Statement Entry Row :=
  { st with alive := false, begun := none }

/-- Its close is answered: it has no row left, or was given up. -/
def answers (st : Statement Entry Row) : Bool :=
  st.begun.isNone && (st.inbox.isEmpty || !st.alive)

end Statement

namespace Session
variable {Input Stage State : Type} (f : Transforms Input Stage State)
  (s : Session Input Stage State)

def stateBefore (tic : Nat) : Option State := (s.state (tic - 1)).map (·.value)

/-- What the first statement computes of a row. -/
def compute1 (id : Nat) (entry : Nat × Input) : Nat × StageRow Stage :=
  (entry.1, { writer := id, value := f.stage1 entry.1 entry.2 (s.stateBefore entry.1) })

/-- What the second statement computes of a tic. -/
def compute2 (tic : Nat) : StateRow Stage State where
  value := f.stage2 tic ((s.stage tic).map (·.value)) (s.stateBefore tic)
  stage := s.stage tic
  prev := s.stateBefore tic

def writeStage (tic : Nat) (row : StageRow Stage) : Session Input Stage State :=
  { s with stage := Function.update s.stage tic (some row) }

def writeState (tic : Nat) (row : StateRow Stage State) : Session Input Stage State :=
  { s with
    state := Function.update s.state tic (some row)
    highest := max s.highest tic }

def writeLate : Late Stage State → Session Input Stage State
  | .first tic row => s.writeStage tic row
  | .second tic row => s.writeState tic row

/-- One step of the caller or of the server, nothing where it cannot be taken. -/
def step : Action Input → Option (Session Input Stage State)
  | .recover => some { s with client := .ending }
  | .closed .first =>
    match s.client, s.first with
    | .ending, some st => if st.answers then some { s with first := none } else none
    | _, _ => none
  | .closed .second =>
    match s.client, s.second with
    | .ending, some st => if st.answers then some { s with second := none } else none
    | _, _ => none
  | .unanswered .first =>
    match s.client, s.first with
    | .ending, some st =>
      some { s with
        first := none
        late := s.late ++ (st.begun.map fun (tic, row) => Late.first tic row).toList }
    | _, _ => none
  | .unanswered .second =>
    match s.client, s.second with
    | .ending, some st =>
      some { s with
        second := none
        late := s.late ++ (st.begun.map fun (tic, row) => Late.second tic row).toList }
    | _, _ => none
  | .reset =>
    match s.client, s.first, s.second with
    | .ending, none, none => some { s with client := .truncated, stage := fun _ => none }
    | _, _, _ => none
  | .reopen =>
    match s.client with
    | .truncated =>
      some { s with
        client := .reopened
        epoch := s.epoch + 1
        first := some (.opened (s.epoch + 1))
        second := some (.opened (s.epoch + 1)) }
    | _ => none
  | .resume =>
    match s.client with
    | .reopened => some { s with client := .ready, next := s.highest + 1, fed := false }
    | _ => none
  | .feed tic input =>
    match s.client.isLive, s.first with
    | true, some st => some { s with first := some (st.send (tic, input)), fed := true }
    | _, _ => none
  | .wait tic =>
    match s.client with
    | .ready => some { s with client := .waiting tic none }
    | _ => none
  | .pollStaged =>
    match s.client with
    | .waiting tic none =>
      match s.stage tic, s.second with
      | some row, some st =>
        some { s with client := .waiting tic (some row), second := some (st.send tic) }
      | some _, none => some { s with client := .ready }
      | none, _ => some s
    | _ => none
  | .pollCommitted =>
    match s.client with
    | .waiting tic _ =>
      match s.state tic with
      | some _ =>
        if tic = s.next then some { s with client := .ready, next := s.next + 1, fed := false }
        else some { s with client := .ready }
      | none => some s
    | _ => none
  | .timeout =>
    match s.client with
    | .waiting _ _ => some { s with client := .ready }
    | _ => none
  | .begin .first =>
    match s.first with
    | some st => (st.begin (s.compute1 f st.id)).map fun st' => { s with first := some st' }
    | none => none
  | .begin .second =>
    match s.second with
    | some st => (st.begin fun tic => (tic, s.compute2 f tic)).map fun st' =>
        { s with second := some st' }
    | none => none
  | .finish .first =>
    match s.first with
    | some st => st.begun.map fun (tic, row) =>
        ({ s with first := some st.finished }.writeStage tic row)
    | none => none
  | .finish .second =>
    match s.second with
    | some st => st.begun.map fun (tic, row) =>
        ({ s with second := some st.finished }.writeState tic row)
    | none => none
  | .stop .first => s.first.map fun st => { s with first := some st.stopped }
  | .stop .second => s.second.map fun st => { s with second := some st.stopped }
  | .late i => s.late[i]?.map fun row => ({ s with late := s.late.eraseIdx i }.writeLate row)

/-- What a session meets when it is opened: any tables, and any statements of earlier
sessions that were not answered. -/
structure Starts : Prop where
  client : s.client = .ending
  first : s.first = none
  second : s.second = none
  highest : ∀ tic, s.highest < tic → s.state tic = none

/-- A state that some order of calls and of the server's steps leads to, every step one
that `P` allows. -/
inductive Reaches (P : Session Input Stage State → Action Input → Bool) :
    Session Input Stage State → Prop where
  | start {s : Session Input Stage State} : s.Starts → Reaches P s
  | step {s s' : Session Input Stage State} {action : Action Input} : Reaches P s →
      P s action = true → s.step f action = some s' → Reaches P s'

/-- The steps of a list, one after another. -/
def runs (P : Session Input Stage State → Action Input → Bool) :
    Session Input Stage State → List (Action Input) → Option (Session Input Stage State)
  | s, [] => some s
  | s, action :: rest =>
    match P s action, s.step f action with
    | true, some s' => runs P s' rest
    | _, _ => none

theorem Reaches.runs {P : Session Input Stage State → Action Input → Bool}
    (actions : List (Action Input)) {s s' : Session Input Stage State} (h : s.Reaches f P)
    (hruns : s.runs f P actions = some s') : s'.Reaches f P := by
  induction actions generalizing s with
  | nil =>
    cases hruns
    exact h
  | cons action rest ih =>
    rw [Session.runs] at hruns
    split at hruns
    · rename_i next hP hstep
      exact ih (h.step hP hstep) hruns
    · cases hruns

/-! ## What holds while the session is open -/

/-- The caller feeds the tics in order, each once, and no statement out of the session's
hands writes once its row could be taken for the session's own: into `native_stage` after
the truncation, into `native_state` after the resume point was read. -/
def orderly : Action Input → Bool
  | .feed tic _ => decide (tic = s.next) && !s.fed
  | .late i =>
    match s.late[i]? with
    | some (.first _ _) => s.client.isEnding
    | some (.second _ _) => !s.client.isLive
    | none => true
  | _ => true

/-- Nothing was sent to the statement and nothing is under way. -/
def Fresh {Entry Row : Type} (st : Option (Statement Entry Row)) : Prop :=
  ∀ st', st = some st' → st'.inbox = [] ∧ st'.begun = none

/-- How many rows for the next tic the first statement may still write, has begun or has
written. -/
def pending (st : Statement (Nat × Input) (StageRow Stage)) : Nat :=
  st.inbox.length + st.begun.toList.length + (s.stage s.next).toList.length

/-- What holds while the session is open, `start` being the tic it resumed from. -/
structure Live (start : Nat) : Prop where
  pos : 1 ≤ start
  le_next : start ≤ s.next
  opened : s.first.isSome
  stage : ∀ tic row, s.stage tic = some row → row.writer = s.epoch ∧ start ≤ tic ∧ tic ≤ s.next
  before : ∀ tic, start ≤ tic → tic < s.next →
    (s.stage tic).isSome ∧ s.state tic = some (s.compute2 f tic)
  here : ∀ row, s.state s.next = some row →
    (s.stage s.next).isSome ∧ row = s.compute2 f s.next
  after : ∀ tic, s.next < tic → s.state tic = none
  first : ∀ st, s.first = some st → st.id = s.epoch ∧ (∀ entry ∈ st.inbox, entry.1 = s.next) ∧
    (∀ tic row, st.begun = some (tic, row) → tic = s.next ∧ row.writer = s.epoch) ∧
    s.pending st ≤ s.fed.toNat
  second : ∀ st, s.second = some st → (∀ tic ∈ st.inbox, (s.stage tic).isSome) ∧
    ∀ tic row, st.begun = some (tic, row) → (s.stage tic).isSome ∧ row = s.compute2 f tic
  seen : ∀ tic row, s.client = .waiting tic (some row) → s.stage tic = some row

/-- What holds in every state of an orderly run. -/
structure Holds : Prop where
  highest : ∀ tic, s.highest < tic → s.state tic = none
  truncated : s.client = .truncated → s.first = none ∧ s.second = none ∧ ∀ tic, s.stage tic = none
  reopened : s.client = .reopened →
    (∃ st, s.first = some st ∧ st.id = s.epoch) ∧ Fresh s.first ∧ Fresh s.second ∧
      ∀ tic, s.stage tic = none
  live : s.client.isLive = true → ∃ start, s.Live f start

section
variable {f} {s s' : Session Input Stage State} {start : Nat}

/-- The rows of `native_stage` are those of the tics since the session was opened. -/
theorem Live.of_stage (h : s.Live f start) {tic : Nat} (hsome : (s.stage tic).isSome) :
    start ≤ tic ∧ tic ≤ s.next := by
  obtain ⟨row, hrow⟩ := Option.isSome_iff_exists.mp hsome
  exact (h.stage tic row hrow).2

/-- A row of `native_state` for a tic with a row of `native_stage` was computed from it. -/
theorem Live.computed (h : s.Live f start) {tic : Nat} {row : StateRow Stage State}
    (hsome : (s.stage tic).isSome) (hrow : s.state tic = some row) : row = s.compute2 f tic := by
  obtain ⟨hstart, hle⟩ := h.of_stage hsome
  rcases Nat.lt_or_eq_of_le hle with hlt | rfl
  · rw [(h.before tic hstart hlt).2] at hrow
    exact (Option.some.inj hrow).symm
  · exact (h.here row hrow).2

/-! ## The calls -/

theorem Live.client (h : s.Live f start) {c : Client Stage}
    (hseen : ∀ tic row, c = .waiting tic (some row) → s.stage tic = some row) :
    ({ s with client := c } : Session Input Stage State).Live f start where
  __ := h
  seen := hseen

theorem Live.feed (h : s.Live f start) {st : Statement (Nat × Input) (StageRow Stage)}
    (hfirst : s.first = some st) (hfed : s.fed = false) (input : Input) :
    ({ s with first := some (st.send (s.next, input)), fed := true } :
      Session Input Stage State).Live f start where
  __ := h
  opened := rfl
  first st' hst' := by
    cases hst'
    obtain ⟨hid, hinbox, hbegun, hpending⟩ := h.first st hfirst
    refine ⟨hid, fun entry hentry => ?_, hbegun, ?_⟩
    · rcases List.mem_append.mp hentry with hentry | hentry
      · exact hinbox entry hentry
      · rw [List.mem_singleton.mp hentry]
    · rw [hfed] at hpending
      rw [pending] at hpending ⊢
      simp only [Statement.send, List.length_append, List.length_singleton, Bool.toNat_true]
      simp only [Bool.toNat_false] at hpending
      omega

theorem Live.pollStaged (h : s.Live f start) {tic : Nat} {row : StageRow Stage}
    {st : Statement Nat (StateRow Stage State)} (hrow : s.stage tic = some row)
    (hsecond : s.second = some st) :
    ({ s with client := .waiting tic (some row), second := some (st.send tic) } :
      Session Input Stage State).Live f start where
  __ := h
  second st' hst' := by
    cases hst'
    obtain ⟨hinbox, hbegun⟩ := h.second st hsecond
    refine ⟨fun t ht => ?_, hbegun⟩
    rcases List.mem_append.mp ht with ht | ht
    · exact hinbox t ht
    · rw [List.mem_singleton.mp ht]
      exact Option.isSome_of_eq_some hrow
  seen t row' hseen := by
    cases hseen
    exact hrow

/-- The next tic is committed, and the caller goes on to the one after it. -/
theorem Live.committed (h : s.Live f start) {row : StateRow Stage State}
    (hrow : s.state s.next = some row) :
    ({ s with client := .ready, next := s.next + 1, fed := false } :
      Session Input Stage State).Live f start := by
  obtain ⟨hstaged, hcomputed⟩ := h.here row hrow
  have hnone : s.stage (s.next + 1) = none := by
    by_contra hne
    obtain ⟨row', hrow'⟩ := Option.ne_none_iff_exists'.mp hne
    have := (h.stage _ row' hrow').2.2
    omega
  refine ⟨h.pos, h.le_next.trans (Nat.le_succ _), h.opened, ?_, ?_, ?_, ?_, ?_, h.second, nofun⟩
  · intro tic row' hrow'
    obtain ⟨hwriter, hstart, hle⟩ := h.stage tic row' hrow'
    exact ⟨hwriter, hstart, hle.trans (Nat.le_succ _)⟩
  · intro tic hstart hlt
    rcases Nat.lt_or_eq_of_le (Nat.le_of_lt_succ hlt) with hlt | rfl
    · exact h.before tic hstart hlt
    · exact ⟨hstaged, hcomputed ▸ hrow⟩
  · intro row' hrow'
    change s.state (s.next + 1) = some row' at hrow'
    rw [h.after _ (Nat.lt_succ_self _)] at hrow'
    cases hrow'
  · intro tic htic
    exact h.after tic (Nat.lt_of_succ_lt htic)
  · intro st hst
    obtain ⟨hid, -, -, hpending⟩ := h.first st hst
    obtain ⟨row', hrow'⟩ := Option.isSome_iff_exists.mp hstaged
    rw [pending, hrow'] at hpending
    have hfed := Bool.toNat_le s.fed
    simp only [Option.toList_some, List.length_singleton] at hpending
    have hinbox : st.inbox = [] := List.length_eq_zero_iff.mp (by omega)
    have hbegun : st.begun = none := by
      rw [← Option.toList_eq_nil_iff]
      exact List.length_eq_zero_iff.mp (by omega)
    refine ⟨hid, ?_, ?_, ?_⟩
    · rw [hinbox]
      exact fun entry hentry => absurd hentry List.not_mem_nil
    · rw [hbegun]
      exact nofun
    · rw [pending, hinbox, hbegun]
      change _ + _ + (s.stage (s.next + 1)).toList.length ≤ _
      rw [hnone]
      rfl

/-- The session as it starts after the resume point was read. -/
theorem live_of_resume (hhighest : ∀ tic, s.highest < tic → s.state tic = none)
    (hfirst : ∃ st, s.first = some st ∧ st.id = s.epoch) (hfresh : Fresh s.first)
    (hsecond : Fresh s.second) (hstage : ∀ tic, s.stage tic = none) :
    ({ s with client := .ready, next := s.highest + 1, fed := false } :
      Session Input Stage State).Live f (s.highest + 1) := by
  obtain ⟨st, hst, hid⟩ := hfirst
  obtain ⟨hinbox, hbegun⟩ := hfresh st hst
  refine ⟨by omega, le_rfl, by rw [hst]; rfl, ?_, ?_, ?_, ?_, ?_, ?_, nofun⟩
  · intro tic row hrow
    change s.stage tic = some row at hrow
    rw [hstage] at hrow
    cases hrow
  · intro tic hle hlt
    exact absurd hlt (Nat.not_lt_of_le hle)
  · intro row hrow
    change s.state (s.highest + 1) = some row at hrow
    rw [hhighest _ (Nat.lt_succ_self _)] at hrow
    cases hrow
  · intro tic htic
    exact hhighest tic (Nat.lt_of_succ_lt htic)
  · intro st' hst'
    change s.first = some st' at hst'
    rw [hst] at hst'
    cases hst'
    refine ⟨hid, ?_, ?_, ?_⟩
    · rw [hinbox]
      exact fun entry hentry => absurd hentry List.not_mem_nil
    · rw [hbegun]
      exact nofun
    · rw [pending, hinbox, hbegun]
      change _ + _ + (s.stage (s.highest + 1)).toList.length ≤ _
      rw [hstage]
      rfl
  · intro st' hst'
    obtain ⟨hinbox', hbegun'⟩ := hsecond st' hst'
    refine ⟨?_, ?_⟩
    · rw [hinbox']
      exact fun tic htic => absurd htic List.not_mem_nil
    · rw [hbegun']
      exact nofun

/-! ## The server -/

theorem begin_some {Entry Row : Type} {st st' : Statement Entry Row} {g : Entry → Nat × Row}
    (h : st.begin g = some st') :
    ∃ entry inbox, st.inbox = entry :: inbox ∧ st.begun = none ∧
      st' = { st with inbox, begun := some (g entry) } := by
  rw [Statement.begin] at h
  split at h
  · rename_i entry inbox _ hbegun hinbox
    cases h
    exact ⟨entry, inbox, hinbox, hbegun, rfl⟩
  · cases h

theorem Live.begin_first (h : s.Live f start) {st st' : Statement (Nat × Input) (StageRow Stage)}
    (hfirst : s.first = some st) (hbegin : st.begin (s.compute1 f st.id) = some st') :
    ({ s with first := some st' } : Session Input Stage State).Live f start where
  __ := h
  opened := rfl
  first st'' hst'' := by
    cases hst''
    obtain ⟨entry, inbox, hinbox, hbegun, rfl⟩ := begin_some hbegin
    obtain ⟨hid, hentries, -, hpending⟩ := h.first st hfirst
    rw [hinbox] at hentries
    refine ⟨hid, fun e he => hentries e (List.mem_cons_of_mem _ he), ?_, ?_⟩
    · rintro tic row ⟨⟩
      exact ⟨hentries entry List.mem_cons_self, hid⟩
    · rw [pending, hinbox, hbegun] at hpending
      rw [pending]
      simp only [List.length_cons, Option.toList_none, List.length_nil] at hpending
      change inbox.length + 1 + (s.stage s.next).toList.length ≤ s.fed.toNat
      omega

theorem Live.begin_second (h : s.Live f start) {st st' : Statement Nat (StateRow Stage State)}
    (hsecond : s.second = some st)
    (hbegin : (st.begin fun tic => (tic, s.compute2 f tic)) = some st') :
    ({ s with second := some st' } : Session Input Stage State).Live f start where
  __ := h
  second st'' hst'' := by
    cases hst''
    obtain ⟨entry, inbox, hinbox, -, rfl⟩ := begin_some hbegin
    obtain ⟨hentries, -⟩ := h.second st hsecond
    rw [hinbox] at hentries
    refine ⟨fun tic htic => hentries tic (List.mem_cons_of_mem _ htic), ?_⟩
    rintro tic row ⟨⟩
    exact ⟨hentries entry List.mem_cons_self, rfl⟩

/-- What the second statement computes of a tic reads only that tic's row of one table and
the row before it of the other. -/
theorem compute2_congr (s s' : Session Input Stage State) {tic : Nat} (hstage : s'.stage tic = s.stage tic)
    (hstate : s'.state (tic - 1) = s.state (tic - 1)) : s'.compute2 f tic = s.compute2 f tic := by
  rw [compute2, compute2, stateBefore, stateBefore, hstage, hstate]

/-- The first statement writes the row of the next tic, which was not there. -/
theorem Live.finish_first (h : s.Live f start) {st : Statement (Nat × Input) (StageRow Stage)}
    {tic : Nat} {row : StageRow Stage} (hfirst : s.first = some st)
    (hbegun : st.begun = some (tic, row)) :
    (({ s with first := some st.finished } : Session Input Stage State).writeStage tic row).Live f
      start := by
  obtain ⟨hid, hentries, hbegun', hpending⟩ := h.first st hfirst
  obtain ⟨rfl, hwriter⟩ := hbegun' tic row hbegun
  rw [pending, hbegun] at hpending
  simp only [Option.toList_some, List.length_singleton] at hpending
  have hfed := Bool.toNat_le s.fed
  have hnone : s.stage s.next = none := by
    rw [← Option.toList_eq_nil_iff]
    exact List.length_eq_zero_iff.mp (by omega)
  have hinbox : st.inbox = [] := List.length_eq_zero_iff.mp (by omega)
  have hstate : s.state s.next = none := by
    by_contra hne
    obtain ⟨row', hrow'⟩ := Option.ne_none_iff_exists'.mp hne
    have hsome := (h.here row' hrow').1
    rw [hnone] at hsome
    cases hsome
  have hother : ∀ t, t ≠ s.next → Function.update s.stage s.next (some row) t = s.stage t :=
    fun t ht => Function.update_of_ne ht _ _
  have hkeeps : ∀ t, (s.stage t).isSome → Function.update s.stage s.next (some row) t = s.stage t := by
    intro t ht
    refine hother t fun heq => ?_
    rw [heq, hnone] at ht
    cases ht
  have hcompute : ∀ t, (s.stage t).isSome →
      (({ s with first := some st.finished } : Session Input Stage State).writeStage s.next
        row).compute2 f t = s.compute2 f t :=
    fun t ht => compute2_congr s _ (hkeeps t ht) rfl
  refine ⟨h.pos, h.le_next, rfl, ?_, ?_, ?_, h.after, ?_, ?_, ?_⟩
  · intro t row' hrow'
    change Function.update s.stage s.next (some row) t = some row' at hrow'
    by_cases ht : t = s.next
    · rw [ht, Function.update_self] at hrow'
      cases hrow'
      exact ⟨hwriter, ht ▸ h.le_next, ht.le⟩
    · rw [hother t ht] at hrow'
      exact h.stage t row' hrow'
  · intro t hstart hlt
    obtain ⟨hsome, heq⟩ := h.before t hstart hlt
    refine ⟨(congrArg Option.isSome (hkeeps t hsome)).trans hsome, heq.trans ?_⟩
    exact congrArg some (hcompute t hsome).symm
  · intro row' hrow'
    change s.state s.next = some row' at hrow'
    rw [hstate] at hrow'
    cases hrow'
  · intro st' hst'
    cases hst'
    refine ⟨hid, hentries, nofun, ?_⟩
    rw [pending]
    change st.inbox.length + 0 + (Function.update s.stage s.next (some row) s.next).toList.length ≤
      s.fed.toNat
    rw [hinbox, Function.update_self]
    simp only [List.length_nil, Option.toList_some, List.length_singleton]
    omega
  · intro st' hst'
    obtain ⟨hin, hrow'⟩ := h.second st' hst'
    refine ⟨fun t ht => (congrArg Option.isSome (hkeeps t (hin t ht))).trans (hin t ht), ?_⟩
    intro t row' hb
    obtain ⟨hsome, heq⟩ := hrow' t row' hb
    refine ⟨(congrArg Option.isSome (hkeeps t hsome)).trans hsome, heq.trans ?_⟩
    exact (hcompute t hsome).symm
  · intro t row' hseen
    have hold := h.seen t row' hseen
    exact (hkeeps t (Option.isSome_of_eq_some hold)).trans hold

/-- The second statement writes the row of a tic: the next one's, or one that is there
already. -/
theorem Live.finish_second (h : s.Live f start) {st : Statement Nat (StateRow Stage State)}
    {tic : Nat} {row : StateRow Stage State} (hsecond : s.second = some st)
    (hbegun : st.begun = some (tic, row)) :
    (({ s with second := some st.finished } : Session Input Stage State).writeState tic row).Live f
      start := by
  obtain ⟨hin, hrow⟩ := h.second st hsecond
  obtain ⟨hsome, hcomputed⟩ := hrow tic row hbegun
  obtain ⟨hstart, hle⟩ := h.of_stage hsome
  have hsame : ∀ t, t < s.next → Function.update s.state tic (some row) t = s.state t := by
    intro t ht
    by_cases heq : t = tic
    · rw [heq, Function.update_self, hcomputed]
      exact ((h.before tic hstart (heq ▸ ht)).2).symm
    · exact Function.update_of_ne heq _ _
  have hpos := h.pos
  have hcompute : ∀ t, (s.stage t).isSome →
      (({ s with second := some st.finished } : Session Input Stage State).writeState tic
        row).compute2 f t = s.compute2 f t := by
    intro t ht
    obtain ⟨hstart', hle'⟩ := h.of_stage ht
    exact compute2_congr s _ rfl (hsame (t - 1) (by omega))
  refine ⟨h.pos, h.le_next, h.opened, h.stage, ?_, ?_, ?_, h.first, ?_, h.seen⟩
  · intro t hstart' hlt
    obtain ⟨hsome', heq⟩ := h.before t hstart' hlt
    refine ⟨hsome', (hsame t hlt).trans (heq.trans ?_)⟩
    exact congrArg some (hcompute t hsome').symm
  · intro row' hrow'
    change Function.update s.state tic (some row) s.next = some row' at hrow'
    by_cases heq : s.next = tic
    · rw [← heq, Function.update_self] at hrow'
      cases hrow'
      exact ⟨heq ▸ hsome, hcomputed.trans (heq ▸ (hcompute tic hsome).symm)⟩
    · rw [Function.update_of_ne heq] at hrow'
      obtain ⟨hsome', heq'⟩ := h.here row' hrow'
      exact ⟨hsome', heq'.trans (hcompute s.next hsome').symm⟩
  · intro t ht
    have hne : t ≠ tic := by
      change s.next < t at ht
      omega
    exact (Function.update_of_ne hne _ _).trans (h.after t ht)
  · intro st' hst'
    cases hst'
    exact ⟨hin, nofun⟩

theorem Live.stop_first (h : s.Live f start) {st : Statement (Nat × Input) (StageRow Stage)}
    (hfirst : s.first = some st) :
    ({ s with first := some st.stopped } : Session Input Stage State).Live f start where
  __ := h
  opened := rfl
  first st' hst' := by
    cases hst'
    obtain ⟨hid, hentries, -, hpending⟩ := h.first st hfirst
    refine ⟨hid, hentries, nofun, ?_⟩
    rw [pending] at hpending ⊢
    change st.inbox.length + 0 + (s.stage s.next).toList.length ≤ s.fed.toNat
    omega

theorem Live.stop_second (h : s.Live f start) {st : Statement Nat (StateRow Stage State)}
    (hsecond : s.second = some st) :
    ({ s with second := some st.stopped } : Session Input Stage State).Live f start where
  __ := h
  second st' hst' := by
    cases hst'
    exact ⟨(h.second st hsecond).1, nofun⟩

/-! ## Whole runs -/

theorem Starts.holds (h : s.Starts) : s.Holds f := by
  refine ⟨h.highest, ?_, ?_, ?_⟩ <;> rw [h.client]
  · exact nofun
  · exact nofun
  · exact nofun

/-- A call that ends the session's statements. -/
theorem Holds.ending (h : s.Holds f) (hstate : s'.state = s.state)
    (hhighest : s'.highest = s.highest) (hclient : s'.client = .ending) : s'.Holds f := by
  refine ⟨?_, ?_, ?_, ?_⟩
  · rw [hstate, hhighest]
    exact h.highest
  all_goals
    rw [hclient]
    exact nofun

/-- A call of an open session. -/
theorem holds_of_live (hlive : s'.client.isLive = true)
    (hhighest : ∀ tic, s'.highest < tic → s'.state tic = none) (h : s'.Live f start) :
    s'.Holds f := by
  refine ⟨hhighest, fun hc => ?_, fun hc => ?_, fun _ => ⟨start, h⟩⟩ <;> rw [hc] at hlive <;>
    cases hlive

theorem Holds.begin_first (h : s.Holds f) {st st' : Statement (Nat × Input) (StageRow Stage)}
    (hfirst : s.first = some st) (hbegin : st.begin (s.compute1 f st.id) = some st') :
    ({ s with first := some st' } : Session Input Stage State).Holds f := by
  refine ⟨h.highest, fun hc => ?_, fun hc => ?_, fun hlive => ?_⟩
  · rw [(h.truncated hc).1] at hfirst
    cases hfirst
  · obtain ⟨entry, inbox, hinbox, -⟩ := begin_some hbegin
    rw [((h.reopened hc).2.1 st hfirst).1] at hinbox
    cases hinbox
  · obtain ⟨start, hl⟩ := h.live hlive
    exact ⟨start, hl.begin_first hfirst hbegin⟩

theorem Holds.begin_second (h : s.Holds f) {st st' : Statement Nat (StateRow Stage State)}
    (hsecond : s.second = some st)
    (hbegin : (st.begin fun tic => (tic, s.compute2 f tic)) = some st') :
    ({ s with second := some st' } : Session Input Stage State).Holds f := by
  refine ⟨h.highest, fun hc => ?_, fun hc => ?_, fun hlive => ?_⟩
  · rw [(h.truncated hc).2.1] at hsecond
    cases hsecond
  · obtain ⟨entry, inbox, hinbox, -⟩ := begin_some hbegin
    rw [((h.reopened hc).2.2.1 st hsecond).1] at hinbox
    cases hinbox
  · obtain ⟨start, hl⟩ := h.live hlive
    exact ⟨start, hl.begin_second hsecond hbegin⟩

theorem Holds.finish_first (h : s.Holds f) {st : Statement (Nat × Input) (StageRow Stage)}
    {tic : Nat} {row : StageRow Stage} (hfirst : s.first = some st)
    (hbegun : st.begun = some (tic, row)) :
    (({ s with first := some st.finished } : Session Input Stage State).writeStage tic
      row).Holds f := by
  refine ⟨h.highest, fun hc => ?_, fun hc => ?_, fun hlive => ?_⟩
  · rw [(h.truncated hc).1] at hfirst
    cases hfirst
  · rw [((h.reopened hc).2.1 st hfirst).2] at hbegun
    cases hbegun
  · obtain ⟨start, hl⟩ := h.live hlive
    exact ⟨start, hl.finish_first hfirst hbegun⟩

/-- The highest tic stays the highest. -/
theorem highest_writeState (hhighest : ∀ tic, s.highest < tic → s.state tic = none) (tic : Nat)
    (row : StateRow Stage State) :
    ∀ t, max s.highest tic < t → Function.update s.state tic (some row) t = none := by
  intro t ht
  rw [Function.update_of_ne (by omega)]
  exact hhighest t (by omega)

theorem Holds.finish_second (h : s.Holds f) {st : Statement Nat (StateRow Stage State)}
    {tic : Nat} {row : StateRow Stage State} (hsecond : s.second = some st)
    (hbegun : st.begun = some (tic, row)) :
    (({ s with second := some st.finished } : Session Input Stage State).writeState tic
      row).Holds f := by
  refine ⟨highest_writeState h.highest tic row, fun hc => ?_, fun hc => ?_, fun hlive => ?_⟩
  · rw [(h.truncated hc).2.1] at hsecond
    cases hsecond
  · rw [((h.reopened hc).2.2.1 st hsecond).2] at hbegun
    cases hbegun
  · obtain ⟨start, hl⟩ := h.live hlive
    exact ⟨start, hl.finish_second hsecond hbegun⟩

theorem Holds.stop_first (h : s.Holds f) {st : Statement (Nat × Input) (StageRow Stage)}
    (hfirst : s.first = some st) :
    ({ s with first := some st.stopped } : Session Input Stage State).Holds f := by
  refine ⟨h.highest, fun hc => ?_, fun hc => ?_, fun hlive => ?_⟩
  · rw [(h.truncated hc).1] at hfirst
    cases hfirst
  · obtain ⟨⟨st', hst', hid⟩, hfresh, hsecond, hstage⟩ := h.reopened hc
    rw [hfirst] at hst'
    cases hst'
    refine ⟨⟨_, rfl, hid⟩, ?_, hsecond, hstage⟩
    rintro st' ⟨⟩
    exact ⟨(hfresh st hfirst).1, rfl⟩
  · obtain ⟨start, hl⟩ := h.live hlive
    exact ⟨start, hl.stop_first hfirst⟩

theorem Holds.stop_second (h : s.Holds f) {st : Statement Nat (StateRow Stage State)}
    (hsecond : s.second = some st) :
    ({ s with second := some st.stopped } : Session Input Stage State).Holds f := by
  refine ⟨h.highest, fun hc => ?_, fun hc => ?_, fun hlive => ?_⟩
  · rw [(h.truncated hc).2.1] at hsecond
    cases hsecond
  · obtain ⟨hfirst, hfresh, hfresh', hstage⟩ := h.reopened hc
    refine ⟨hfirst, hfresh, ?_, hstage⟩
    rintro st' ⟨⟩
    exact ⟨(hfresh' st hsecond).1, rfl⟩
  · obtain ⟨start, hl⟩ := h.live hlive
    exact ⟨start, hl.stop_second hsecond⟩

theorem Holds.late (h : s.Holds f) {i : Nat} {row : Late Stage State} (hrow : s.late[i]? = some row)
    (horderly : s.orderly (.late i : Action Input) = true) :
    (({ s with late := s.late.eraseIdx i } : Session Input Stage State).writeLate row).Holds f := by
  rw [orderly, hrow] at horderly
  cases row with
  | first tic row =>
    cases hc : s.client with
    | ending => exact h.ending rfl rfl rfl
    | truncated | reopened | ready | waiting =>
      rw [hc] at horderly
      cases horderly
  | second tic row =>
    refine ⟨highest_writeState h.highest tic row, h.truncated, h.reopened, fun hlive => ?_⟩
    change s.client.isLive = true at hlive
    simp [hlive] at horderly

theorem Holds.feed (h : s.Holds f) {tic : Nat} {input : Input} (hlive : s.client.isLive = true)
    {st : Statement (Nat × Input) (StageRow Stage)} (hfirst : s.first = some st)
    (horderly : s.orderly (.feed tic input) = true) :
    ({ s with first := some (st.send (tic, input)), fed := true } :
      Session Input Stage State).Holds f := by
  obtain ⟨start, hl⟩ := h.live hlive
  obtain ⟨htic, hfed⟩ := (Bool.and_eq_true _ _).mp horderly
  obtain rfl := of_decide_eq_true htic
  have hfed' : s.fed = false := by simpa using hfed
  exact holds_of_live hlive h.highest (hl.feed hfirst hfed' input)

theorem Holds.step {action : Action Input} (h : s.Holds f) (horderly : s.orderly action = true)
    (hstep : s.step f action = some s') : s'.Holds f := by
  cases action with
  | recover =>
    cases hstep
    exact h.ending rfl rfl rfl
  | closed role =>
    cases role <;> rw [Session.step] at hstep <;> split at hstep
    · rename_i hc _
      split_ifs at hstep
      cases hstep
      exact h.ending rfl rfl hc
    · cases hstep
    · rename_i hc _
      split_ifs at hstep
      cases hstep
      exact h.ending rfl rfl hc
    · cases hstep
  | unanswered role =>
    cases role <;> rw [Session.step] at hstep <;> split at hstep <;> cases hstep
    · exact h.ending rfl rfl ‹_›
    · exact h.ending rfl rfl ‹_›
  | reset =>
    rw [Session.step] at hstep
    split at hstep <;> cases hstep
    rename_i hc hfirst hsecond
    exact ⟨h.highest, fun _ => ⟨hfirst, hsecond, fun _ => rfl⟩, nofun, nofun⟩
  | reopen =>
    rw [Session.step] at hstep
    split at hstep <;> cases hstep
    rename_i hc
    refine ⟨h.highest, nofun, fun _ => ⟨⟨_, rfl, rfl⟩, ?_, ?_, (h.truncated hc).2.2⟩, nofun⟩
    · rintro st ⟨⟩
      exact ⟨rfl, rfl⟩
    · rintro st ⟨⟩
      exact ⟨rfl, rfl⟩
  | resume =>
    rw [Session.step] at hstep
    split at hstep <;> cases hstep
    rename_i hc
    obtain ⟨hfirst, hfresh, hfresh', hstage⟩ := h.reopened hc
    exact holds_of_live rfl h.highest (live_of_resume h.highest hfirst hfresh hfresh' hstage)
  | feed tic input =>
    rw [Session.step] at hstep
    split at hstep <;> cases hstep
    rename_i st hlive hfirst
    exact h.feed hlive hfirst horderly
  | wait tic =>
    rw [Session.step] at hstep
    split at hstep <;> cases hstep
    rename_i hc
    obtain ⟨start, hl⟩ := h.live (by rw [hc]; rfl)
    exact holds_of_live rfl h.highest (hl.client nofun)
  | pollStaged =>
    rw [Session.step] at hstep
    split at hstep
    · rename_i tic hc
      obtain ⟨start, hl⟩ := h.live (by rw [hc]; rfl)
      split at hstep <;> cases hstep
      · exact holds_of_live rfl h.highest (hl.pollStaged ‹_› ‹_›)
      · exact holds_of_live rfl h.highest (hl.client nofun)
      · exact h
    · cases hstep
  | pollCommitted =>
    rw [Session.step] at hstep
    split at hstep
    · rename_i tic seen hc
      obtain ⟨start, hl⟩ := h.live (by rw [hc]; rfl)
      split at hstep
      · rename_i row hrow
        split_ifs at hstep with htic <;> cases hstep
        · exact holds_of_live rfl h.highest (hl.committed (htic ▸ hrow))
        · exact holds_of_live rfl h.highest (hl.client nofun)
      · cases hstep
        exact h
    · cases hstep
  | timeout =>
    rw [Session.step] at hstep
    split at hstep <;> cases hstep
    rename_i hc
    obtain ⟨start, hl⟩ := h.live (by rw [hc]; rfl)
    exact holds_of_live rfl h.highest (hl.client nofun)
  | begin role =>
    cases role <;> rw [Session.step] at hstep <;> split at hstep
    · obtain ⟨st', hbegin, rfl⟩ := Option.map_eq_some_iff.mp hstep
      exact h.begin_first ‹_› hbegin
    · cases hstep
    · obtain ⟨st', hbegin, rfl⟩ := Option.map_eq_some_iff.mp hstep
      exact h.begin_second ‹_› hbegin
    · cases hstep
  | finish role =>
    cases role <;> rw [Session.step] at hstep <;> split at hstep
    · obtain ⟨⟨tic, row⟩, hbegun, rfl⟩ := Option.map_eq_some_iff.mp hstep
      exact h.finish_first ‹_› hbegun
    · cases hstep
    · obtain ⟨⟨tic, row⟩, hbegun, rfl⟩ := Option.map_eq_some_iff.mp hstep
      exact h.finish_second ‹_› hbegun
    · cases hstep
  | stop role =>
    cases role <;> rw [Session.step] at hstep <;>
      obtain ⟨st, hst, rfl⟩ := Option.map_eq_some_iff.mp hstep
    · exact h.stop_first hst
    · exact h.stop_second hst
  | late i =>
    rw [Session.step] at hstep
    obtain ⟨row, hrow, rfl⟩ := Option.map_eq_some_iff.mp hstep
    exact h.late hrow horderly

theorem Reaches.holds (h : s.Reaches f orderly) : s.Holds f := by
  induction h with
  | start hstart => exact hstart.holds
  | step _ horderly hstep ih => exact ih.step horderly hstep

/-- In an orderly run, a row of `native_stage` that `wait_sim` took as present was written
by the first statement the session has open, and a row of `native_state` it then finds
was computed from that row and from the row of the tic before. -/
theorem trusts_own_rows (h : s.Reaches f orderly) {tic : Nat} {row : StageRow Stage}
    (hwaiting : s.client = .waiting tic (some row)) :
    (∃ st, s.first = some st ∧ row.writer = st.id) ∧
      ∀ found, s.state tic = some found →
        found.stage = some row ∧ found.prev = (s.state (tic - 1)).map (·.value) ∧
          found.value = f.stage2 tic (some row.value) found.prev := by
  obtain ⟨start, hl⟩ := h.holds.live (by rw [hwaiting]; rfl)
  have hrow := hl.seen tic row hwaiting
  obtain ⟨st, hst⟩ := Option.isSome_iff_exists.mp hl.opened
  refine ⟨⟨st, hst, ?_⟩, fun found hfound => ?_⟩
  · rw [(hl.first st hst).1]
    exact (hl.stage tic row hrow).1
  · obtain rfl := hl.computed (Option.isSome_of_eq_some hrow) hfound
    refine ⟨hrow, rfl, ?_⟩
    rw [compute2, hrow]
    rfl

end

/-! ## A row that comes late -/

/-- A game that counts the inputs. -/
def counting : Transforms Nat Nat Nat where
  stage1 _ input state := state.getD 0 + input
  stage2 _ stage _ := stage.getD 0

/-- Before the session is opened, over the level's first row. -/
def unopened : Session Nat Nat Nat where
  client := .ending
  epoch := 0
  next := 0
  fed := false
  first := none
  second := none
  late := []
  stage _ := none
  state tic := if tic = 0 then some { value := 0, stage := none, prev := none } else none
  highest := 0

theorem starts_unopened : unopened.Starts where
  client := rfl
  first := rfl
  second := rfl
  highest _ htic := if_neg (Nat.ne_of_gt htic)

/-- A tic is fed and begun, its wait runs out, and its statement's close does too. -/
def abandoned : List (Action Nat) :=
  [ .reset, .reopen, .resume, .feed 1 5, .begin .first, .wait 1, .pollStaged, .pollCommitted
  , .timeout, .recover, .unanswered .first, .closed .second, .reset, .reopen, .resume
  , .feed 1 7 ]

/-- The abandoned statement finishes its row after `recover`, and `wait_sim` takes it for
the reopened statement's, which has not begun its own. -/
theorem late_row_taken :
    ∃ s : Session Nat Nat Nat, s.Reaches counting (fun _ _ => true) ∧ ∃ row, s.client = .waiting 1 (some row) ∧
      ¬∃ st, s.first = some st ∧ row.writer = st.id := by
  refine ⟨_, Reaches.runs counting (abandoned ++ [.late 0, .wait 1, .pollStaged])
    (.start starts_unopened) rfl, _, rfl, ?_⟩
  rintro ⟨st, hst, hwriter⟩
  cases hst
  revert hwriter
  decide

/-- Without it the reopened statement's row is the one found. -/
theorem trusts_own_rows_counting :
    ∃ s : Session Nat Nat Nat, s.Reaches counting orderly ∧
      s.client = .waiting 1 (some { writer := 2, value := 7 }) ∧
      ∃ found, s.state 1 = some found ∧ found.stage = some { writer := 2, value := 7 } := by
  have hreaches := Reaches.runs counting (P := orderly)
    (abandoned ++ [.begin .first, .finish .first, .wait 1, .pollStaged, .begin .second
      , .finish .second]) (.start starts_unopened) rfl
  exact ⟨_, hreaches, rfl, _, rfl, ((trusts_own_rows hreaches rfl).2 _ rfl).1⟩

end Session
end ClickDoom.Native
