import Mathlib

/-! # Playing a demo from the simulation

`driver/src/cli/native/demo.rs`: `feed_ahead` runs the simulation tic by tic and reports
each tic through a channel of `--lookahead` places; `drawing_loop` draws frame after
frame, each once the tic it reads is committed.  The two run together, in any order of
their steps.

A step of either is what it does between two points where the other may act, or less.
The renderer answers here and the window stays open: a frame that cannot be drawn ends
the run with an error of its own.
-/
namespace ClickDoom.Native

/-- What stopped the feeder. -/
inductive Stop where
  | refused (refusal : String)
  | demoEnded
  | failed (message : String)
  deriving DecidableEq

/-- One tic the feeder found, or how it stopped. -/
inductive TicOutcome where
  | committed (tic : Nat)
  | stopped (stop : Stop)
  deriving DecidableEq

/-- What a run that does not succeed reports. -/
inductive Failure where
  | gate (message : String)
  | failed (message : String)
  deriving DecidableEq

/-- What is reported of a stop. -/
def Stop.report : Stop → Option Failure
  | .refused refusal => some (.gate refusal)
  | .demoEnded => none
  | .failed message => some (.failed message)

/-- `HIDDEN_TICS`. -/
def hiddenTics : Nat := 2

/-- A run of the command: its options, the length of the melt, and what the simulation
does with each tic, nothing where it commits it. -/
structure DemoArgs where
  lookahead : Nat
  meltFrames : Nat
  stopAtFrame : Option Nat
  stops : Nat → Option Stop

/-- Where `feed_ahead` is. -/
inductive Feeder where
  | waiting (tic : Nat)
  | sending (outcome : TicOutcome)
  | ended
  deriving DecidableEq

/-- Where `drawing_loop` is: in `advance_to` of a frame (in `drain_ready`, before the load
of the highest tic, in `recv`), at a frame, in the last `drain_ready`, or returned. -/
inductive Drawer where
  | draining (frame : Nat)
  | checking (frame : Nat)
  | receiving (frame : Nat)
  | drawing (frame : Nat)
  | closing
  | ended (result : Except Failure Unit)
  deriving DecidableEq

/-- The two, the channel between them, the highest tic, and what was drawn and taken out
of the channel so far. -/
structure Demo where
  feeder : Feeder
  queue : List TicOutcome
  highest : Nat
  drawer : Drawer
  drawn : List Nat
  taken : List TicOutcome
  deriving DecidableEq

def Demo.start : Demo where
  feeder := .waiting 1
  queue := []
  highest := 0
  drawer := .draining 0
  drawn := []
  taken := []

/-- The frame being drawn or waited for. -/
def Drawer.frame : Drawer → Option Nat
  | .draining frame => some frame
  | .checking frame => some frame
  | .receiving frame => some frame
  | .drawing frame => some frame
  | .closing => none
  | .ended _ => none

def Drawer.isEnded : Drawer → Bool
  | .ended _ => true
  | _ => false

/-- Where the loop goes when `advance_to` returns a stop. -/
def Drawer.afterStop (frame : Nat) : Stop → Drawer
  | .refused refusal => .ended (.error (.gate refusal))
  | .demoEnded => if frame = 0 then .ended (.ok ()) else .closing
  | .failed message => .ended (.error (.failed message))

/-- What the channel says when its sender is gone. -/
def noResult : Stop := .failed "the simulation feeder ended without a result"

namespace DemoArgs
variable (a : DemoArgs)

def capacity : Nat := max a.lookahead 1

/-- `sim_tic`. -/
def simTic (frame : Nat) : Nat :=
  if frame < a.meltFrames then hiddenTics else frame - a.meltFrames + hiddenTics + 1

/-- The frame is within `--stop-at-frame`. -/
def within (frame : Nat) : Bool :=
  match a.stopAtFrame with
  | some last => frame ≤ last
  | none => true

/-- A step of `feed_ahead`; nothing where it waits for a place in the channel. -/
def feed (s : Demo) : Option Demo :=
  match s.feeder with
  | .waiting tic =>
    match a.stops tic with
    | some stop => some { s with feeder := .sending (.stopped stop) }
    | none => some { s with feeder := .sending (.committed tic), highest := tic }
  | .sending outcome =>
    if s.drawer.isEnded then some { s with feeder := .ended }
    else if s.queue.length < a.capacity then
      let feeder := match outcome with
        | .committed tic => .waiting (tic + 1)
        | .stopped _ => .ended
      some { s with feeder, queue := s.queue ++ [outcome] }
    else none
  | .ended => none

/-- What the first message of the channel, or its end, does to `advance_to`. -/
def receive (s : Demo) (frame : Nat) : Option Demo :=
  match s.queue with
  | .committed tic :: queue =>
    some { s with queue, taken := s.taken ++ [.committed tic], drawer := .draining frame }
  | .stopped stop :: queue =>
    some { s with queue, taken := s.taken ++ [.stopped stop], drawer := .afterStop frame stop }
  | [] =>
    if s.feeder = .ended then some { s with drawer := .afterStop frame noResult } else none

/-- A step of `drawing_loop`; nothing where it waits for a message. -/
def draw (s : Demo) : Option Demo :=
  match s.drawer with
  | .draining frame =>
    if s.queue = [] ∧ s.feeder ≠ .ended then some { s with drawer := .checking frame }
    else receive s frame
  | .checking frame =>
    if s.highest ≥ a.simTic frame then some { s with drawer := .drawing frame }
    else some { s with drawer := .receiving frame }
  | .receiving frame => receive s frame
  | .drawing frame =>
    let drawer := if a.within (frame + 1) then .draining (frame + 1) else .closing
    some { s with drawer, drawn := s.drawn ++ [frame] }
  | .closing =>
    match s.queue with
    | .committed tic :: queue => some { s with queue, taken := s.taken ++ [.committed tic] }
    | .stopped stop :: queue =>
      some { s with queue, taken := s.taken ++ [.stopped stop], drawer := .ended (.ok ()) }
    | [] => some { s with drawer := .ended (.ok ()) }
  | .ended _ => none

/-- Whose step it is. -/
inductive Party where
  | feeding
  | drawing
  deriving DecidableEq

def act (s : Demo) : Party → Option Demo
  | .feeding => a.feed s
  | .drawing => a.draw s

/-- A state that some order of the steps leads to, every step of the drawing side from a
state with `P`. -/
inductive Reaches (P : Demo → Bool) : Demo → Prop where
  | start : Reaches P .start
  | step {s s' : Demo} {who : Party} : Reaches P s → (who = .drawing → P s = true) →
      a.act s who = some s' → Reaches P s'

/-- The run an order of steps gives, as far as every step is possible and allowed. -/
def run (P : Demo → Bool) : List Party → Option Demo
  | [] => some .start
  | who :: before =>
    match run P before with
    | none => none
    | some s => if who = .drawing ∧ P s = false then none else a.act s who

theorem reaches_of_run {P : Demo → Bool} (order : List Party) {s : Demo}
    (h : a.run P order = some s) : a.Reaches P s := by
  induction order generalizing s with
  | nil =>
    cases h
    exact .start
  | cons who before ih =>
    rw [run] at h
    split at h
    · cases h
    · rename_i s' hs'
      split_ifs at h with hP
      refine .step (ih hs') (fun hwho => ?_) h
      rw [not_and] at hP
      exact Bool.eq_true_of_not_eq_false (hP hwho)

/-! ## What a step can do -/

/-- The steps of `feed_ahead`. -/
inductive Feeds (s : Demo) : Demo → Prop where
  | stops {tic : Nat} {stop : Stop} : s.feeder = .waiting tic → a.stops tic = some stop →
      Feeds s { s with feeder := .sending (.stopped stop) }
  | commits {tic : Nat} : s.feeder = .waiting tic → a.stops tic = none →
      Feeds s { s with feeder := .sending (.committed tic), highest := tic }
  | refused {outcome : TicOutcome} : s.feeder = .sending outcome → s.drawer.isEnded = true →
      Feeds s { s with feeder := .ended }
  | sends {tic : Nat} : s.feeder = .sending (.committed tic) → s.queue.length < a.capacity →
      Feeds s { s with feeder := .waiting (tic + 1), queue := s.queue ++ [.committed tic] }
  | ends {stop : Stop} : s.feeder = .sending (.stopped stop) → s.queue.length < a.capacity →
      Feeds s { s with feeder := .ended, queue := s.queue ++ [.stopped stop] }

/-- The steps of `drawing_loop`. -/
inductive Draws (s : Demo) : Demo → Prop where
  | drained {f : Nat} : s.drawer = .draining f → s.queue = [] → s.feeder ≠ .ended →
      Draws s { s with drawer := .checking f }
  | folds {f tic : Nat} {queue : List TicOutcome} :
      s.drawer = .draining f ∨ s.drawer = .receiving f → s.queue = .committed tic :: queue →
      Draws s { s with queue, taken := s.taken ++ [.committed tic], drawer := .draining f }
  | stops {f : Nat} {stop : Stop} {queue : List TicOutcome} :
      s.drawer = .draining f ∨ s.drawer = .receiving f → s.queue = .stopped stop :: queue →
      Draws s { s with queue, taken := s.taken ++ [.stopped stop], drawer := .afterStop f stop }
  | disconnected {f : Nat} : s.drawer = .draining f ∨ s.drawer = .receiving f → s.queue = [] →
      s.feeder = .ended → Draws s { s with drawer := .afterStop f noResult }
  | ready {f : Nat} : s.drawer = .checking f → a.simTic f ≤ s.highest →
      Draws s { s with drawer := .drawing f }
  | waits {f : Nat} : s.drawer = .checking f → s.highest < a.simTic f →
      Draws s { s with drawer := .receiving f }
  | draws {f : Nat} : s.drawer = .drawing f →
      Draws s { s with
        drawer := if a.within (f + 1) then .draining (f + 1) else .closing
        drawn := s.drawn ++ [f] }
  | credits {tic : Nat} {queue : List TicOutcome} : s.drawer = .closing →
      s.queue = .committed tic :: queue →
      Draws s { s with queue, taken := s.taken ++ [.committed tic] }
  | discards {stop : Stop} {queue : List TicOutcome} : s.drawer = .closing →
      s.queue = .stopped stop :: queue →
      Draws s { s with
        queue, taken := s.taken ++ [.stopped stop], drawer := .ended (.ok ()) }
  | closes : s.drawer = .closing → s.queue = [] → Draws s { s with drawer := .ended (.ok ()) }

section
variable {a} {s s' : Demo}

theorem feeds_of_feed (h : a.feed s = some s') : a.Feeds s s' := by
  rw [feed] at h
  split at h
  · rename_i tic hfeeder
    split at h <;> cases h
    · exact .stops hfeeder ‹_›
    · exact .commits hfeeder ‹_›
  · rename_i outcome hfeeder
    split_ifs at h with hended hroom
    · cases h
      exact .refused hfeeder hended
    · cases outcome with
      | committed tic =>
        cases h
        exact .sends hfeeder hroom
      | stopped stop =>
        cases h
        exact .ends hfeeder hroom
  · cases h

theorem draws_of_receive {f : Nat} (hdrawer : s.drawer = .draining f ∨ s.drawer = .receiving f)
    (h : receive s f = some s') : a.Draws s s' := by
  rw [receive] at h
  split at h
  · cases h
    exact .folds hdrawer ‹_›
  · cases h
    exact .stops hdrawer ‹_›
  · split_ifs at h with hended
    cases h
    exact .disconnected hdrawer ‹_› hended

theorem draws_of_draw (h : a.draw s = some s') : a.Draws s s' := by
  rw [draw] at h
  split at h
  · rename_i f hdrawer
    split_ifs at h with hempty
    · cases h
      exact .drained hdrawer hempty.1 hempty.2
    · exact draws_of_receive (Or.inl hdrawer) h
  · rename_i f hdrawer
    split_ifs at h with hready <;> cases h
    · exact .ready hdrawer hready
    · exact .waits hdrawer (Nat.lt_of_not_le hready)
  · exact draws_of_receive (Or.inr ‹_›) h
  · cases h
    exact .draws ‹_›
  · rename_i hdrawer
    split at h <;> cases h
    · exact .credits hdrawer ‹_›
    · exact .discards hdrawer ‹_›
    · exact .closes hdrawer ‹_›
  · cases h

end

/-! ## What the channel carries -/

/-- Every tic up to this one is committed. -/
def Committed (tic : Nat) : Prop := ∀ k, 1 ≤ k → k ≤ tic → a.stops k = none

/-- The feeder stops at this tic. -/
structure StopsAt (tic : Nat) (stop : Stop) : Prop where
  before : a.Committed (tic - 1)
  here : a.stops tic = some stop
  pos : 1 ≤ tic

/-- The first tics, as the feeder reports them. -/
def commits (n : Nat) : List TicOutcome := (List.range' 1 n).map .committed

/-- The highest tic and what was sent, by where the feeder is. -/
inductive Fed : Feeder → Nat → List TicOutcome → Prop where
  | waiting {n : Nat} : a.Committed n → Fed (.waiting (n + 1)) n (commits n)
  | committed {n : Nat} : a.Committed (n + 1) →
      Fed (.sending (.committed (n + 1))) (n + 1) (commits n)
  | stopped {n : Nat} {stop : Stop} : a.StopsAt (n + 1) stop →
      Fed (.sending (.stopped stop)) n (commits n)
  | ended {n : Nat} {stop : Stop} : a.StopsAt (n + 1) stop →
      Fed .ended n (commits n ++ [.stopped stop])

/-- What holds of the frame being drawn or waited for. -/
structure AtFrame (s : Demo) (f : Nat) : Prop where
  drawn : s.drawn = List.range f
  within : a.within f = true
  before : ∀ g < f, a.simTic g ≤ s.highest
  taken : ∀ stop, .stopped stop ∉ s.taken

/-- What holds in every state. -/
structure Steady (s : Demo) : Prop where
  fed : s.drawer.isEnded = false → a.Fed s.feeder s.highest (s.taken ++ s.queue)
  frame : ∀ f, s.drawer.frame = some f → a.AtFrame s f
  drawing : ∀ f, s.drawer = .drawing f → a.simTic f ≤ s.highest

section
variable {a} {s s' : Demo}

theorem commits_succ (n : Nat) : commits (n + 1) = commits n ++ [.committed (n + 1)] := by
  rw [commits, List.range'_concat, List.map_append, Nat.one_mul, Nat.add_comm 1 n]
  rfl

theorem stopped_not_mem_commits (n : Nat) (stop : Stop) : .stopped stop ∉ commits n := by
  simp [commits]

theorem length_commits (n : Nat) : (commits n).length = n := by
  rw [commits, List.length_map, List.length_range']

theorem Committed.mono {m n : Nat} (h : a.Committed n) (hle : m ≤ n) : a.Committed m :=
  fun k hk hkm => h k hk (hkm.trans hle)

theorem Fed.highest {feeder : Feeder} {highest : Nat} {sent : List TicOutcome}
    (h : a.Fed feeder highest sent) : a.Committed highest := by
  cases h with
  | waiting hc => exact hc
  | committed hc => exact hc
  | stopped hs => exact hs.before
  | ended hs => exact hs.before

/-- A stop is sent once all tics are, and it is the feeder's. -/
theorem Fed.of_stopped_mem {feeder : Feeder} {highest : Nat} {sent : List TicOutcome} {stop : Stop}
    (h : a.Fed feeder highest sent) (hmem : .stopped stop ∈ sent) :
    feeder = .ended ∧ a.StopsAt (highest + 1) stop := by
  cases h with
  | waiting | committed | stopped => exact absurd hmem (stopped_not_mem_commits _ _)
  | ended hs =>
    rcases List.mem_append.mp hmem with hmem | hmem
    · exact absurd hmem (stopped_not_mem_commits _ _)
    · cases List.mem_singleton.mp hmem
      exact ⟨rfl, hs⟩

/-- The tics are sent in order. -/
theorem Fed.tic_eq {feeder : Feeder} {highest i tic : Nat} {sent : List TicOutcome}
    (h : a.Fed feeder highest sent) (hget : sent[i]? = some (.committed tic)) : tic = i + 1 := by
  have hcommits : ∀ n, (commits n)[i]? = some (.committed tic) → tic = i + 1 := by
    intro n hget
    rw [commits, List.getElem?_map, Option.map_eq_some_iff] at hget
    obtain ⟨k, hk, hkt⟩ := hget
    obtain ⟨hi, rfl⟩ := List.getElem?_eq_some_iff.mp hk
    cases hkt
    rw [List.getElem_range']
    omega
  cases h with
  | waiting | committed | stopped => exact hcommits _ hget
  | ended hs =>
    rw [List.getElem?_append] at hget
    split_ifs at hget with hlt
    · exact hcommits _ hget
    · obtain ⟨hi, hlast⟩ := List.getElem?_eq_some_iff.mp hget
      rw [List.getElem_singleton] at hlast
      cases hlast

theorem StopsAt.unique {m n : Nat} {stop stop' : Stop} (h : a.StopsAt m stop)
    (h' : a.StopsAt n stop') : m = n ∧ stop = stop' := by
  obtain ⟨hb, hh, hp⟩ := h
  obtain ⟨hb', hh', hp'⟩ := h'
  rcases lt_trichotomy m n with hlt | rfl | hlt
  · have := hb' m hp (by omega)
    rw [hh] at this
    cases this
  · rw [hh] at hh'
    exact ⟨rfl, Option.some.inj hh'⟩
  · have := hb n hp' (by omega)
    rw [hh'] at this
    cases this

theorem simTic_mono {f g : Nat} (h : f ≤ g) : a.simTic f ≤ a.simTic g := by
  rw [simTic, simTic]
  split_ifs <;> omega

theorem within_of_le {f g : Nat} (h : f ≤ g) (hg : a.within g = true) : a.within f = true := by
  rw [within] at hg ⊢
  split at hg
  · exact decide_eq_true (h.trans (of_decide_eq_true hg))
  · rfl

theorem AtFrame.congr {f : Nat} (h : a.AtFrame s f) (hdrawn : s'.drawn = s.drawn)
    (htaken : s'.taken = s.taken) (hhighest : s.highest ≤ s'.highest) : a.AtFrame s' f where
  drawn := hdrawn.trans h.drawn
  within := h.within
  before g hg := (h.before g hg).trans hhighest
  taken := htaken ▸ h.taken

theorem steady_start : a.Steady .start where
  fed _ := Fed.waiting fun k hk hk0 => absurd hk0 (by omega)
  frame f hf := by
    cases hf
    refine ⟨rfl, ?_, fun g hg => absurd hg (Nat.not_lt_zero g), fun stop => List.not_mem_nil⟩
    rw [within]
    split
    · exact decide_eq_true (Nat.zero_le _)
    · rfl
  drawing f hf := by cases hf

theorem isEnded_of_frame {d : Drawer} {f : Nat} (h : d.frame = some f) : d.isEnded = false := by
  cases d <;> first | rfl | cases h

/-- What the feeder does next, from where it is. -/
theorem Fed.next_stops {highest tic : Nat} {sent : List TicOutcome} {stop : Stop}
    (h : a.Fed (.waiting tic) highest sent) (hstop : a.stops tic = some stop) :
    a.Fed (.sending (.stopped stop)) highest sent := by
  cases h with
  | waiting hc => exact .stopped ⟨hc, hstop, by omega⟩

theorem Fed.next_commits {highest tic : Nat} {sent : List TicOutcome}
    (h : a.Fed (.waiting tic) highest sent) (hstop : a.stops tic = none) :
    a.Fed (.sending (.committed tic)) tic sent ∧ highest ≤ tic := by
  cases h with
  | waiting hc =>
    refine ⟨.committed fun k hk hkn => ?_, by omega⟩
    rcases Nat.lt_or_ge k (highest + 1) with hlt | hge
    · exact hc k hk (by omega)
    · rwa [show k = highest + 1 by omega]

theorem Fed.next_sends {highest tic : Nat} {sent : List TicOutcome}
    (h : a.Fed (.sending (.committed tic)) highest sent) :
    a.Fed (.waiting (tic + 1)) highest (sent ++ [.committed tic]) := by
  cases h with
  | @committed n hc =>
    rw [← commits_succ]
    exact .waiting hc

theorem Fed.next_ends {highest : Nat} {stop : Stop} {sent : List TicOutcome}
    (h : a.Fed (.sending (.stopped stop)) highest sent) :
    a.Fed .ended highest (sent ++ [.stopped stop]) := by
  cases h with
  | stopped hs => exact .ended hs

theorem Steady.feeds (h : a.Steady s) (hf : a.Feeds s s') : a.Steady s' := by
  cases hf with
  | stops hfeeder hstop =>
    refine ⟨fun hlive => ?_, fun f hf => (h.frame f hf).congr rfl rfl le_rfl, h.drawing⟩
    exact (hfeeder ▸ h.fed hlive).next_stops hstop
  | @commits tic hfeeder hstop =>
    have hfed : s.drawer.isEnded = false →
        a.Fed (.sending (.committed tic)) tic (s.taken ++ s.queue) ∧ s.highest ≤ tic := fun hlive =>
      (hfeeder ▸ h.fed hlive).next_commits hstop
    refine ⟨fun hlive => (hfed hlive).1, fun f hf => ?_, fun f hf => ?_⟩
    · exact (h.frame f hf).congr rfl rfl (hfed (isEnded_of_frame hf)).2
    · exact (h.drawing f hf).trans (hfed (by rw [show s.drawer = _ from hf]; rfl)).2
  | refused hfeeder hended =>
    refine ⟨fun hlive => ?_, fun f hf => (h.frame f hf).congr rfl rfl le_rfl, h.drawing⟩
    rw [show s.drawer.isEnded = false from hlive] at hended
    cases hended
  | sends hfeeder hroom =>
    refine ⟨fun hlive => ?_, fun f hf => (h.frame f hf).congr rfl rfl le_rfl, h.drawing⟩
    change a.Fed _ _ (s.taken ++ (s.queue ++ _))
    rw [← List.append_assoc]
    exact (hfeeder ▸ h.fed hlive).next_sends
  | ends hfeeder hroom =>
    refine ⟨fun hlive => ?_, fun f hf => (h.frame f hf).congr rfl rfl le_rfl, h.drawing⟩
    change a.Fed _ _ (s.taken ++ (s.queue ++ _))
    rw [← List.append_assoc]
    exact (hfeeder ▸ h.fed hlive).next_ends

/-- Taking a message out leaves what was sent as it was. -/
theorem sent_of_queue {taken queue : List TicOutcome} {outcome : TicOutcome}
    (h : s.queue = outcome :: queue) :
    (taken ++ [outcome]) ++ queue = taken ++ s.queue := by
  rw [h, List.append_assoc]
  rfl

theorem frame_of_receives {f : Nat} (h : s.drawer = .draining f ∨ s.drawer = .receiving f) :
    s.drawer.frame = some f := by
  rcases h with h | h <;> rw [h] <;> rfl

theorem frame_afterStop (f : Nat) (stop : Stop) : (Drawer.afterStop f stop).frame = none := by
  cases stop with
  | refused | failed => rfl
  | demoEnded =>
    rw [Drawer.afterStop]
    split_ifs <;> rfl

theorem Steady.draws (h : a.Steady s) (hd : a.Draws s s') : a.Steady s' := by
  cases hd with
  | @drained f hdrawer hqueue hfeeder =>
    have hframe : s.drawer.frame = some f := by rw [hdrawer]; rfl
    refine ⟨fun _ => h.fed (isEnded_of_frame hframe), ?_, nofun⟩
    rintro g ⟨⟩
    exact (h.frame f hframe).congr rfl rfl le_rfl
  | @folds f tic queue hdrawer hqueue =>
    have hframe := frame_of_receives hdrawer
    have hat := h.frame f hframe
    refine ⟨fun _ => ?_, ?_, nofun⟩
    · change a.Fed _ _ ((s.taken ++ [.committed tic]) ++ queue)
      rw [sent_of_queue hqueue]
      exact h.fed (isEnded_of_frame hframe)
    · rintro g ⟨⟩
      refine ⟨hat.drawn, hat.within, hat.before, fun stop hmem => ?_⟩
      rcases List.mem_append.mp hmem with hmem | hmem
      · exact hat.taken stop hmem
      · cases List.mem_singleton.mp hmem
  | @stops f stop queue hdrawer hqueue =>
    refine ⟨fun _ => ?_, fun g hg => ?_, fun g hg => ?_⟩
    · change a.Fed _ _ ((s.taken ++ [.stopped stop]) ++ queue)
      rw [sent_of_queue hqueue]
      exact h.fed (isEnded_of_frame (frame_of_receives hdrawer))
    · rw [show (Drawer.afterStop f stop).frame = none from frame_afterStop f stop] at hg
      cases hg
    · have hnone := frame_afterStop f stop
      rw [show Drawer.afterStop f stop = .drawing g from hg] at hnone
      cases hnone
  | @disconnected f hdrawer hqueue hfeeder =>
    refine ⟨fun _ => h.fed (isEnded_of_frame (frame_of_receives hdrawer)), nofun, nofun⟩
  | @ready f hdrawer hready =>
    have hframe : s.drawer.frame = some f := by rw [hdrawer]; rfl
    refine ⟨fun _ => h.fed (isEnded_of_frame hframe), ?_, ?_⟩
    · rintro g ⟨⟩
      exact (h.frame f hframe).congr rfl rfl le_rfl
    · rintro g ⟨⟩
      exact hready
  | @waits f hdrawer hwaits =>
    have hframe : s.drawer.frame = some f := by rw [hdrawer]; rfl
    refine ⟨fun _ => h.fed (isEnded_of_frame hframe), ?_, nofun⟩
    rintro g ⟨⟩
    exact (h.frame f hframe).congr rfl rfl le_rfl
  | @draws f hdrawer =>
    have hframe : s.drawer.frame = some f := by rw [hdrawer]; rfl
    have hat := h.frame f hframe
    refine ⟨fun _ => h.fed (isEnded_of_frame hframe), ?_, ?_⟩
    · intro g hg
      dsimp only at hg
      split_ifs at hg with hwithin
      · cases hg
        refine ⟨?_, hwithin, ?_, hat.taken⟩
        · change s.drawn ++ [f] = _
          rw [hat.drawn, List.range_succ]
        · intro g hg
          exact (simTic_mono (Nat.le_of_lt_succ hg)).trans (h.drawing f hdrawer)
      · cases hg
    · intro g hg
      dsimp only at hg
      split_ifs at hg
  | @credits tic queue hdrawer hqueue =>
    refine ⟨fun hlive => ?_, fun g hg => ?_, fun g hg => ?_⟩
    · change a.Fed _ _ ((s.taken ++ [.committed tic]) ++ queue)
      rw [sent_of_queue hqueue]
      exact h.fed hlive
    · rw [show s.drawer.frame = none by rw [hdrawer]; rfl] at hg
      cases hg
    · rw [show s.drawer = _ from hdrawer] at hg
      cases hg
  | discards | closes => exact ⟨nofun, nofun, nofun⟩

end

end DemoArgs
end ClickDoom.Native
