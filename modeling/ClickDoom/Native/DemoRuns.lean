import ClickDoom.Native.Demo

/-! # What a simulated demo draws, and how far the simulation runs ahead

The drawing side empties the channel whenever it looks for a tic.  Two things follow
that the command does not promise.  A stop that is in the channel is acted on at once,
also when the frame at hand has its tic.  And every place the emptied channel has is
filled again while one frame is drawn, so the simulation's lead grows.

Both promises hold in the runs in which what is taken out is needed: a stop for a frame
whose tic is missing, a tic for a frame that reads it or a later one.
-/
namespace ClickDoom.Native

/-- The tics fed so far.  All but the last are committed, and the last may be. -/
def Demo.fed (s : Demo) : Nat :=
  match s.feeder with
  | .waiting tic => tic
  | _ => s.highest

namespace DemoArgs
variable (a : DemoArgs)

/-- A stop is next to be taken only if the frame waited for misses its tic. -/
def stopsInTime (s : Demo) : Bool :=
  match s.drawer, s.queue with
  | .draining f, .stopped _ :: _ => s.highest < a.simTic f
  | .receiving f, .stopped _ :: _ => s.highest < a.simTic f
  | _, _ => true

/-- A tic is next to be taken only if the frame waited for reads it or a later one. -/
def takesNeeded (s : Demo) : Bool :=
  match s.drawer, s.queue with
  | .draining f, .committed tic :: _ => tic ≤ a.simTic f
  | .receiving f, .committed tic :: _ => tic ≤ a.simTic f
  | _, _ => true

section
variable {a} {s s' : Demo} {P : Demo → Bool}

theorem Reaches.steady (h : a.Reaches P s) : a.Steady s := by
  induction h with
  | start => exact steady_start
  | @step s s' who _ _ hact ih =>
    cases who with
    | feeding => exact ih.feeds (feeds_of_feed hact)
    | drawing => exact ih.draws (draws_of_draw hact)

/-! ## The lead -/

/-- The channel is within its bound, and no more tics were taken than the frame reads. -/
structure Paced (a : DemoArgs) (s : Demo) : Prop where
  room : s.queue.length ≤ a.capacity
  taken : ∀ f, s.drawer.frame = some f → s.taken.length ≤ a.simTic f

theorem Paced.feeds (h : Paced a s) (hf : a.Feeds s s') : Paced a s' := by
  cases hf with
  | stops | commits | refused => exact ⟨h.room, h.taken⟩
  | sends hfeeder hroom | ends hfeeder hroom =>
    refine ⟨?_, h.taken⟩
    rw [List.length_append]
    exact hroom

/-- The next tic in the channel is the one after those taken. -/
theorem Steady.next_tic {f tic : Nat} {queue : List TicOutcome} (h : a.Steady s)
    (hframe : s.drawer.frame = some f) (hqueue : s.queue = .committed tic :: queue) :
    tic = s.taken.length + 1 := by
  refine (h.fed (isEnded_of_frame hframe)).tic_eq ?_
  rw [List.getElem?_append_right (Nat.le_refl _), Nat.sub_self, hqueue]
  rfl

theorem Paced.draws (h : Paced a s) (hs : a.Steady s) (hP : a.takesNeeded s = true)
    (hd : a.Draws s s') : Paced a s' := by
  have hroom : ∀ {outcome : TicOutcome} {queue : List TicOutcome}, s.queue = outcome :: queue →
      queue.length ≤ a.capacity := by
    intro outcome queue hqueue
    have := h.room
    rw [hqueue, List.length_cons] at this
    exact Nat.le_of_succ_le this
  cases hd with
  | @drained f hdrawer hqueue hfeeder =>
    refine ⟨h.room, ?_⟩
    rintro g ⟨⟩
    exact h.taken f (by rw [hdrawer]; rfl)
  | @folds f tic queue hdrawer hqueue =>
    have hnext := hs.next_tic (frame_of_receives hdrawer) hqueue
    have hneeded : tic ≤ a.simTic f := by
      rcases hdrawer with hdrawer | hdrawer <;> rw [takesNeeded, hdrawer, hqueue] at hP <;>
        exact of_decide_eq_true hP
    refine ⟨hroom hqueue, ?_⟩
    · rintro g ⟨⟩
      rw [List.length_append, List.length_singleton]
      omega
  | @stops f stop queue hdrawer hqueue =>
    refine ⟨hroom hqueue, fun g hg => ?_⟩
    rw [show (Drawer.afterStop f stop).frame = none from frame_afterStop f stop] at hg
    cases hg
  | disconnected hdrawer hqueue hfeeder => exact ⟨h.room, nofun⟩
  | @ready f hdrawer hready =>
    refine ⟨h.room, ?_⟩
    rintro g ⟨⟩
    exact h.taken f (by rw [hdrawer]; rfl)
  | @waits f hdrawer hwaits =>
    refine ⟨h.room, ?_⟩
    rintro g ⟨⟩
    exact h.taken f (by rw [hdrawer]; rfl)
  | @draws f hdrawer =>
    refine ⟨h.room, fun g hg => ?_⟩
    dsimp only at hg
    split_ifs at hg
    · cases hg
      exact (h.taken f (by rw [hdrawer]; rfl)).trans (simTic_mono (Nat.le_succ f))
    · cases hg
  | @credits tic queue hdrawer hqueue =>
    refine ⟨hroom hqueue, fun g hg => ?_⟩
    rw [show s.drawer.frame = none by rw [hdrawer]; rfl] at hg
    cases hg
  | discards hdrawer hqueue => exact ⟨hroom hqueue, nofun⟩
  | closes => exact ⟨h.room, nofun⟩

theorem Reaches.paced (h : a.Reaches a.takesNeeded s) : Paced a s := by
  induction h with
  | start => exact ⟨Nat.zero_le _, fun f _ => Nat.zero_le _⟩
  | @step s s' who hr hP hact ih =>
    cases who with
    | feeding => exact ih.feeds (feeds_of_feed hact)
    | drawing => exact ih.draws hr.steady (hP rfl) (draws_of_draw hact)

/-- The feeder is at most one tic past what it sent. -/
theorem Fed.fed_le {sent : List TicOutcome} (h : a.Fed s.feeder s.highest sent) :
    s.highest ≤ s.fed ∧ s.fed ≤ sent.length + 1 := by
  rw [Demo.fed]
  generalize s.feeder = feeder, s.highest = highest at h
  cases h with
  | waiting | committed | stopped =>
    rw [length_commits]
    dsimp only
    omega
  | ended =>
    rw [List.length_append, length_commits]
    dsimp only
    omega

/-- In a run that takes only tics that are needed, the simulation is at most the
lookahead and one tic ahead of the frame being drawn or waited for. -/
theorem lead_bounded {f : Nat} (h : a.Reaches a.takesNeeded s) (hf : s.drawer.frame = some f) :
    s.highest ≤ s.fed ∧ s.fed ≤ a.simTic f + a.capacity + 1 := by
  have hpaced := h.paced
  have hroom := hpaced.room
  have htaken := hpaced.taken f hf
  obtain ⟨hfed, hle⟩ := (h.steady.fed (isEnded_of_frame hf)).fed_le
  rw [List.length_append] at hle
  exact ⟨hfed, by omega⟩

end

/-- A lookahead of one tic over a melt of three frames, and a demo without an end. -/
def meltThree : DemoArgs where
  lookahead := 1
  meltFrames := 3
  stopAtFrame := none
  stops _ := none

open Party in
/-- One step each while the feeder waits for tics that come at once. -/
def meltThreeOrder : List Party :=
  [ feeding, feeding, feeding, drawing, drawing, drawing
  , feeding, feeding, drawing, drawing, drawing, drawing
  , feeding, feeding, drawing, drawing, drawing, drawing
  , feeding, feeding ]

/-- Three frames into the melt, five tics are committed; its frames read the second. -/
theorem lead_grows :
    ∃ s, meltThree.Reaches (fun _ => true) s ∧ s.drawer = .drawing 2 ∧ s.highest = 5 ∧
      ¬s.highest ≤ meltThree.simTic 2 + meltThree.lookahead + 1 := by
  refine ⟨_, meltThree.reaches_of_run meltThreeOrder.reverse rfl, ?_⟩
  decide

open Party in
/-- The drawing side takes each tic as it is sent; the bound is met exactly. -/
theorem lead_bounded_meltThree :
    ∃ s, meltThree.Reaches meltThree.takesNeeded s ∧ s.drawer = .drawing 0 ∧ s.highest = 4 ∧
      s.fed ≤ meltThree.simTic 0 + meltThree.capacity + 1 := by
  have hreaches := meltThree.reaches_of_run (P := meltThree.takesNeeded)
    [ feeding, feeding, feeding, drawing, drawing, drawing, feeding, feeding, drawing, feeding
    , feeding ] rfl
  exact ⟨_, hreaches, rfl, rfl, (lead_bounded hreaches rfl).2⟩

/-! ## The frames -/

section
variable {a : DemoArgs} {s s' : Demo}

/-- What a run that ended drew and reports. -/
structure Final (a : DemoArgs) (drawn : List Nat) (result : Except Failure Unit) : Prop where
  inOrder : drawn = List.range drawn.length
  exact : ∀ f, f ∈ drawn ↔ a.within f = true ∧ a.Committed (a.simTic f)
  reports : ∀ failure, result = .error failure ↔
    (∃ f, a.within f = true ∧ ¬a.Committed (a.simTic f)) ∧
      ∃ tic stop, a.StopsAt tic stop ∧ stop.report = some failure

/-- Frames before one whose tic the feeder stopped short of. -/
theorem AtFrame.final {f : Nat} {stop : Stop} {result : Except Failure Unit}
    (h : a.AtFrame s f) (hcommitted : a.Committed s.highest)
    (hstop : a.StopsAt (s.highest + 1) stop) (hmissing : s.highest < a.simTic f)
    (hresult : ∀ failure, result = .error failure ↔ stop.report = some failure) :
    Final a s.drawn result := by
  have hnot : ∀ g, f ≤ g → ¬a.Committed (a.simTic g) := by
    intro g hg hc
    have hnone := hc (s.highest + 1) (by omega) (hmissing.trans_le (simTic_mono hg))
    rw [hstop.here] at hnone
    cases hnone
  refine ⟨?_, fun g => ?_, fun failure => ?_⟩
  · rw [h.drawn, List.length_range]
  · rw [h.drawn, List.mem_range]
    constructor
    · intro hg
      exact ⟨within_of_le hg.le h.within, hcommitted.mono (h.before g hg)⟩
    · rintro ⟨-, hc⟩
      by_contra hg
      exact hnot g (Nat.le_of_not_lt hg) hc
  · rw [hresult]
    constructor
    · intro hreport
      exact ⟨⟨f, h.within, hnot f le_rfl⟩, _, stop, hstop, hreport⟩
    · rintro ⟨-, tic, stop', hstop', hreport⟩
      rw [(hstop.unique hstop').2]
      exact hreport

/-- Frames up to the last that was asked for. -/
theorem AtFrame.final_last {f : Nat} (h : a.AtFrame s f) (hcommitted : a.Committed s.highest)
    (hready : a.simTic f ≤ s.highest) (hlast : a.within (f + 1) = false) :
    Final a (s.drawn ++ [f]) (.ok ()) := by
  have hdrawn : s.drawn ++ [f] = List.range (f + 1) := by rw [h.drawn, List.range_succ]
  have hwithin : ∀ g, a.within g = true ↔ g < f + 1 := by
    intro g
    constructor
    · intro hg
      by_contra hle
      rw [within_of_le (Nat.le_of_not_lt hle) hg] at hlast
      cases hlast
    · intro hg
      exact within_of_le (Nat.le_of_lt_succ hg) h.within
  have hall : ∀ g, g < f + 1 → a.Committed (a.simTic g) := fun g hg =>
    hcommitted.mono ((simTic_mono (Nat.le_of_lt_succ hg)).trans hready)
  rw [hdrawn]
  refine ⟨by rw [List.length_range], fun g => ?_, fun failure => ?_⟩
  · rw [List.mem_range, hwithin]
    exact ⟨fun hg => ⟨hg, hall g hg⟩, fun hg => hg.1⟩
  · constructor
    · intro hresult
      cases hresult
    · rintro ⟨⟨g, hg, hnot⟩, -⟩
      exact absurd (hall g ((hwithin g).mp hg)) hnot

/-- The run drew what it should have when it stops drawing. -/
structure Settled (a : DemoArgs) (s : Demo) : Prop where
  closing : s.drawer = .closing → Final a s.drawn (.ok ())
  ended : ∀ result, s.drawer = .ended result → Final a s.drawn result

theorem settled_of_frame {f : Nat} (h : s.drawer.frame = some f) : Settled a s := by
  refine ⟨fun hd => ?_, fun result hd => ?_⟩ <;> rw [hd] at h <;> cases h

theorem Settled.feeds (h : Settled a s) (hf : a.Feeds s s') : Settled a s' := by
  cases hf <;> exact ⟨h.closing, h.ended⟩

theorem Settled.draws (h : Settled a s) (hs : a.Steady s) (hP : a.stopsInTime s = true)
    (hd : a.Draws s s') : Settled a s' := by
  cases hd with
  | drained | folds | ready | waits => exact settled_of_frame rfl
  | @stops f stop queue hdrawer hqueue =>
    have hframe := frame_of_receives hdrawer
    have hfed := hs.fed (isEnded_of_frame hframe)
    have hmissing : s.highest < a.simTic f := by
      rcases hdrawer with hdrawer | hdrawer <;> rw [stopsInTime, hdrawer, hqueue] at hP <;>
        exact of_decide_eq_true hP
    have hmem : .stopped stop ∈ s.taken ++ s.queue := by simp [hqueue]
    have hfinal : ∀ {result : Except Failure Unit},
        (∀ failure, result = .error failure ↔ stop.report = some failure) →
        Final a s.drawn result :=
      (hs.frame f hframe).final hfed.highest (hfed.of_stopped_mem hmem).2 hmissing
    cases stop with
    | refused refusal =>
      refine ⟨nofun, ?_⟩
      rintro result ⟨⟩
      exact hfinal fun failure => by simp [Stop.report]
    | failed message =>
      refine ⟨nofun, ?_⟩
      rintro result ⟨⟩
      exact hfinal fun failure => by simp [Stop.report]
    | demoEnded =>
      have hok : Final a s.drawn (.ok ()) := hfinal fun failure => by simp [Stop.report]
      refine ⟨fun _ => hok, fun result hresult => ?_⟩
      dsimp only [Drawer.afterStop] at hresult
      split_ifs at hresult
      cases hresult
      exact hok
  | @disconnected f hdrawer hqueue hfeeder =>
    -- the feeder ended after a stop, which was not taken and is not in the channel
    have hframe := frame_of_receives hdrawer
    have hfed := hs.fed (isEnded_of_frame hframe)
    rw [hfeeder, hqueue, List.append_nil] at hfed
    have htaken := (hs.frame f hframe).taken
    generalize s.taken = taken, s.highest = highest at hfed htaken
    cases hfed with
    | ended hstop => exact absurd (List.mem_append_right _ List.mem_cons_self) (htaken _)
  | @draws f hdrawer =>
    have hframe : s.drawer.frame = some f := by rw [hdrawer]; rfl
    have hcommitted := (hs.fed (isEnded_of_frame hframe)).highest
    by_cases hwithin : a.within (f + 1) = true
    · exact settled_of_frame (f := f + 1) (by simp [hwithin, Drawer.frame])
    · have hfinal := (hs.frame f hframe).final_last hcommitted (hs.drawing f hdrawer)
        (Bool.eq_false_of_not_eq_true hwithin)
      refine ⟨fun _ => hfinal, fun result hresult => ?_⟩
      simp [hwithin] at hresult
  | credits hdrawer hqueue => exact ⟨h.closing, h.ended⟩
  | discards hdrawer hqueue =>
    refine ⟨nofun, ?_⟩
    rintro result ⟨⟩
    exact h.closing hdrawer
  | closes hdrawer hqueue =>
    refine ⟨nofun, ?_⟩
    rintro result ⟨⟩
    exact h.closing hdrawer

theorem Reaches.settled (h : a.Reaches a.stopsInTime s) : Settled a s := by
  induction h with
  | start => exact settled_of_frame rfl
  | @step s s' who hr hP hact ih =>
    cases who with
    | feeding => exact ih.feeds (feeds_of_feed hact)
    | drawing => exact ih.draws hr.steady (hP rfl) (draws_of_draw hact)

/-- Until the run has ended, one of the two can take a step. -/
theorem can_step (a : DemoArgs) (s : Demo) (h : s.drawer.isEnded = false) :
    ∃ who s', a.act s who = some s' := by
  have hcapacity : 0 < a.capacity := Nat.lt_of_lt_of_le Nat.zero_lt_one (Nat.le_max_right _ _)
  have hreceive : ∀ f, s.queue ≠ [] ∨ s.feeder = .ended → ∃ s', receive s f = some s' := by
    intro f hor
    rw [receive]
    rcases hqueue : s.queue with _ | ⟨_ | _, queue⟩
    · exact ⟨_, if_pos (hor.resolve_left fun hne => hne hqueue)⟩
    · exact ⟨_, rfl⟩
    · exact ⟨_, rfl⟩
  cases hdrawer : s.drawer with
  | draining f =>
    by_cases hempty : s.queue = [] ∧ s.feeder ≠ .ended
    · refine ⟨.drawing, { s with drawer := .checking f }, ?_⟩
      rw [act, draw, hdrawer]
      exact if_pos hempty
    · obtain ⟨s', hs'⟩ := hreceive f (by tauto)
      refine ⟨.drawing, s', ?_⟩
      rw [act, draw, hdrawer]
      exact (if_neg hempty).trans hs'
  | checking f =>
    refine ⟨.drawing, ?_⟩
    rw [act, draw, hdrawer]
    dsimp only
    split_ifs <;> exact ⟨_, rfl⟩
  | receiving f =>
    by_cases hor : s.queue ≠ [] ∨ s.feeder = .ended
    · obtain ⟨s', hs'⟩ := hreceive f hor
      refine ⟨.drawing, s', ?_⟩
      rw [act, draw, hdrawer]
      exact hs'
    · -- the drawing side waits, and the channel has room for the feeder
      rw [not_or, not_not] at hor
      refine ⟨.feeding, ?_⟩
      rw [act, feed]
      cases hfeeder : s.feeder with
      | waiting tic =>
        dsimp only
        split <;> exact ⟨_, rfl⟩
      | sending outcome =>
        rw [hdrawer] at h
        have hroom : s.queue.length < a.capacity := by rw [hor.1]; exact hcapacity
        dsimp only
        rw [hdrawer, if_neg (by simp [Drawer.isEnded]), if_pos hroom]
        exact ⟨_, rfl⟩
      | ended => exact absurd hfeeder hor.2
  | drawing f => exact ⟨.drawing, _, by rw [act, draw, hdrawer]⟩
  | closing =>
    refine ⟨.drawing, ?_⟩
    rw [act, draw, hdrawer]
    dsimp only
    split <;> exact ⟨_, rfl⟩
  | ended result =>
    rw [hdrawer] at h
    cases h

/-- In a run that takes a stop only for a frame that misses its tic, the frames drawn are
the first ones, each with its tic committed; one that ended drew every frame asked for
that has its tic, and reports the feeder's stop exactly if some frame asked for has
not; and until it has ended it can go on. -/
theorem frames_drawn (h : a.Reaches a.stopsInTime s) :
    s.drawn = List.range s.drawn.length ∧
      (∀ f ∈ s.drawn, a.within f = true ∧ a.Committed (a.simTic f)) ∧
      (∀ result, s.drawer = .ended result → Final a s.drawn result) ∧
      (s.drawer.isEnded = false → ∃ who s', a.act s who = some s') := by
  have hsettled := h.settled
  have hfinal : ∀ {result : Except Failure Unit}, Final a s.drawn result →
      s.drawn = List.range s.drawn.length ∧
        ∀ f ∈ s.drawn, a.within f = true ∧ a.Committed (a.simTic f) :=
    fun hf => ⟨hf.inOrder, fun f hmem => (hf.exact f).mp hmem⟩
  have hdrawn : s.drawn = List.range s.drawn.length ∧
      ∀ f ∈ s.drawn, a.within f = true ∧ a.Committed (a.simTic f) := by
    cases hframe : s.drawer.frame with
    | some f =>
      have hat := h.steady.frame f hframe
      have hcommitted := (h.steady.fed (isEnded_of_frame hframe)).highest
      refine ⟨by rw [hat.drawn, List.length_range], fun g hg => ?_⟩
      rw [hat.drawn, List.mem_range] at hg
      exact ⟨within_of_le hg.le hat.within, hcommitted.mono (hat.before g hg)⟩
    | none =>
      cases hdrawer : s.drawer with
      | closing => exact hfinal (hsettled.closing hdrawer)
      | ended result => exact hfinal (hsettled.ended result hdrawer)
      | draining | checking | receiving | drawing =>
        rw [hdrawer] at hframe
        cases hframe
  exact ⟨hdrawn.1, hdrawn.2, hsettled.ended, a.can_step s⟩

end

/-- Two frames asked for, and a simulation that refuses the tic after the last they read. -/
def refusedLater : DemoArgs where
  lookahead := 2
  meltFrames := 1
  stopAtFrame := some 1
  stops tic := if tic = 4 then some (.refused "tic 4") else none

open Party in
/-- The feeder commits the third tic and is refused the fourth while the first frame is
drawn. -/
def refusedLaterOrder : List Party :=
  [ drawing, drawing, feeding, feeding, drawing, drawing, drawing, feeding, feeding
  , drawing, drawing, drawing, feeding, feeding, feeding, feeding, drawing, drawing
  , drawing ]

/-- The second frame has its tic and is not drawn, and the run reports a refusal that no
frame it was asked for meets. -/
theorem frame_cut_off :
    ∃ s, refusedLater.Reaches (fun _ => true) s ∧
      s.drawer = .ended (.error (.gate "tic 4")) ∧ s.drawn = [0] ∧
      (∀ f, refusedLater.within f = true → refusedLater.Committed (refusedLater.simTic f)) ∧
      refusedLater.within 1 = true := by
  refine ⟨_, refusedLater.reaches_of_run refusedLaterOrder.reverse rfl, rfl, rfl, ?_, rfl⟩
  intro f hf k hk hkf
  have hf' : f ≤ 1 := of_decide_eq_true hf
  have hk3 : k ≤ 3 := hkf.trans (simTic_mono hf')
  exact if_neg (by omega)

open Party in
/-- Drawn at once, both frames are there and nothing is reported. -/
theorem frames_drawn_refusedLater :
    ∃ s, refusedLater.Reaches refusedLater.stopsInTime s ∧ s.drawer = .ended (.ok ()) ∧
      s.drawn = [0, 1] ∧ Final refusedLater s.drawn (.ok ()) := by
  have hreaches := refusedLater.reaches_of_run (P := refusedLater.stopsInTime)
    [ drawing, drawing, drawing, drawing, drawing, feeding, feeding, drawing, drawing, drawing
    , drawing, drawing, drawing, feeding, feeding, drawing, drawing, drawing, feeding, feeding
    , drawing, drawing ] rfl
  exact ⟨_, hreaches, rfl, rfl, (frames_drawn hreaches).2.2.1 _ rfl⟩

end DemoArgs
end ClickDoom.Native
