import Diplom.Visualizer.Player
import Mathlib.Algebra.Order.Ring.Rat
import Mathlib.Tactic.Ring

/-!
# What the player shows

Every handler that changes the time draws the picture anew, and a new file takes the picture away
until the next one of them. There is one frame at most that the browser has been asked for, and only
while the player plays; it is asked for again and again with the same start, until the end is
reached or passed.
-/

namespace Diplom

namespace Player

variable {p q r : Player} {event : Event}

/-- Whether the picture is gone after an event, if it was or was not before. -/
def Event.blank (gone : Bool) : Event → Bool
  | .fileLoaded _ => true
  | .timelineChange _ | .reset | .frame .. => false
  | .updateSpeed _ | .start _ | .pause => gone

/-- Whether the picture of a file is still to be drawn after a run. -/
def blankAfter (events : List Event) : Bool := events.foldl Event.blank true

/-- The circles are the nodes of the file, the edges are those of the moment that is shown, unless
nothing has been drawn since the file was loaded, and this moment is not past the end of the slider.
It may lie before the beginning, since a frame's time stamp may be older than the start. One frame
at most is asked for, the one that `animationId` names, and none unless the player plays. -/
structure Faithful (p : Player) (blank : Bool) : Prop where
  circles : p.circles = p.topology.nodes
  shown : p.shownTime = p.currentTime
  edges : p.edgePaths =
    if blank then [] else p.drawEdges (updateTopology p.topology.events p.shownTime)
  notPast : blank = false → p.shownTime ≤ p.timelineMax
  frames : p.frames = [] ∨ p.isPlaying = true ∧
    ∃ frame, p.frames = [frame] ∧ p.animationId = some frame.id

structure Sound (p : Player) (blank : Bool) : Prop extends Faithful p blank where
  length : 0 ≤ p.topology.maxTime
  slider : p.topology.maxTime ≤ p.timelineMax

theorem init_sound : init.Sound true :=
  { circles := rfl
    shown := rfl
    edges := rfl
    notPast := by simp
    frames := .inl rfl
    length := le_refl _
    slider := by
      change (0 : Rat) ≤ 100
      decide }

/-! ### One handler after another -/

theorem maxTime_readLine (reading : Reading) (line : Text) :
    reading.maxTime ≤ (readLine reading line).maxTime := by
  unfold readLine
  split
  · exact le_refl _
  · split
    · exact le_refl _
    · split
      · exact le_refl _
      · dsimp only
        split
        · rename_i hlater
          exact hlater.le
        · exact le_refl _

theorem parseInput_maxTime_nonneg (content : Text) : 0 ≤ (parseInput content).maxTime := by
  have hread : ∀ (lines : List Text) (reading : Reading),
      reading.maxTime ≤ (lines.foldl readLine reading).maxTime := by
    intro lines
    induction lines with
    | nil => exact fun _ => le_refl _
    | cons line rest ih => exact fun reading => (maxTime_readLine reading line).trans (ih _)
  exact hread _ _

theorem showCurrent_faithful (hcircles : p.circles = p.topology.nodes)
    (hframes : p.frames = [] ∨ p.isPlaying = true ∧
      ∃ frame, p.frames = [frame] ∧ p.animationId = some frame.id)
    (htime : p.currentTime ≤ p.timelineMax) : p.showCurrent.Faithful false :=
  ⟨hcircles, rfl, rfl, fun _ => htime, hframes⟩

theorem Faithful.frames_of_pause {blank : Bool} (h : p.Faithful blank) :
    p.pauseAnimation.frames = [] := by
  unfold pauseAnimation
  rcases h.frames with hnone | ⟨-, frame, hframe, hid⟩
  · cases hid : p.animationId with
    | none => exact hnone
    | some id =>
        change p.frames.filter _ = []
        rw [hnone]
        rfl
  · rw [hid]
    change p.frames.filter _ = []
    rw [hframe]
    simp

theorem pauseAnimation_keeps (p : Player) :
    p.pauseAnimation.topology = p.topology ∧ p.pauseAnimation.currentTime = p.currentTime ∧
    p.pauseAnimation.shownTime = p.shownTime ∧ p.pauseAnimation.circles = p.circles ∧
    p.pauseAnimation.edgePaths = p.edgePaths ∧ p.pauseAnimation.timelineMax = p.timelineMax ∧
    p.pauseAnimation.isPlaying = false := by
  unfold pauseAnimation
  dsimp only
  split <;> exact ⟨rfl, rfl, rfl, rfl, rfl, rfl, rfl⟩

/-- The frame that the browser runs is the only one. -/
theorem Faithful.takeFrame {blank : Bool} (h : p.Faithful blank) {id : Nat}
    {taken : AnimationFrame × Player} (htaken : p.takeFrame id = some taken) :
    p.isPlaying = true ∧ p.frames = [taken.1] ∧ taken.2 = { p with frames := [] } := by
  obtain ⟨frame, hfind, rfl⟩ := Option.map_eq_some_iff.mp htaken
  have hmem := List.mem_of_find?_eq_some hfind
  have hid : frame.id = id := by simpa using List.find?_some hfind
  rcases h.frames with hnone | ⟨hplays, only, hframe, -⟩
  · rw [hnone] at hmem
    exact absurd hmem List.not_mem_nil
  · rw [hframe] at hmem
    obtain rfl := List.mem_singleton.mp hmem
    refine ⟨hplays, hframe, ?_⟩
    rw [hframe, List.filter_singleton]
    simp [hid]

def elapsed (p : Player) (startTime currentAnimTime : Rat) : Rat :=
  (currentAnimTime - startTime) / 1000 * p.speed

theorem animate_cases (hplays : p.isPlaying = true) (startTime time : Rat) :
    (p.topology.maxTime < p.elapsed startTime time ∧ p.animate startTime time =
      { p with currentTime := p.topology.maxTime, isPlaying := false }.showCurrent) ∨
    (p.elapsed startTime time = p.topology.maxTime ∧
      p.animate startTime time = { p with currentTime := p.topology.maxTime }.showCurrent) ∨
    (p.elapsed startTime time < p.topology.maxTime ∧ p.animate startTime time =
      { p with currentTime := p.elapsed startTime time }.showCurrent.requestAnimationFrame
        startTime) := by
  have hgoes : ¬ p.isPlaying = false := by simp [hplays]
  rcases lt_trichotomy p.topology.maxTime (p.elapsed startTime time) with hlt | heq | hgt
  · refine .inl ⟨hlt, ?_⟩
    unfold elapsed at hlt
    simp [animate, hplays, hlt, showCurrent, showTopology]
  · refine .inr (.inl ⟨heq.symm, ?_⟩)
    unfold elapsed at heq
    simp [animate, hplays, ← heq, showCurrent, showTopology]
  · refine .inr (.inr ⟨hgt, ?_⟩)
    have hnot := not_lt_of_gt hgt
    unfold elapsed at hgt hnot ⊢
    simp [animate, hplays, hnot, hgt, showCurrent, showTopology, requestAnimationFrame]

theorem Sound.step {blank : Bool} (h : p.Sound blank) (hstep : p.step event = some q) :
    q.Sound (event.blank blank) := by
  cases event with
  | updateSpeed option =>
      obtain rfl := Option.some.inj hstep
      exact ⟨⟨h.circles, h.shown, h.edges, h.notPast, h.frames⟩, h.length, h.slider⟩
  | fileLoaded content =>
      obtain rfl := Option.some.inj hstep
      exact ⟨⟨rfl, h.shown, rfl, by simp [Event.blank], h.frames⟩,
        parseInput_maxTime_nonneg content, le_refl _⟩
  | timelineChange value =>
      simp only [Player.step] at hstep
      split at hstep
      · rename_i hvalue
        obtain rfl := Option.some.inj hstep
        exact ⟨showCurrent_faithful h.circles h.frames hvalue.2, h.length, h.slider⟩
      · exact absurd hstep (by simp)
  | start now =>
      obtain rfl := Option.some.inj hstep
      unfold startAnimation
      split
      · exact h
      · rename_i hrests
        have hnone : p.frames = [] := h.frames.resolve_right fun hplays => hrests hplays.1
        refine ⟨⟨h.circles, h.shown, h.edges, h.notPast, .inr ⟨rfl,
          ⟨p.lastId + 1, now - p.currentTime * 1000⟩, ?_, rfl⟩⟩, h.length, h.slider⟩
        change p.frames ++ _ = _
        rw [hnone]
        rfl
  | pause =>
      obtain rfl := Option.some.inj hstep
      obtain ⟨htopology, hcurrent, hshown, hcircles, hedges, hslider, -⟩ := p.pauseAnimation_keeps
      have hnone := h.frames_of_pause
      refine ⟨⟨?_, ?_, ?_, ?_, .inl hnone⟩, ?_, ?_⟩
      · rw [hcircles, htopology, h.circles]
      · rw [hshown, hcurrent, h.shown]
      · rw [hedges, htopology, hshown, h.edges]
        unfold drawEdges hasCircle
        rw [hcircles]
        rfl
      · rw [hshown, hslider]
        exact h.notPast
      · rw [htopology]
        exact h.length
      · rw [htopology, hslider]
        exact h.slider
  | reset =>
      obtain rfl := Option.some.inj hstep
      obtain ⟨htopology, -, -, hcircles, -, hslider, -⟩ := p.pauseAnimation_keeps
      have hnone := h.frames_of_pause
      refine ⟨showCurrent_faithful ?_ (.inl hnone) ?_, ?_, ?_⟩
      · change p.pauseAnimation.circles = p.pauseAnimation.topology.nodes
        rw [hcircles, htopology, h.circles]
      · change 0 ≤ p.pauseAnimation.timelineMax
        rw [hslider]
        exact h.length.trans h.slider
      · change 0 ≤ p.pauseAnimation.topology.maxTime
        rw [htopology]
        exact h.length
      · change p.pauseAnimation.topology.maxTime ≤ p.pauseAnimation.timelineMax
        rw [htopology, hslider]
        exact h.slider
  | frame id time =>
      obtain ⟨taken, htaken, rfl⟩ := Option.map_eq_some_iff.mp hstep
      obtain ⟨hplays, -, hrest⟩ := h.toFaithful.takeFrame htaken
      rw [hrest]
      rcases animate_cases (p := { p with frames := [] }) hplays taken.1.startTime time with
        ⟨-, heq⟩ | ⟨-, heq⟩ | ⟨hlt, heq⟩
      · rw [heq]
        exact ⟨showCurrent_faithful h.circles (.inl rfl) h.slider, h.length, h.slider⟩
      · rw [heq]
        exact ⟨showCurrent_faithful h.circles (.inl rfl) h.slider, h.length, h.slider⟩
      · rw [heq]
        exact ⟨⟨h.circles, rfl, rfl, fun _ => hlt.le.trans h.slider, .inr ⟨hplays, _, rfl, rfl⟩⟩,
          h.length, h.slider⟩

theorem sound_of_exec (events : List Event) {p q : Player} {blank : Bool} (h : p.Sound blank)
    (hexec : machine.exec p events = some q) : q.Sound (events.foldl Event.blank blank) := by
  induction events generalizing p blank with
  | nil => exact Option.some.inj hexec ▸ h
  | cons event rest ih =>
      obtain ⟨mid, hmid, hrest⟩ := Option.bind_eq_some_iff.mp hexec
      exact ih (h.step hmid) hrest

/-- Whatever is clicked and whenever frames come, the picture is that of the moment that is shown.
-/
theorem faithful_of_exec (events : List Event) (h : machine.exec init events = some p) :
    p.Faithful (blankAfter events) :=
  (sound_of_exec events init_sound h).toFaithful

/-- Two nodes find each other, and one of them loses the other again. -/
def shortFile : Text :=
  "1: a\n2: b\n\n[0:00:01.500000] 1 <> 2\n[0:00:03.000000] 1 >< 2\n".toList

/-- The player is started, and a frame comes two seconds later; it is paused, and the slider moved.
-/
theorem faithful_of_two_seconds :
    let events : List Event := [.fileLoaded shortFile, .start 500, .frame 1 2500, .start 2600,
      .pause, .updateSpeed .double]
    (machine.exec init events).map (fun p => (p.shownTime, p.edgePaths))
        = some (2, [⟨1, 2, 1, 0, .discovery⟩]) ∧
      ∀ p ∈ machine.exec init events, p.Faithful (blankAfter events) :=
  ⟨by decide +kernel, fun _ hexec => faithful_of_exec _ hexec⟩

/-! ### Playing -/

/-- The frame is for the very end: the player plays on, but asks for nothing more. -/
def LandsOnEnd (p : Player) : Event → Prop
  | .frame id time => ∃ frame ∈ p.frames, frame.id = id ∧
      p.elapsed frame.startTime time = p.topology.maxTime
  | _ => False

/-- While the player plays the browser has been asked for a frame. -/
def GoesOn (p : Player) : Prop := p.isPlaying = true → p.frames ≠ []

theorem Sound.goesOn_step {blank : Bool} (h : p.Sound blank) (hgoes : p.GoesOn)
    (hstep : p.step event = some q) : q.GoesOn ↔ ¬ p.LandsOnEnd event := by
  cases event with
  | updateSpeed option =>
      obtain rfl := Option.some.inj hstep
      exact iff_of_true hgoes id
  | fileLoaded content =>
      obtain rfl := Option.some.inj hstep
      exact iff_of_true hgoes id
  | timelineChange value =>
      simp only [Player.step] at hstep
      split at hstep
      · obtain rfl := Option.some.inj hstep
        exact iff_of_true hgoes id
      · exact absurd hstep (by simp)
  | start now =>
      obtain rfl := Option.some.inj hstep
      refine iff_of_true ?_ id
      unfold startAnimation
      split
      · exact hgoes
      · intro _ hnone
        exact absurd hnone (by simp [requestAnimationFrame])
  | pause =>
      obtain rfl := Option.some.inj hstep
      refine iff_of_true (fun hplays => ?_) id
      rw [p.pauseAnimation_keeps.2.2.2.2.2.2] at hplays
      exact absurd hplays (by simp)
  | reset =>
      obtain rfl := Option.some.inj hstep
      refine iff_of_true (fun hplays => ?_) id
      have hrests : p.resetAnimation.isPlaying = p.pauseAnimation.isPlaying := rfl
      rw [hrests, p.pauseAnimation_keeps.2.2.2.2.2.2] at hplays
      exact absurd hplays (by simp)
  | frame id time =>
      obtain ⟨taken, htaken, rfl⟩ := Option.map_eq_some_iff.mp hstep
      obtain ⟨hplays, honly, hrest⟩ := h.toFaithful.takeFrame htaken
      have hid : taken.1.id = id := by
        obtain ⟨frame, hfind, rfl⟩ := Option.map_eq_some_iff.mp htaken
        simpa using List.find?_some hfind
      have hlands : p.LandsOnEnd (.frame id time) ↔
          p.elapsed taken.1.startTime time = p.topology.maxTime := by
        simp [LandsOnEnd, honly, hid]
      rw [hrest, hlands]
      rcases animate_cases (p := { p with frames := [] }) hplays taken.1.startTime time with
        ⟨hlt, heq⟩ | ⟨heq', heq⟩ | ⟨hlt, heq⟩
      · rw [heq]
        exact iff_of_true (fun hplays => absurd hplays (by simp [showCurrent, showTopology]))
          hlt.ne'
      · rw [heq]
        exact iff_of_false (fun hgoes => hgoes hplays rfl) (fun hnot => hnot heq')
      · rw [heq]
        exact iff_of_true (fun _ hnone => absurd hnone (by simp [requestAnimationFrame])) hlt.ne

/-- Whenever the player plays it has asked for a frame, exactly if no frame comes for the very end.
After such a frame it plays without going on, and its button does nothing. -/
theorem goesOn_iff (events : List Event) :
    machine.Always GoesOn init events ↔
      machine.EachStep (fun p event => ¬ p.LandsOnEnd event) init events := by
  refine Machine.always_iff_eachStep (I := fun p => ∃ blank, p.Sound blank) ?_ ?_ events
    ⟨true, init_sound⟩ (by simp [GoesOn, init])
  · rintro p event q ⟨blank, h⟩ hstep
    exact ⟨_, h.step hstep⟩
  · rintro p event q ⟨blank, h⟩ hgoes hstep
    exact h.goesOn_step hgoes hstep

theorem startTime_of_exec {startTime : Rat} (events : List Event)
    (hstart : ∀ now, Event.start now ∉ events) {p q : Player} {blank : Bool} (h : p.Sound blank)
    (hframes : ∀ frame ∈ p.frames, frame.startTime = startTime)
    (hexec : machine.exec p events = some q) : ∀ frame ∈ q.frames, frame.startTime = startTime := by
  induction events generalizing p blank with
  | nil => exact Option.some.inj hexec ▸ hframes
  | cons event rest ih =>
      obtain ⟨mid, hmid, hrest⟩ := Option.bind_eq_some_iff.mp hexec
      refine ih (fun now hnow => hstart now (List.mem_cons_of_mem _ hnow)) (h.step hmid) ?_ hrest
      have hstep : p.step event = some mid := hmid
      cases event with
      | start now => exact absurd List.mem_cons_self (hstart now)
      | updateSpeed option =>
          obtain rfl := Option.some.inj hstep
          exact hframes
      | fileLoaded content =>
          obtain rfl := Option.some.inj hstep
          exact hframes
      | timelineChange value =>
          simp only [Player.step] at hstep
          split at hstep
          · obtain rfl := Option.some.inj hstep
            exact hframes
          · exact absurd hstep (by simp)
      | pause =>
          obtain rfl := Option.some.inj hstep
          rw [h.frames_of_pause]
          simp
      | reset =>
          obtain rfl := Option.some.inj hstep
          change ∀ frame ∈ p.pauseAnimation.frames, _
          rw [h.frames_of_pause]
          simp
      | frame id time =>
          obtain ⟨taken, htaken, rfl⟩ := Option.map_eq_some_iff.mp hstep
          obtain ⟨hplays, honly, hrest⟩ := h.toFaithful.takeFrame htaken
          have htime : taken.1.startTime = startTime := hframes _ (by rw [honly]; simp)
          rw [hrest]
          rcases animate_cases (p := { p with frames := [] }) hplays taken.1.startTime time with
            ⟨-, heq⟩ | ⟨-, heq⟩ | ⟨-, heq⟩
          · rw [heq]
            simp [showCurrent, showTopology]
          · rw [heq]
            simp [showCurrent, showTopology]
          · rw [heq]
            simp [requestAnimationFrame, showCurrent, showTopology, htime]

/-- What a frame shows: the time at which the player was started and the time since then, both at
the speed that is chosen now, and at most the end. Where the slider has been moved meanwhile does
not matter. -/
theorem frame_shows (before after : List Event) (now time : Rat) (id : Nat) {p q r : Player}
    (hbefore : machine.exec init before = some p) (hrests : p.isPlaying = false)
    (hstart : ∀ now, Event.start now ∉ after)
    (hafter : machine.exec p (.start now :: after) = some q)
    (hframe : q.step (.frame id time) = some r) :
    r.shownTime
      = min q.topology.maxTime ((p.currentTime + (time - now) / 1000) * q.speed) := by
  have hsound := sound_of_exec before init_sound hbefore
  obtain ⟨mid, hmid, hrest⟩ := Option.bind_eq_some_iff.mp hafter
  have hstarted : ∀ frame ∈ mid.frames, frame.startTime = now - p.currentTime * 1000 := by
    obtain rfl := Option.some.inj hmid
    have hnone : p.frames = [] := by
      apply hsound.frames.resolve_right
      intro hplays
      rw [hrests] at hplays
      exact absurd hplays.1 (by simp)
    simp [startAnimation, hrests, requestAnimationFrame, hnone]
  have hmidSound : mid.Sound (Event.blank _ (.start now)) := hsound.step hmid
  have hqSound := sound_of_exec after hmidSound hrest
  have hframes := startTime_of_exec after hstart hmidSound hstarted hrest
  obtain ⟨taken, htaken, rfl⟩ := Option.map_eq_some_iff.mp hframe
  obtain ⟨hplays, honly, hrest⟩ := hqSound.toFaithful.takeFrame htaken
  have htime : taken.1.startTime = now - p.currentTime * 1000 := hframes _ (by rw [honly]; simp)
  have helapsed : ({ q with frames := [] } : Player).elapsed taken.1.startTime time
      = (p.currentTime + (time - now) / 1000) * q.speed := by
    rw [htime]
    unfold elapsed
    ring
  rw [hrest, ← helapsed]
  rcases animate_cases (p := { q with frames := [] }) hplays taken.1.startTime time with
    ⟨hlt, heq⟩ | ⟨heq', heq⟩ | ⟨hlt, heq⟩
  · rw [heq, min_eq_left hlt.le]
    rfl
  · rw [heq, heq', min_self]
    rfl
  · rw [heq, min_eq_right hlt.le]
    rfl

/-- The player is paused after two seconds and started again at twice the speed: the first frame,
which comes at once, is for the fourth second, and so for the end. -/
theorem frame_shows_jump :
    let before : List Event := [.fileLoaded shortFile, .start 500, .frame 1 2500, .pause,
      .updateSpeed .double]
    (machine.exec init before).map (fun p => (p.isPlaying, p.shownTime)) = some (false, 2) ∧
      (machine.exec init (before ++ [.start 9000, .frame 3 9000])).map (·.shownTime) = some 3 ∧
      ∀ p ∈ machine.exec init before, ∀ q ∈ machine.exec p [.start 9000],
        ∀ r ∈ q.step (.frame 3 9000), r.shownTime
          = min q.topology.maxTime ((p.currentTime + (9000 - 9000) / 1000) * q.speed) := by
  intro before
  have hpaused : (machine.exec init before).map (fun p => (p.isPlaying, p.shownTime))
      = some (false, 2) := by
    decide +kernel
  refine ⟨hpaused, by decide +kernel, ?_⟩
  intro p hp q hq r hr
  rw [hp] at hpaused
  have hrests : p.isPlaying = false := (Prod.mk.inj (Option.some.inj hpaused)).1
  exact frame_shows before [] 9000 9000 3 hp hrests (by simp) hq hr

end Player

end Diplom
