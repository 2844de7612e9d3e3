import Diplom.Lib.Machine
import Diplom.Visualizer.ParseInput
import Diplom.Visualizer.Topology

/-!
# The player

The page has a slider, three buttons, a list of speeds and a file input, and a script that goes on
with time while it plays. The browser runs one handler after another. A function that is given to
`requestAnimationFrame` runs once, with the time of the frame, unless it is cancelled before.

Of the page there are the circles of the nodes, the edges and the time. Where the circles stand, and
the place of the slider's knob, are left out. Times are in seconds, exact where JavaScript's doubles
are rounded, and what the clock says is in milliseconds. The time stamp of a frame may be older than
the click that asked for it, so the time that is shown can be negative.
-/

namespace Diplom

/-- The options of `speed-select`. -/
inductive SpeedOption
  | half
  | normal
  | double
  | five
deriving DecidableEq

/-- `parseFloat(speedSelect.value)`. -/
def SpeedOption.value : SpeedOption → Rat
  | .half => 1 / 2
  | .normal => 1
  | .double => 2
  | .five => 5

/-- A run of `animate` that the browser has been asked for, with the `startTime` of its closure. -/
structure AnimationFrame where
  id : Nat
  startTime : Rat
deriving DecidableEq

structure Player where
  /-- `nodes`, `events` and `maxTime`. -/
  topology : Topology
  currentTime : Rat
  animationId : Option Nat
  isPlaying : Bool
  speed : Rat
  /-- What the browser has been asked for and has not run. -/
  frames : List AnimationFrame
  /-- The last number that `requestAnimationFrame` has returned. -/
  lastId : Nat
  /-- `timeline.max`. -/
  timelineMax : Rat
  /-- The number in `time-display`. -/
  shownTime : Rat
  /-- The circles, each with the node that `data-id` is about. -/
  circles : List TopologyNode
  /-- The elements of the class `edge-path`. -/
  edgePaths : List DrawnEdge

namespace Player

variable (p : Player)

/-- The page as it is loaded. -/
def init : Player where
  topology := ⟨[], [], 0⟩
  currentTime := 0
  animationId := none
  isPlaying := false
  speed := 1
  frames := []
  lastId := 0
  timelineMax := 100
  shownTime := 0
  circles := []
  edgePaths := []

/-- Whether `querySelector` finds a circle. -/
def hasCircle (id : Nat) : Bool := p.circles.any fun node => node.id = some (id : Int)

/-- The paths that `drawEdge` appends, one call after another. -/
def drawEdges (edges : List DrawnEdge) : List DrawnEdge :=
  edges.filter fun edge => p.hasCircle edge.fromId && p.hasCircle edge.toId

/-- `updateTopology`: the paths that are there are removed. -/
def showTopology (time : Rat) : Player :=
  { p with edgePaths := p.drawEdges (updateTopology p.topology.events time) }

/-- The end of a handler that has set `currentTime`. -/
def showCurrent : Player := { p with shownTime := p.currentTime }.showTopology p.currentTime

/-- `updateSpeed`. -/
def updateSpeed (option : SpeedOption) : Player := { p with speed := option.value }

/-- `renderTopology`: whatever has been drawn is gone, and the circles are new. -/
def renderTopology : Player := { p with circles := p.topology.nodes, edgePaths := [] }

/-- `updateTimelineMax`. -/
def updateTimelineMax : Player := { p with timelineMax := p.topology.maxTime }

/-- `reader.onload` in `handleFileUpload`. -/
def fileLoaded (content : Text) : Player :=
  { p with topology := parseInput content }.renderTopology.updateTimelineMax

/-- `handleTimelineChange`, with the value of the slider. -/
def handleTimelineChange (value : Rat) : Player := { p with currentTime := value }.showCurrent

/-- `requestAnimationFrame(animate)`, and the number that it returns. -/
def requestAnimationFrame (startTime : Rat) : Player :=
  { p with
    frames := p.frames ++ [⟨p.lastId + 1, startTime⟩]
    lastId := p.lastId + 1
    animationId := some (p.lastId + 1) }

/-- `cancelAnimationFrame`. -/
def cancelAnimationFrame (id : Nat) : Player :=
  { p with frames := p.frames.filter fun frame => frame.id ≠ id }

/-- `startAnimation`, when `performance.now()` is `now`. -/
def startAnimation (now : Rat) : Player :=
  if p.isPlaying then p
  else { p with isPlaying := true }.requestAnimationFrame (now - p.currentTime * 1000)

/-- `animate`. -/
def animate (startTime currentAnimTime : Rat) : Player :=
  if p.isPlaying = false then p
  else
    let elapsed := (currentAnimTime - startTime) / 1000 * p.speed
    let p :=
      if p.topology.maxTime < elapsed then
        { p with currentTime := p.topology.maxTime, isPlaying := false }
      else { p with currentTime := elapsed }
    let p := p.showCurrent
    if p.isPlaying ∧ p.currentTime < p.topology.maxTime then p.requestAnimationFrame startTime
    else p

/-- `pauseAnimation`. -/
def pauseAnimation : Player :=
  let p := { p with isPlaying := false }
  match p.animationId with
  | none => p
  | some id => { p.cancelAnimationFrame id with animationId := none }

/-- `resetAnimation`. -/
def resetAnimation : Player := { p.pauseAnimation with currentTime := 0 }.showCurrent

inductive Event
  | updateSpeed (option : SpeedOption)
  | fileLoaded (content : Text)
  | timelineChange (value : Rat)
  | start (now : Rat)
  | pause
  | reset
  /-- The browser runs a frame. -/
  | frame (id : Nat) (currentAnimTime : Rat)

/-- The browser has run a frame and forgets it. -/
def takeFrame (id : Nat) : Option (AnimationFrame × Player) :=
  (p.frames.find? fun frame => frame.id = id).map fun frame =>
    (frame, { p with frames := p.frames.filter fun frame => frame.id ≠ id })

def step : Event → Option Player
  | .updateSpeed option => some (p.updateSpeed option)
  | .fileLoaded content => some (p.fileLoaded content)
  | .timelineChange value =>
      if 0 ≤ value ∧ value ≤ p.timelineMax then some (p.handleTimelineChange value) else none
  | .start now => some (p.startAnimation now)
  | .pause => some p.pauseAnimation
  | .reset => some p.resetAnimation
  | .frame id currentAnimTime =>
      (p.takeFrame id).map fun taken => taken.2.animate taken.1.startTime currentAnimTime

def machine : Machine Player Event := ⟨step⟩

end Player

end Diplom
