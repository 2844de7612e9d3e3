import Diplom.Lib.KeyedList
import Mathlib.Data.Finset.Erase
import Mathlib.Data.Finset.Insert

/-!
# The analyser of the emulator's logs

`get_experiment_stats` goes through the events of all nodes in the order of their times. It keeps
what each node has said about its neighbours and its sessions, writes down a change whenever both
ends of an edge have said the same, and keeps the graph of the open sessions to see when it is
connected. Its sets are finite sets, its dictionaries are lists of entries in the order of their
insertion, and where it raises an exception there is nothing.

Nodes are told apart by whatever stands for their numbers, and times are only compared and passed
on.
-/

namespace Diplom

/-! ### The graph of open sessions -/

/-- `Graph`: the neighbours of each vertex. An edge that was added twice is there twice. -/
structure Graph (Node : Type) where
  graph : List (Node × List Node)

namespace Graph

variable {Node : Type} [DecidableEq Node] (g : Graph Node)

/-- `__init__`. -/
def empty : Graph Node := ⟨[]⟩

/-- `self.graph.get(vertex, [])`. -/
def neighbours (vertex : Node) : List Node := (KeyedList.get vertex g.graph).getD []

/-- `add_vertex`. -/
def addVertex (vertex : Node) : Graph Node :=
  match KeyedList.get vertex g.graph with
  | some _ => g
  | none => ⟨KeyedList.set vertex [] g.graph⟩

/-- `self.graph[u] = neighbours`. -/
def setNeighbours (u : Node) (neighbours : List Node) : Graph Node :=
  ⟨KeyedList.set u neighbours g.graph⟩

/-- `add_edge`. -/
def addEdge (u v : Node) : Graph Node :=
  let g := (g.addVertex u).addVertex v
  let g := g.setNeighbours u (g.neighbours u ++ [v])
  g.setNeighbours v (g.neighbours v ++ [u])

/-- `self.graph[u].remove(v)`: the first occurrence goes, and without one there is an exception. -/
def removeNeighbour (u v : Node) : Option (Graph Node) :=
  if v ∈ g.neighbours u then some (g.setNeighbours u ((g.neighbours u).erase v)) else none

/-- `erase_edge`. -/
def eraseEdge (u v : Node) : Option (Graph Node) :=
  (((g.addVertex u).addVertex v).removeNeighbour u v).bind fun g => g.removeNeighbour v u

/-- The loop of `is_connected`, for at most `fuel` rounds: the vertices visited. The last element of
`stack` is its first here. -/
def visit : Nat → List Node → List Node → List Node
  | 0, visited, _ => visited
  | _ + 1, visited, [] => visited
  | fuel + 1, visited, vertex :: stack =>
      if vertex ∈ visited then visit fuel visited stack
      else
        let visited := visited ++ [vertex]
        visit fuel visited (((g.neighbours vertex).filter (· ∉ visited)).reverse ++ stack)

/-- How often a vertex can be taken from the stack: the first one, and one for each entry of a
neighbour. -/
def rounds : Nat := 1 + (g.graph.map fun entry => entry.2.length).sum

/-- `is_connected`. -/
def isConnected : Bool :=
  match g.graph with
  | [] => true
  | (start, _) :: _ => (g.visit g.rounds [] [start]).length = g.graph.length

end Graph

/-! ### Events -/

inductive SessionDirection
  | incoming
  | outgoing
deriving DecidableEq, Repr

/-- `Event.what`. -/
inductive What
  | saw
  | lost
  | opened (dir : SessionDirection)
  | closed (dir : SessionDirection)
deriving DecidableEq, Repr

/-- `Event`. -/
structure NodeEvent (Mac : Type) where
  mac1 : Mac
  what : What
  mac2 : Mac
deriving DecidableEq

/-- What stands between the two nodes of a change: `->`, `|>`, `<>` or `><`. -/
inductive EdgeAction
  | connect
  | disconnect
  | discover
  | lose
deriving DecidableEq, Repr

/-- A change of the topology. -/
structure EdgeEvent (Time Node : Type) where
  time : Time
  fromNode : Node
  action : EdgeAction
  toNode : Node
deriving DecidableEq

/-- The variables of `get_experiment_stats`. -/
structure Experiment (Time Node : Type) where
  graph : Graph Node
  incoming : Finset (Node × Node)
  outgoing : Finset (Node × Node)
  visible : Finset (Node × Node)
  connTime : Option Time
  syncTime : Option Time
  lastState : Bool
  events : List (EdgeEvent Time Node)

namespace Experiment

variable {Time Node Mac : Type} [DecidableEq Node] [DecidableEq Mac] (s : Experiment Time Node)

/-- Before the loop. -/
def start (macToNum : List (Mac × Node)) : Experiment Time Node :=
  let graph := macToNum.foldl (fun g entry => g.addVertex entry.2) .empty
  { graph := graph
    incoming := ∅
    outgoing := ∅
    visible := ∅
    connTime := none
    syncTime := none
    lastState := graph.isConnected
    events := [] }

/-- `events.append`, if the other end agrees. -/
def emit (agreed : Bool) (event : EdgeEvent Time Node) : Experiment Time Node :=
  if agreed then { s with events := s.events ++ [event] } else s

/-- `graph.add_edge`, if the other end agrees. -/
def addEdge (agreed : Bool) (a b : Node) : Experiment Time Node :=
  if agreed then { s with graph := s.graph.addEdge a b } else s

/-- `graph.erase_edge`, if the other end agrees. -/
def eraseEdge (agreed : Bool) (a b : Node) : Option (Experiment Time Node) :=
  if agreed then (s.graph.eraseEdge a b).map fun graph => { s with graph := graph } else some s

/-- What an event of node `a` about node `b` does to the sets, the changes and the graph. -/
def apply (time : Time) (a b : Node) : What → Option (Experiment Time Node)
  | .saw =>
      let s := { s with visible := insert (a, b) s.visible }
      some (s.emit ((b, a) ∈ s.visible) ⟨time, b, .discover, a⟩)
  | .lost =>
      if (a, b) ∈ s.visible then
        let s := { s with visible := s.visible.erase (a, b) }
        some (s.emit ((b, a) ∈ s.visible) ⟨time, b, .lose, a⟩)
      else none
  | .opened .incoming =>
      let s := { s with incoming := insert (a, b) s.incoming }
      let agreed : Bool := (b, a) ∈ s.outgoing
      some ((s.emit agreed ⟨time, b, .connect, a⟩).addEdge agreed a b)
  | .opened .outgoing =>
      let s := { s with outgoing := insert (a, b) s.outgoing }
      let agreed : Bool := (b, a) ∈ s.incoming
      some ((s.emit agreed ⟨time, a, .connect, b⟩).addEdge agreed a b)
  | .closed .incoming =>
      if (a, b) ∈ s.incoming then
        let s := { s with incoming := s.incoming.erase (a, b) }
        let agreed : Bool := (b, a) ∈ s.outgoing
        (s.emit agreed ⟨time, b, .disconnect, a⟩).eraseEdge agreed a b
      else none
  | .closed .outgoing =>
      if (a, b) ∈ s.outgoing then
        let s := { s with outgoing := s.outgoing.erase (a, b) }
        let agreed : Bool := (b, a) ∈ s.incoming
        (s.emit agreed ⟨time, a, .disconnect, b⟩).eraseEdge agreed a b
      else none

/-- The end of a round: whether the graph is connected, and since when. -/
def mark (time : Time) (newState : Bool) : Experiment Time Node :=
  let connTime := if s.lastState = false ∧ newState = true then some time else s.connTime
  { s with
    lastState := newState
    connTime := if newState then connTime else none
    syncTime := if newState then some time else none }

/-- One round of the loop. `saw` and `lost` leave the graph as it is, so the state of the graph
after the event is the one that is marked. -/
def round (macToNum : List (Mac × Node)) (it : Time × NodeEvent Mac) :
    Option (Experiment Time Node) :=
  (KeyedList.get it.2.mac1 macToNum).bind fun a =>
    (KeyedList.get it.2.mac2 macToNum).bind fun b =>
      (s.apply it.1 a b it.2.what).map fun s => s.mark it.1 s.graph.isConnected

/-- The loop. -/
def run (macToNum : List (Mac × Node)) :
    List (Time × NodeEvent Mac) → Experiment Time Node → Option (Experiment Time Node)
  | [], s => some s
  | it :: rest, s => (s.round macToNum it).bind fun s => run macToNum rest s

/-- The variables after the events. -/
def after (macToNum : List (Mac × Node)) (allEvents : List (Time × NodeEvent Mac)) :
    Option (Experiment Time Node) :=
  run macToNum allEvents (start macToNum)

end Experiment

/-- `get_experiment_stats`. -/
def getExperimentStats {Time Node Mac : Type} [DecidableEq Node] [DecidableEq Mac]
    (macToNum : List (Mac × Node)) (allEvents : List (Time × NodeEvent Mac)) :
    Option (Option Time × Option Time × List (EdgeEvent Time Node)) :=
  (Experiment.after macToNum allEvents).map fun s => (s.connTime, s.syncTime, s.events)

end Diplom
