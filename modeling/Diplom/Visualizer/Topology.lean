import Diplom.Emulator.CombineLogs

/-!
# The visualizer's picture of a moment

`updateTopology` replays the changes up to a moment: sessions in a `Map` under the name of their
edge, discoveries in an array from which a loss takes the first entry that fits. Then it draws an
edge for each entry. Nodes are the numbers that `parseInput` has read, and an edge's name is made of
their decimal digits.
-/

namespace Diplom

/-- The name of an edge, as the template string makes it. -/
def edgeName (edge : Nat × Nat) : List Char :=
  Nat.toDigits 10 edge.1 ++ '-' :: Nat.toDigits 10 edge.2

inductive EdgeType
  | active
  | discovery
deriving DecidableEq, Repr

/-- A call of `drawEdge`. -/
structure DrawnEdge where
  fromId : Nat
  toId : Nat
  totalEdges : Nat
  edgeIndex : Nat
  edgeType : EdgeType
deriving DecidableEq

/-- The two containers that `updateTopology` fills. -/
structure Replay where
  activeEdges : List (List Char × (Nat × Nat))
  discoveryEvents : List (Nat × Nat)

namespace Replay

variable {Time : Type} (r : Replay)

/-- Whether a discovery is about these two nodes, in one order or the other. -/
def sameNodes (x y : Nat) (e : Nat × Nat) : Bool := e.1 = x ∧ e.2 = y ∨ e.2 = x ∧ e.1 = y

/-- One event. `splice` takes out the entry that `findIndex` finds, if it finds one. -/
def play (event : EdgeEvent Time Nat) : Replay :=
  let edge := (event.fromNode, event.toNode)
  match event.action with
  | .connect => { r with activeEdges := KeyedList.set (edgeName edge) edge r.activeEdges }
  | .disconnect => { r with activeEdges := KeyedList.erase (edgeName edge) r.activeEdges }
  | .discover => { r with discoveryEvents := r.discoveryEvents ++ [edge] }
  | .lose => { r with discoveryEvents :=
    r.discoveryEvents.eraseP (sameNodes event.fromNode event.toNode) }

/-- The loop over the events, up to the first one after `time`. -/
def replay [LT Time] [DecidableLT Time] (time : Time) : List (EdgeEvent Time Nat) → Replay → Replay
  | [], r => r
  | event :: rest, r => if time < event.time then r else replay time rest (r.play event)

/-- `edgeCounts[key]`. -/
def edgeCount (key : List Char) : Nat := (r.activeEdges.filter fun e => edgeName e.2 = key).length

/-- The place of a key among the keys that are equal to it. -/
def edgeIndex (key : List Char) : Nat := ((r.activeEdges.map Prod.fst).filter (· = key)).idxOf key

/-- The edges drawn: the discoveries, then the sessions. -/
def draw : List DrawnEdge :=
  r.discoveryEvents.map (fun e => ⟨e.1, e.2, 1, 0, .discovery⟩) ++ r.activeEdges.map fun e =>
    ⟨e.2.1, e.2.2, r.edgeCount (edgeName e.2), r.edgeIndex (edgeName e.2), .active⟩

end Replay

/-- `updateTopology`. -/
def updateTopology {Time : Type} [LT Time] [DecidableLT Time] (events : List (EdgeEvent Time Nat))
    (time : Time) : List DrawnEdge :=
  (Replay.replay time events ⟨[], []⟩).draw

end Diplom
