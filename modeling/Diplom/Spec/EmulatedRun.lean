import Diplom.Emulator.Analysis
import Diplom.Proof.PrintedLogs
import Diplom.Proof.Replay

/-!
# From the nodes of an experiment to the picture of a moment

`run_experiment` starts the transport in every container and has what it prints written to a file
with the node's number in its name. The analysis reads these files, and the visualizer reads what
the analysis has written. What the picture of a moment should show is said here with the reports of
the nodes alone, at the points in time at which they were made.
-/

namespace Diplom

/-- What a node reports of a peer, and when. -/
structure Report where
  real : Int
  what : What
  peer : PeerId
deriving DecidableEq

/-- The word that is given of the peer or taken back. -/
def Report.mark (report : Report) : Option ((Word × PeerId) × Bool) :=
  some ((report.what.word.1, report.peer), report.what.word.2)

/-- A node of an experiment, with the file that its output goes to. -/
structure EmulatedNode extends PrintedLog where
  number : Nat
  named : name = "log_".toList ++ Nat.toDigits 10 number

namespace EmulatedNode

variable (node : EmulatedNode)

def reports : List Report :=
  node.after.filterMap fun line => line.2.said.map fun said => ⟨line.1, said.1, said.2⟩

/-- The reports before the end of the experiment. -/
def inTime (first duration : Int) : List Report :=
  node.reports.filter fun r => r.real - first < duration * microsPerSecond

/-- The reports up to a moment, so many seconds after the first start. -/
def upTo (first : Int) (moment : Rat) : List Report :=
  node.reports.filter fun r => seconds (r.real - first) ≤ moment

/-- The node as the picture has it. -/
def drawn : TopologyNode := ⟨some node.number, upper (peerText node.self)⟩

/-- The node has given a word of a peer and not taken it back up to a moment. -/
def Holds (first : Int) (moment : Rat) (word : Word) (peer : PeerId) : Prop :=
  Brackets.IsOpen Report.mark (word, peer) (node.upTo first moment)

end EmulatedNode

/-- The nodes of an experiment that was shorter than a day. -/
structure EmulatedRun where
  nodes : List EmulatedNode
  numbers : (nodes.map fun node => node.number).Nodup
  selves : (nodes.map fun node => node.self).Nodup
  chronological : ∀ node ∈ nodes, (node.lines.map Prod.fst).Pairwise (· ≤ ·)
  short : ∀ node ∈ nodes, ∀ node' ∈ nodes, ∀ line ∈ node.lines, ∀ line' ∈ node'.lines,
    line'.1 - line.1 < microsPerDay

namespace EmulatedRun

variable (run : EmulatedRun)

/-- The directory of the logs: the lines of each file. -/
def files : List (Text × List Text) :=
  run.nodes.map fun node => (node.name, fileLines node.text)

/-- When the first node started. -/
def firstStart : Option Int := (run.nodes.map fun node => node.startTime).min?

/-- A run of which the logs tell all: no midnight falls into it, every peer that a node reports of
is another node, a node takes back what it has said, and it does not find a neighbour again that it
has not lost. No report comes a whole number of seconds after the first start, and a double has
every number. -/
structure Orderly (duration : Int) : Prop where
  sameDay : ∀ first ∈ run.firstStart, ∀ node ∈ run.nodes, RunLogs.SameDay first node.startTime ∧
    ∀ r ∈ node.reports, RunLogs.SameDay first r.real
  known : ∀ first ∈ run.firstStart, ∀ node ∈ run.nodes, ∀ r ∈ node.inTime first duration,
    r.peer ≠ node.self ∧ ∃ other ∈ run.nodes, other.self = r.peer
  paired : ∀ first ∈ run.firstStart, ∀ node ∈ run.nodes, ∀ key,
    Brackets.Paired Report.mark key (node.inTime first duration)
  sights : ∀ first ∈ run.firstStart, ∀ node ∈ run.nodes, ∀ peer,
    Brackets.Alternates Report.mark (.visible, peer) (node.inTime first duration)
  fraction : ∀ first ∈ run.firstStart, ∀ node ∈ run.nodes, ∀ r ∈ node.inTime first duration,
    ¬ (microsPerSecond : Int) ∣ r.real - first
  exact : ∀ node ∈ run.nodes, node.number < 2 ^ 53

/-- The picture of a moment: an arrow for each session that the one end holds to be outgoing and the
other incoming, and a line between each two nodes that see each other, all drawn once. -/
structure Shows (first : Int) (moment : Rat) (drawn : List DrawnEdge) : Prop where
  sessionsOnce : (edgesOf .active drawn).Nodup
  sessions : ∀ x y, (x, y) ∈ edgesOf .active drawn ↔
    ∃ a ∈ run.nodes, ∃ b ∈ run.nodes, a.number = x ∧ b.number = y ∧
      a.Holds first moment (.session .outgoing) b.self ∧
      b.Holds first moment (.session .incoming) a.self
  discoveriesOnce : ((edgesOf .discovery drawn).map fun e => s(e.1, e.2)).Nodup
  discoveries : ∀ x y, s(x, y) ∈ (edgesOf .discovery drawn).map (fun e => s(e.1, e.2)) ↔
    ∃ a ∈ run.nodes, ∃ b ∈ run.nodes, a.number = x ∧ b.number = y ∧
      a.Holds first moment .visible b.self ∧ b.Holds first moment .visible a.self

end EmulatedRun

end Diplom
