import Diplom.Emulator.LogFiles

/-!
# The analysis of an experiment

`main` of the log merger goes from the files of a directory to the two files that it writes and to
the verdict that it prints. Numbers of nodes are texts, as the names of the files have them, and the
nodes are written in the order of what `int` makes of these texts.
-/

namespace Diplom

open Python

/-- `Event.what`, as it is written. -/
def What.text : What → Text
  | .saw => "saw".toList
  | .lost => "lost".toList
  | .opened .incoming => "open INCOMING".toList
  | .opened .outgoing => "open OUTGOING".toList
  | .closed .incoming => "close INCOMING".toList
  | .closed .outgoing => "close OUTGOING".toList

/-- `sorted(mac_to_num.items(), key=lambda x: int(x[1]))`, nothing for a `ValueError`. -/
def sortedItems (macToNum : List (Text × Text)) : Option (List (Text × Text)) :=
  (macToNum.mapM fun entry => (readInt isIntSpace digit entry.2).map fun num => (num, entry)).map
    fun items => (items.insertionSort fun x y => x.1 ≤ y.1).map Prod.snd

/-- The lines of the nodes, and the empty line behind them. -/
def nodesText (items : List (Text × Text)) : Text :=
  (items.flatMap fun entry => entry.2 ++ ':' :: ' ' :: entry.1 ++ ['\n']) ++ ['\n']

/-- A line of `combined_log.txt`, nothing for a node without a number. -/
def combinedLine (macToNum : List (Text × Text)) (ev : Timedelta × NodeEvent Text) : Option Text :=
  (KeyedList.get ev.2.mac1 macToNum).bind fun a =>
    (KeyedList.get ev.2.mac2 macToNum).map fun b =>
      '[' :: strTimedelta ev.1 ++ ']' :: ' ' :: a ++ ' ' :: ev.2.what.text ++ ' ' :: b ++ ['\n']

/-- A line of `graph.txt`. -/
def graphLine (e : EdgeEvent Timedelta Text) : Text :=
  '[' :: strTimedelta e.time ++ ']' :: ' ' :: e.fromNode ++ ' ' :: e.action.text ++ ' ' :: e.toNode
    ++ ['\n']

/-- What is left of an analysis. -/
structure Analysis where
  combinedLog : Text
  graph : Text
  /-- The times to connect and to synchronize, nothing for `Topology is not connected`. -/
  verdict : Option (Timedelta × Timedelta)

/-- What is printed at the end: a `timedelta` is false if it is zero. Without the time to
synchronize there is an exception. -/
def verdictOf (connTime syncTime : Option Timedelta) : Option (Option (Timedelta × Timedelta)) :=
  match connTime.filter (· ≠ 0) with
  | none => some none
  | some conn => syncTime.map fun sync => some (conn, sync)

/-- `main`, nothing for an exception. -/
def combineLogsMain (files : List (Text × List Text)) (duration : Int) : Option Analysis :=
  (combineLogs files duration).bind fun merge =>
    (sortedItems merge.1).bind fun items =>
      (merge.2.mapM (combinedLine merge.1)).bind fun lines =>
        (getExperimentStats merge.1 merge.2).bind fun stats =>
          (verdictOf stats.1 stats.2.1).map fun verdict =>
            { combinedLog := nodesText items ++ lines.flatten
              graph := nodesText items ++ stats.2.2.flatMap graphLine
              verdict := verdict }

end Diplom
