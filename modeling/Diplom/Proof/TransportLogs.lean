import Diplom.Proof.Codecs
import Diplom.Proof.Neighbours
import Diplom.Proof.NumberedLogs
import Diplom.Proof.Sessions
import Diplom.Transport.IpTransport
import Diplom.Transport.Logging

/-!
# The analysis of what the transport writes

A node's event lines are the notifications of its two managers, each manager's in their order. The
broadcast manager runs on the event loop, and the connection manager under the two threads; how the
lines of the two fall among each other is left open.

The analysis returns if no node's managers report a loss of what they have not told to be there, and
each node that is told of has a log, a number and an address of its own. The text of an address is
read back as the id, so no two ids are told apart by less than their texts.
-/

namespace Diplom

/-! ### Addresses -/

theorem peerText_macText (peer : PeerId) :
    peerText peer = macText (peer.toList.map octetDigits) := by
  rw [peerText, peerIdToString_eq List.length_replicate]
  rfl

theorem peerText_eq (peer : PeerId) : peerIdToString (List.replicate macStrLen '\x00') peer =
    some (peerText peer) := by
  rw [peerText, peerIdToString_eq List.length_replicate]
  rfl

def addressText (peer : PeerId) : Text := upper (peerText peer)

private theorem upper_macText (groups : List (Char × Char)) :
    upper (macText groups) = macText (groups.map fun g => (g.1.toUpper, g.2.toUpper)) := by
  induction groups with
  | nil => rfl
  | cons g rest ih =>
      cases rest with
      | nil => rfl
      | cons g' rest =>
          have hcons : ∀ (g g' : Char × Char) rest, macText (g :: g' :: rest) =
              g.1 :: g.2 :: ':' :: macText (g' :: rest) := fun g g' rest => rfl
          rw [hcons, List.map_cons, List.map_cons, hcons]
          exact congrArg (fun text => g.1.toUpper :: g.2.toUpper :: ':' :: text) ih

private theorem octetOf_upper (oct : Byte) :
    octetOf ((octetDigits oct).1.toUpper, (octetDigits oct).2.toUpper) = oct := by
  obtain ⟨hhigh, hlow, hhighValue, hlowValue⟩ := octetDigits_spec oct
  have hvalue := List.all_eq_true.mp
    (show hexDigits.all (fun c => hexValue c.toUpper = hexValue c) = true by decide)
  have hupper : ∀ c ∈ hexDigits, hexValue c.toUpper = hexValue c := fun c hc =>
    of_decide_eq_true (hvalue c hc)
  rw [octetOf, strtoulHex_octet ((hupper _ (List.mem_of_getElem? hhigh)).trans hhighValue)
    ((hupper _ (List.mem_of_getElem? hlow)).trans hlowValue), Nat.div_add_mod, UInt8.ofNat_toNat]

theorem macStrToPeerId_addressText (array peer : PeerId) :
    macStrToPeerId array (addressText peer) = some peer.toList := by
  rw [addressText, peerText_macText, upper_macText, macStrToPeerId_eq]
  · rw [List.map_map, List.map_map]
    exact congrArg some (List.map_id'' octetOf_upper peer.toList)
  · rw [List.length_map, List.length_map]
    exact peer.length_eq

theorem addressText_injective : Function.Injective addressText := by
  intro peer peer' h
  have hread := macStrToPeerId_addressText peer peer
  rw [h, macStrToPeerId_addressText] at hread
  exact (Bytes.toList_injective (Option.some.inj hread)).symm

/-! ### The logs of transports -/

def LinkDirection.session : LinkDirection → Option SessionDirection
  | .incoming => some .incoming
  | .outgoing => some .outgoing
  | .all => none

def SessionDirection.link : SessionDirection → LinkDirection
  | .incoming => .incoming
  | .outgoing => .outgoing

/-- What the transport logs beside a notification that the merge looks for. -/
def Notification.logged : Notification → Option (What × PeerId)
  | .newNeighbour peer => some (.saw, peer)
  | .lostNeighbour peer => some (.lost, peer)
  | .sessionOpened peer dir => dir.session.map fun dir => (.opened dir, peer)
  | .sessionLost peer dir => dir.session.map fun dir => (.closed dir, peer)
  | _ => none

def loggedMac (peer : PeerId) : Option Text :=
  (peerIdToString (List.replicate macStrLen '\x00') peer).map upper

theorem loggedMac_eq (peer : PeerId) : loggedMac peer = some (addressText peer) := by
  rw [loggedMac, peerText_eq]
  rfl

theorem loggedMac_injective : Function.Injective loggedMac := by
  intro peer peer' h
  rw [loggedMac_eq, loggedMac_eq] at h
  exact addressText_injective (Option.some.inj h)

/-- What the transport logs beside what the broadcast manager reports. -/
def Deed.logged : Deed → Option (What × PeerId)
  | .neighborFound peer => some (.saw, peer)
  | .neighborLost peer => some (.lost, peer)
  | _ => none

namespace NodeLog

variable (log : NodeLog)

/-- The log of a run of the transport in which calls overlap no callback: the start line has its id,
and the event lines are its notifications. -/
def Written : Prop :=
  ∃ self order events t,
    IpTransport.machine.exec (.init self order) events = some t ∧ log.address = loggedMac self ∧
      log.events.map (fun e => (e.2.what, some e.2.mac2)) =
        (t.given.filterMap fun given => given.1.logged).map fun said => (said.1, loggedMac said.2)

def said : List (What × Option Text) := log.events.map fun e => (e.2.what, some e.2.mac2)

end NodeLog

/-- A run of a node: of its broadcast manager, and of the two threads around its connection manager.
-/
structure TransportRun where
  self : PeerId
  order : ByteOrder
  events : List BroadcastManager.Event
  inputs : List Process.Input

/-- The log of the run: the start line has the node's id, and the event lines about neighbours and
those about sessions are the notifications of the two managers. -/
def TransportRun.Wrote (run : TransportRun) (log : NodeLog) : Prop :=
  ∃ w p, BroadcastManager.machine.exec (.init run.self) run.events = some w ∧
    Process.machine.exec (.init run.self run.order) run.inputs = some p ∧
    log.address = loggedMac run.self ∧
    log.said.filter (fun said => said.1.word.1 = .visible) =
      (w.deeds.filterMap Deed.logged).map (fun said => (said.1, loggedMac said.2)) ∧
    log.said.filter (fun said => said.1.word.1 ≠ .visible) =
      (p.shared.manager.notes.filterMap Notification.logged).map
        fun said => (said.1, loggedMac said.2)

/-- Logs of transports. There may be others without a start line, and a node may have none. -/
structure TransportLogs extends NodeLogs where
  runs : NodeLog → TransportRun
  written : ∀ log ∈ toNodeLogs.nodes, (runs log).Wrote log

namespace TransportLogs

/-- Nodes with numbers and ids of their own. Every peer that one of them reports of in time, by the
times of day, has a log with a start line, and no times of day go back in a log. Each broadcast
manager reports losses of peers only that it has reported found, and the two threads of each node
take turns. -/
structure Regular (run : TransportLogs) (duration : Int) : Prop where
  numbers : (run.nodes.map fun log => logNum log.name).Nodup
  selves : (run.nodes.map fun log => (run.runs log).self).Nodup
  known : ∀ first ∈ run.firstClock, ∀ log ∈ run.nodes, ∀ e ∈ log.events,
    clock e.1.real - first < duration * microsPerSecond →
      ∃ node ∈ run.nodes, node.address = some e.2.mac2
  forward : ∀ log ∈ run.nodes,
    log.events.Pairwise fun e later => clock e.1.real ≤ clock later.1.real
  losesFound : ∀ log ∈ run.nodes, BroadcastManager.machine.EachStep BroadcastManager.LosesFound
    (.init (run.runs log).self) (run.runs log).events
  takesTurns : ∀ log ∈ run.nodes, Process.machine.EachStep Process.TakesTurns
    (.init (run.runs log).self (run.runs log).order) (run.runs log).inputs

end TransportLogs

/-! ### What one node says -/

def saidMark (said : What × Option Text) : Option ((Word × Option Text) × Bool) :=
  some ((said.1.word.1, said.2), said.1.word.2)

theorem marks_deeds (deeds : List Deed) (peer : PeerId) :
    Brackets.marks saidMark (.visible, loggedMac peer)
        ((deeds.filterMap Deed.logged).map fun said => (said.1, loggedMac said.2)) =
      Brackets.marks BroadcastManager.Deed.notification peer deeds := by
  rw [Brackets.marks_map, Brackets.marks_filterMap]
  apply Brackets.marks_congr
  intro deed _ b
  cases deed <;>
    simp [Deed.logged, BroadcastManager.Deed.notification, saidMark, What.word,
      loggedMac_injective.eq_iff]

theorem marks_notes (notes : List Notification) (peer : PeerId) (dir : SessionDirection) :
    Brackets.marks saidMark (.session dir, loggedMac peer)
        ((notes.filterMap Notification.logged).map fun said => (said.1, loggedMac said.2)) =
      Brackets.marks Notification.sessionMark (peer, dir.link) notes := by
  rw [Brackets.marks_map, Brackets.marks_filterMap]
  apply Brackets.marks_congr
  intro note _ b
  cases note with
  | sessionOpened peer' dir' =>
      cases dir <;> cases dir' <;> simp [Notification.logged, Notification.sessionMark,
        LinkDirection.session, SessionDirection.link, saidMark, What.word,
        loggedMac_injective.eq_iff]
  | sessionLost peer' dir' =>
      cases dir <;> cases dir' <;> simp [Notification.logged, Notification.sessionMark,
        LinkDirection.session, SessionDirection.link, saidMark, What.word,
        loggedMac_injective.eq_iff]
  | _ => simp [Notification.logged, Notification.sessionMark, saidMark, What.word]

namespace TransportRun

variable {run : TransportRun} {log : NodeLog}

theorem Wrote.spoken (h : run.Wrote log) : ∀ said ∈ log.said, ∃ peer, said.2 = loggedMac peer := by
  intro said hsaid
  obtain ⟨w, p, -, -, -, hneighbours, hsessions⟩ := h
  by_cases hword : said.1.word.1 = .visible
  · have hmem : said ∈ log.said.filter fun said => said.1.word.1 = .visible :=
      List.mem_filter.mpr ⟨hsaid, decide_eq_true hword⟩
    rw [hneighbours] at hmem
    obtain ⟨logged, -, rfl⟩ := List.mem_map.mp hmem
    exact ⟨logged.2, rfl⟩
  · have hmem : said ∈ log.said.filter fun said => said.1.word.1 ≠ .visible :=
      List.mem_filter.mpr ⟨hsaid, decide_eq_true hword⟩
    rw [hsessions] at hmem
    obtain ⟨logged, -, rfl⟩ := List.mem_map.mp hmem
    exact ⟨logged.2, rfl⟩

theorem paired_neighbours {w : BroadcastManager} (h : w.FoundFirst)
    (hsaid : log.said.filter (fun said => said.1.word.1 = .visible) =
      (w.deeds.filterMap Deed.logged).map fun said => (said.1, loggedMac said.2)) (peer : PeerId) :
    Brackets.Paired saidMark (.visible, loggedMac peer) log.said := by
  have hown : ∀ said ∈ log.said, ∀ b, saidMark said = some ((.visible, loggedMac peer), b) →
      decide (said.1.word.1 = .visible) = true := by
    intro said _ b hmark
    exact decide_eq_true (Prod.mk.inj (Prod.mk.inj (Option.some.inj hmark)).1).1
  rw [Brackets.Paired, ← Brackets.marks_filter hown, hsaid, marks_deeds]
  exact h peer

theorem paired_sessions {notes : List Notification} (h : WellBracketed notes)
    (hsaid : log.said.filter (fun said => said.1.word.1 ≠ .visible) =
      (notes.filterMap Notification.logged).map fun said => (said.1, loggedMac said.2))
    (peer : PeerId) (dir : SessionDirection) :
    Brackets.Paired saidMark (.session dir, loggedMac peer) log.said := by
  have hown : ∀ said ∈ log.said, ∀ b, saidMark said = some ((.session dir, loggedMac peer), b) →
      decide (said.1.word.1 ≠ .visible) = true := by
    intro said _ b hmark
    have hword := (Prod.mk.inj (Prod.mk.inj (Option.some.inj hmark)).1).1
    simp [hword]
  rw [Brackets.Paired, ← Brackets.marks_filter hown, hsaid, marks_notes]
  exact (h.alternates (peer, dir.link)).paired

/-- A node whose managers keep to the rules takes back only what it has said. -/
theorem Wrote.paired (h : run.Wrote log)
    (hfound : BroadcastManager.machine.EachStep BroadcastManager.LosesFound (.init run.self)
      run.events)
    (hturns : Process.machine.EachStep Process.TakesTurns (.init run.self run.order) run.inputs)
    (key : Word × Option Text) : Brackets.Paired saidMark key log.said := by
  have hspoken := h.spoken
  obtain ⟨w, p, hw, hp, -, hneighbours, hsessions⟩ := h
  have hdeeds : w.FoundFirst :=
    ((BroadcastManager.always_foundFirst_iff _ _).mpr hfound).last hw
  have htold : Process.machine.Always Process.Told (.init run.self run.order) run.inputs :=
    Machine.always_of_eachStep (fun _ h => h)
      (fun _ _ _ hp hok hstep => hp.step hok (Process.step_cases hstep)) _
      (Process.init_told _ _) hturns
  have hnotes : WellBracketed p.shared.manager.notes := (htold.last hp).told.bracketed
  obtain ⟨word, mac⟩ := key
  by_cases hmac : ∃ peer, mac = loggedMac peer
  · obtain ⟨peer, rfl⟩ := hmac
    cases word with
    | visible => exact paired_neighbours hdeeds hneighbours peer
    | session dir => exact paired_sessions hnotes hsessions peer dir
  · apply Brackets.paired_of_unmarked
    intro said hsaid b hmark
    obtain ⟨peer, hpeer⟩ := hspoken said hsaid
    exact hmac ⟨peer, (Prod.mk.inj (Prod.mk.inj (Option.some.inj hmark)).1).2.symm.trans hpeer⟩

end TransportRun

/-! ### What is in time -/

namespace NodeLog

variable {log : NodeLog} (first duration : Int)

/-- If the times of day do not go back, the events in time are the first ones, in their order. -/
theorem byClock_eq (h : log.events.Pairwise fun e later => clock e.1.real ≤ clock later.1.real) :
    ∃ events, events <+: log.events ∧ log.byClock first duration =
      events.map fun e => ⟨e.1, clock e.1.real - first, e.2⟩ := by
  have hsorted : log.byClock first duration =
      log.entries (fun real => clock real - first) duration := by
    apply List.Pairwise.insertionSort_eq
    apply pairwise_entries
    exact h.imp fun hle => Int.sub_le_sub_right hle first
  refine ⟨_, ?_, hsorted.trans entries_eq_map⟩
  apply Merge.filter_front
  refine h.imp fun hle hlater => ?_
  simp only [decide_eq_true_eq] at hlater ⊢
  omega

theorem paired_byClock
    (hforward : log.events.Pairwise fun e later => clock e.1.real ≤ clock later.1.real)
    (h : ∀ key, Brackets.Paired saidMark key log.said) (key : Word × Text) :
    Brackets.Paired wordMark key (log.byClock first duration) := by
  obtain ⟨events, hfront, hevents⟩ := byClock_eq first duration hforward
  have hsaid : (events.map fun e => (e.2.what, some e.2.mac2)) <+: log.said :=
    hfront.map fun e : Origin × NodeEvent Text => (e.2.what, some e.2.mac2)
  have hpaired := (h (key.1, some key.2)).front hsaid
  rw [Brackets.Paired, Brackets.marks_map] at hpaired
  rw [Brackets.Paired, hevents, Brackets.marks_map]
  have hmarks : ∀ e ∈ events, ∀ b,
      wordMark ⟨e.1, clock e.1.real - first, e.2⟩ = some (key, b) ↔
        saidMark (e.2.what, some e.2.mac2) = some ((key.1, some key.2), b) := by
    intro e _ b
    simp [wordMark, saidMark, Prod.ext_iff]
  rwa [Brackets.marks_congr hmarks]

end NodeLog

namespace TransportLogs

variable {run : TransportLogs} {duration : Int}

theorem address_eq {log : NodeLog} (hlog : log ∈ run.nodes) :
    log.address = some (addressText (run.runs log).self) := by
  obtain ⟨w, p, -, -, haddress, -⟩ := run.written log hlog
  rw [haddress, loggedMac_eq]

theorem addresses (h : (run.nodes.map fun log => (run.runs log).self).Nodup) :
    (run.logs.filterMap NodeLog.address).Nodup := by
  have hnodes : run.logs.filterMap NodeLog.address = run.nodes.filterMap NodeLog.address := by
    rw [NodeLogs.nodes, List.filterMap_filter]
    apply List.filterMap_congr
    intro log _
    split
    · rfl
    · rename_i hstart
      rw [NodeLog.address, Option.not_isSome_iff_eq_none.mp hstart]
      rfl
  have hselves : run.nodes.filterMap NodeLog.address =
      (run.nodes.map fun log => (run.runs log).self).map addressText := by
    rw [List.map_map, ← List.filterMap_eq_map]
    apply List.filterMap_congr
    intro log hlog
    exact address_eq hlog
  rw [hnodes, hselves]
  exact h.map addressText_injective

def Regular.toNumberedLogs (h : run.Regular duration) : NumberedLogs where
  toNodeLogs := run.toNodeLogs
  numbers := h.numbers
  addresses := addresses h.selves

/-- The analysis of the logs of transports returns if the nodes can be told apart, no peer's log is
missing, no time of day goes back, and the managers of every node report losses only of what they
have reported. -/
theorem returns_of_regular (run : TransportLogs) (duration : Int) (h : run.Regular duration) :
    run.Returns duration := by
  have haccounted : h.toNumberedLogs.Accounted duration := by
    refine ⟨?_, ?_⟩
    · intro first hfirst log hlog entry hentry
      obtain ⟨e, he, htime, rfl⟩ :=
        NodeLog.mem_entries.mp ((List.mem_insertionSort _).mp hentry)
      exact h.known first hfirst log hlog e he htime
    · intro first _ log hlog key
      apply NodeLog.paired_byClock first duration (h.forward log hlog)
      exact (run.written log hlog).paired (h.losesFound log hlog) (h.takesTurns log hlog)
  exact (NumberedLogs.returns_iff_accounted h.toNumberedLogs duration).mpr haccounted

/-! ### Two nodes -/

theorem wrote_of {run : TransportRun} {log : NodeLog} (deeds : List Deed)
    (notes : List Notification)
    (hdeeds : (BroadcastManager.machine.exec (.init run.self) run.events).map (fun w => w.deeds) =
      some deeds)
    (hnotes : (Process.machine.exec (.init run.self run.order) run.inputs).map
      (fun p => p.shared.manager.notes) = some notes)
    (haddress : log.address = loggedMac run.self)
    (hneighbours : log.said.filter (fun said => said.1.word.1 = .visible) =
      (deeds.filterMap Deed.logged).map fun said => (said.1, loggedMac said.2))
    (hsessions : log.said.filter (fun said => said.1.word.1 ≠ .visible) =
      (notes.filterMap Notification.logged).map fun said => (said.1, loggedMac said.2)) :
    run.Wrote log := by
  obtain ⟨w, hw, rfl⟩ := Option.map_eq_some_iff.mp hdeeds
  obtain ⟨p, hp, rfl⟩ := Option.map_eq_some_iff.mp hnotes
  exact ⟨w, p, hw, hp, haddress, hneighbours, hsessions⟩

/-- What is logged so many seconds after midnight. -/
def logged (seconds : Nat) (c : TransportCall) : Int × Text :=
  (seconds * microsPerSecond, c.call.print (seconds * microsPerSecond))

open Process

/-- A node finds another one, opens a session with it, and loses the session. -/
def openerLog : NodeLog where
  name := "log_2".toList
  lines := [logged 1 (.started bob), logged 3 (.notifies (.newNeighbour ann)),
    logged 3 (.openSession ann), logged 4 (.notifies (.sessionOpened ann .outgoing)),
    logged 6 (.notifies (.sessionLost ann .outgoing))]

def openerRun : TransportRun where
  self := bob
  order := .little
  events := [.hello 0x0100A8C0 ann true ⟨5, true, some "eth0"⟩]
  inputs := opensTo 7 ann ++ loopRuns 2 ++ [.call .manager (.closeSession ann .all)]
    ++ managerRuns 10

/-- The other one is found too, the session is closed by it, and after that it is lost. -/
def acceptorLog : NodeLog where
  name := "log_1".toList
  lines := [logged 2 (.started ann), logged 3 (.notifies (.newNeighbour bob)),
    logged 4 (.notifies (.sessionOpened bob .incoming)),
    logged 6 (.notifies (.sessionLost bob .incoming)), logged 14 (.notifies (.lostNeighbour bob))]

def acceptorRun : TransportRun where
  self := ann
  order := .little
  events := [.hello 0x0200A8C0 bob true ⟨5, true, some "eth0"⟩, .peerLost 5 true]
  inputs := acceptsFrom 7 bob ++ [.call .manager (.closeSession bob .all)] ++ managerRuns 10

theorem acceptorLog_wrote : acceptorRun.Wrote acceptorLog :=
  wrote_of [.sendBroadcastHello, .neighborFound bob, .neighborLost bob]
    [.sessionOpened bob .incoming, .sessionLost bob .incoming]
    (by decide +kernel) (by decide +kernel) (by decide +kernel) (by decide +kernel)
    (by decide +kernel)

theorem openerLog_wrote : openerRun.Wrote openerLog :=
  wrote_of [.sendBroadcastHello, .neighborFound ann]
    [.sessionOpened ann .outgoing, .sessionLost ann .outgoing]
    (by decide +kernel) (by decide +kernel) (by decide +kernel) (by decide +kernel)
    (by decide +kernel)

/-- A third node has not started. -/
def pairLogs : TransportLogs where
  files := [acceptorLog, openerLog, ⟨"log_3".toList, []⟩]
  names := by decide +kernel
  stamped := by decide +kernel
  runs log := if log.name = acceptorLog.name then acceptorRun else openerRun
  written log h := by
    obtain ⟨hlog, hstart⟩ := List.mem_filter.mp h
    obtain rfl | rfl | rfl : log = acceptorLog ∨ log = openerLog ∨ log = ⟨"log_3".toList, []⟩ := by
      simpa using List.mem_of_mem_filter hlog
    · exact acceptorLog_wrote
    · exact openerLog_wrote
    · exact absurd hstart (by decide +kernel)

theorem returns_of_two_nodes : pairLogs.Returns 60 :=
  returns_of_regular pairLogs 60 ⟨by decide +kernel, by decide +kernel, by decide +kernel,
    by decide +kernel, by decide +kernel, by decide +kernel⟩

/-- A node finds a neighbour. -/
def finderLog : NodeLog where
  name := "log_1".toList
  lines := [logged 1 (.started ann), logged 2 (.notifies (.newNeighbour bob))]

def finderRun : TransportRun where
  self := ann
  order := .little
  events := [.hello 0x0200A8C0 bob true ⟨5, true, some "eth0"⟩]
  inputs := []

theorem finderLog_wrote : finderRun.Wrote finderLog :=
  wrote_of [.sendBroadcastHello, .neighborFound bob] [] (by decide +kernel) (by decide +kernel)
    (by decide +kernel) (by decide +kernel) (by decide +kernel)

/-- The neighbour's log is not there. -/
def finderLogs : TransportLogs where
  files := [finderLog]
  names := by decide +kernel
  stamped := by decide +kernel
  runs _ := finderRun
  written log h := by
    obtain rfl := List.mem_singleton.mp (List.mem_of_mem_filter (List.mem_of_mem_filter h))
    exact finderLog_wrote

/-- A neighbour without a log has no number. -/
theorem missing_log_ends_analysis :
    ¬ ∀ (run : TransportLogs) (duration : Int), run.Returns duration := by
  intro h
  obtain ⟨macToNum, allEvents, stats, hresult, hstats⟩ := h finderLogs 60
  have hcombine : combineLogs (finderLogs.files.map NodeLog.plain) 60 =
      some ([("00:00:00:00:00:01".toList, "1".toList)],
        [(1000000, ⟨"00:00:00:00:00:01".toList, .saw, "00:00:00:00:00:02".toList⟩)]) := by
    decide +kernel
  obtain ⟨rfl, rfl⟩ := Prod.mk.inj (Option.some.inj (hcombine.symm.trans hresult))
  have hnone : getExperimentStats [("00:00:00:00:00:01".toList, "1".toList)]
      [((1000000 : Timedelta),
        (⟨"00:00:00:00:00:01".toList, .saw, "00:00:00:00:00:02".toList⟩ : NodeEvent Text))] =
        none := by
    rfl
  exact absurd (hnone.symm.trans hstats) (by simp)

end TransportLogs

end Diplom
