import Diplom.Proof.PeerTables

/-!
# Peers behind an interface

`ifToPeer_` has one place for each interface, so a second peer that is found on it takes the place
of the first; the timer of a lost peer does not give the place back; and `ProcessNetworkUpdate`
works on this table alone. `Attributed` keeps beside the manager what `get_interface_by_ip` said
when a peer's address was recorded.
-/

namespace Diplom

/-- The manager, and the interface that a peer's address was attributed to when the peer was found
last. -/
structure Attributed where
  manager : BroadcastManager
  behind : PartialMap PeerId String

namespace BroadcastManager

/-- The attribution that a hello makes: only one that starts to track its peer asks for the
interface. -/
def attributes (w : BroadcastManager) : Event → Option (PeerId × String)
  | .hello _ id _ answers =>
      if id = w.self ∨ w.HasTimer id ∨ answers.timer = -1 then none
      else
        match w.loop.registerAction answers.timer .input answers.timer none answers.register with
        | none => none
        | some _ => answers.ifname.map fun ifname => (id, ifname)
  | _ => none

end BroadcastManager

namespace Attributed

open BroadcastManager (Event)

def init (self : PeerId) : Attributed := ⟨.init self, .empty⟩

def step (s : Attributed) (event : Event) : Option Attributed :=
  (s.manager.step event).map fun manager =>
    match s.manager.attributes event with
    | none => ⟨manager, s.behind⟩
    | some (id, ifname) => ⟨manager, s.behind.set id ifname⟩

def machine : Machine Attributed Event := ⟨step⟩

variable (s : Attributed) (ifs : List String)

/-- A peer whose address is recorded, behind an interface that is not up any more. -/
def Gone (p : PeerId) : Prop :=
  s.manager.peerToAddr p ≠ none ∧ ∃ name, s.behind p = some name ∧ name ∉ ifs

/-- A peer is in none of the five tables. -/
def Absent (w : BroadcastManager) (p : PeerId) : Prop :=
  w.peerToFd p = none ∧ (∀ fd token, w.fdToPeer fd ≠ some (p, token)) ∧ w.peerToAddr p = none ∧
    (∀ addr, w.addrToPeer addr ≠ some p) ∧ ∀ name, (name, p) ∉ w.ifToPeer

/-- A peer's timer and its entries in the five tables are the same. -/
def SameEntries (w w' : BroadcastManager) (p : PeerId) : Prop :=
  w'.timers = w.timers ∧ w'.peerToFd p = w.peerToFd p ∧
    (∀ fd token, w'.fdToPeer fd = some (p, token) ↔ w.fdToPeer fd = some (p, token)) ∧
    w'.peerToAddr p = w.peerToAddr p ∧
    (∀ addr, w'.addrToPeer addr = some p ↔ w.addrToPeer addr = some p) ∧ ∀ name,
    (name, p) ∈ w'.ifToPeer ↔ (name, p) ∈ w.ifToPeer

/-- The update closes the sessions of the peers that are gone, reports each of them lost once and
removes it, and does nothing to another peer. -/
structure LosesGone : Prop where
  reports : ∃ deeds, (s.manager.processNetworkUpdate ifs).deeds = s.manager.deeds ++ deeds ∧
    (∀ p, s.Gone ifs p → deeds.count (.neighborLost p) = 1 ∧ .closeSession p .all ∈ deeds) ∧
    ∀ p, ¬ s.Gone ifs p → .neighborLost p ∉ deeds ∧ ∀ dir, .closeSession p dir ∉ deeds
  removes : ∀ p, s.Gone ifs p → Absent (s.manager.processNetworkUpdate ifs) p
  keeps : ∀ p, s.manager.peerToAddr p ≠ none → ¬ s.Gone ifs p →
    SameEntries s.manager (s.manager.processNetworkUpdate ifs) p

/-- Every interface that the table names is up, and so is the interface of every tracked peer. -/
def NothingGone : Prop :=
  (∀ name p, (name, p) ∈ s.manager.ifToPeer → name ∈ ifs) ∧ ∀ p, ¬ s.Gone ifs p

variable {s ifs}

theorem neighborLost_mem {name : String} {p : PeerId} (hentry : (name, p) ∈ s.manager.ifToPeer)
    (hgone : name ∉ ifs) :
    Deed.neighborLost p ∈ (s.manager.removed ifs).flatMap BroadcastManager.lossDeeds
      ++ [Deed.sendBroadcastHello] := by
  refine List.mem_append_left _ (List.mem_flatMap.mpr ⟨(name, p), ?_, ?_⟩)
  · exact List.mem_filter.mpr ⟨hentry, by simpa using hgone⟩
  · simp [BroadcastManager.lossDeeds]

/-- While all interfaces are up an update sends its hello and nothing else. -/
theorem processNetworkUpdate_allUp (h : ∀ name p, (name, p) ∈ s.manager.ifToPeer → name ∈ ifs) :
    s.manager.processNetworkUpdate ifs = s.manager.record [Deed.sendBroadcastHello] := by
  have hremoved : s.manager.removed ifs = [] := by
    rw [BroadcastManager.removed, List.filter_eq_nil_iff]
    rintro ⟨name, p⟩ hentry
    simpa using h name p hentry
  have hkept : (s.manager.ifToPeer.filter fun entry => entry.1 ∈ ifs) = s.manager.ifToPeer := by
    rw [List.filter_eq_self]
    rintro ⟨name, p⟩ hentry
    simpa using h name p hentry
  rw [BroadcastManager.processNetworkUpdate, hremoved, hkept]
  rfl

/-- An update does what it should exactly if there is nothing for it to do. -/
theorem losesGone_iff (s : Attributed) (ifs : List String) :
    s.LosesGone ifs ↔ s.NothingGone ifs := by
  constructor
  · intro h
    have hnone : ∀ p, ¬ s.Gone ifs p := fun p hgone => hgone.1 (h.removes p hgone).2.2.1
    refine ⟨fun name p hentry => ?_, hnone⟩
    by_contra hdown
    obtain ⟨deeds, hdeeds, -, hothers⟩ := h.reports
    obtain rfl := List.append_cancel_left hdeeds
    exact (hothers p (hnone p)).1 (neighborLost_mem hentry hdown)
  · rintro ⟨hup, hnone⟩
    refine ⟨⟨[.sendBroadcastHello], ?_, fun p hgone => absurd hgone (hnone p), fun p _ => by simp⟩,
      fun p hgone => absurd hgone (hnone p), fun p _ _ => ?_⟩
    · rw [processNetworkUpdate_allUp hup]
      rfl
    · rw [processNetworkUpdate_allUp hup]
      exact ⟨rfl, rfl, fun _ _ => .rfl, rfl, fun _ => .rfl, fun _ => .rfl⟩

/-- Two peers on one interface: the first is forgotten. -/
theorem second_peer_displaces_first :
    ¬ ∀ (self : PeerId) (events : List Event) (s : Attributed) (ifs : List String),
      machine.exec (init self) events = some s → s.LosesGone ifs := by
  intro h
  let ann : PeerId := ⟨[1, 1, 1, 1, 1, 1], rfl⟩
  let bob : PeerId := ⟨[3, 3, 3, 3, 3, 3], rfl⟩
  have hrun : (machine.exec (init ⟨[2, 2, 2, 2, 2, 2], rfl⟩)
      [.hello 0x0100A8C0 ann true ⟨5, true, some "eth0"⟩,
        .hello 0x0300A8C0 bob true ⟨6, true, some "eth0"⟩]).map
      (fun s => (s.manager.peerToAddr ann, s.behind ann, s.manager.ifToPeer))
      = some (some 0x0100A8C0, some "eth0", [("eth0", bob)]) := by
    decide +kernel
  obtain ⟨s, hexec, hs⟩ := Option.map_eq_some_iff.mp hrun
  obtain ⟨haddr, hbehind, hif⟩ :
      s.manager.peerToAddr ann = some 0x0100A8C0 ∧ s.behind ann = some "eth0" ∧
        s.manager.ifToPeer = [("eth0", bob)] := by
    simpa using hs
  have hgone : s.Gone [] ann := ⟨by simp [haddr], "eth0", hbehind, by simp⟩
  obtain ⟨deeds, hdeeds, hreported, -⟩ := (h _ _ s [] hexec).reports
  obtain rfl := List.append_cancel_left hdeeds
  have hcount := (hreported ann hgone).1
  rw [BroadcastManager.removed, hif] at hcount
  exact absurd hcount (by decide)

end Attributed

end Diplom
