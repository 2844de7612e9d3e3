import Diplom.Proof.Handshake
import Diplom.Spec.Network

/-!
# Agreement on identity

Each socket of the network is the dialed or the accepted end of at most one connection, and has
received a beginning of what the other end has sent. The rest is in the two parties: an end that is
entered has received a whole hello, the other end has sent it first of all, and two hellos that
begin one stream are equal. The accepted end sends the last byte of its answer in the step in which
it is entered, so the dialed end, which needs that byte, comes second.
-/

namespace Diplom

open ConnectionManager (incomingHandshake)

/-! ### Sockets after a step of their node -/

namespace ConnectionManager

variable {w w' : ConnectionManager} {event : Event}

theorem Sound.lives (h : w.Sound) (hstep : w.step event = some w') {sock : Sock}
    (hold : sock < w.io.nextSock) : w.snapshot.Lives event w'.snapshot sock := by
  obtain ⟨-, hmove⟩ := h.step hstep
  rcases (h.ok.move_life hmove).life with ⟨-, hlives⟩ | ⟨-, hothers, -⟩
  · exact hlives sock
  · exact Snapshot.lives_of_eq (hothers sock (Nat.ne_of_lt hold))

end ConnectionManager

namespace Snapshot

variable {s s' : Snapshot} {event : ConnectionManager.Event} {sock : Sock}

theorem Lives.keeps (h : s.Lives event s' sock) {P : Life → Prop} (hP : P (s.life sock))
    (hclosed : ∀ l, P l → P l.closed)
    (hkeeps : (∀ fd ∈ event.fd, s.fds fd = some sock) →
      ∀ l', Life.Step s.self s.order (s.life sock) event l' → P l') : P (s'.life sock) := by
  obtain ⟨l, hl, hlife⟩ := h
  have hPl : P l := by
    rcases hl with rfl | ⟨hstep, hheld⟩
    · exact hP
    · exact hkeeps hheld l hstep
  rcases hlife with hlife | hlife
  · rw [hlife]
    exact hPl
  · rw [hlife]
    exact hclosed l hPl

/-- What is written stays, and nothing is taken but what the event takes from its own socket. -/
theorem Lives.logs (h : s.Lives event s' sock) :
    s.written sock <+: s'.written sock ∧
      (s'.taken sock = s.taken sock ∨ (∀ fd ∈ event.fd, s.fds fd = some sock) ∧
        s'.taken sock = s.taken sock ++ bytesTaken event) := by
  obtain ⟨hwritten, htaken, -, -⟩ := s.life_logs sock
  obtain ⟨hwritten', htaken', -, -⟩ := s'.life_logs sock
  rw [← hwritten, ← hwritten', ← htaken, ← htaken']
  refine h.keeps (P :=
    fun l => (s.life sock).written <+: l.written ∧
      (l.taken = (s.life sock).taken ∨ (∀ fd ∈ event.fd, s.fds fd = some sock) ∧
        l.taken = (s.life sock).taken ++ bytesTaken event)) ⟨List.prefix_rfl, .inl rfl⟩
      (fun _ hl => hl) fun hheld l' hstep => ⟨hstep.written, .inr ⟨hheld, hstep.taken⟩⟩

theorem nextSock_of_accept {fd : Fd} {register : Bool} (h : Move s (.accept fd register) s') :
    s'.nextSock = s.nextSock + 1 := by
  cases h <;> rfl

end Snapshot

namespace Network

variable {Node : Type} {net net' : Network Node}

noncomputable def life (net : Network Node) (here : Node × Sock) : Life :=
  (net.managers here.1).snapshot.life here.2

theorem life_written (net : Network Node) (here : Node × Sock) :
    (net.life here).written = net.written here :=
  (Snapshot.life_logs _ _).1

theorem life_taken (net : Network Node) (here : Node × Sock) :
    (net.life here).taken = net.taken here :=
  (Snapshot.life_logs _ _).2.1

/-- The two ends of a connection are a dialed and an accepted one, and receive what the other one
sends. -/
structure Sound (net : Network Node) : Prop where
  manager : ∀ node, (net.managers node).Sound
  fresh : ∀ node sock, (net.managers node).io.nextSock ≤ sock → net.life (node, sock) = .new
  symm : ∀ here there, net.far here = some there → net.far there = some here
  roles : ∀ here there, net.far here = some there → (here ∈ net.dialed ↔ there ∉ net.dialed)
  made : ∀ here, here ∈ net.dialed ∨ net.far here ≠ none ↔
    here.2 < (net.managers here.1).io.nextSock
  dialer : ∀ here, here ∈ net.dialed →
    (net.life here).Dialer (net.managers here.1).self (net.managers here.1).io.order
  acceptor : ∀ here, net.far here ≠ none → here ∉ net.dialed →
    (net.life here).Acceptor (net.managers here.1).self (net.managers here.1).io.order
  taken : ∀ here, net.taken here <+: net.stream here

theorem init_sound (self : Node → PeerId) (order : Node → ByteOrder) : (init self order).Sound := by
  have hnew : ∀ here, (init self order).life here = .new := fun here =>
    Snapshot.life_of_closed fun fd hfd =>
      absurd hfd (by simp [init, ConnectionManager.snapshot, ConnectionManager.init, Io.init])
  refine ⟨fun node => ConnectionManager.init_sound _ _, fun node sock _ => hnew _, ?_, ?_,
    ?_, ?_, ?_, ?_⟩
  · simp [init]
  · simp [init]
  · simp [init, ConnectionManager.init, Io.init]
  · simp [init]
  · simp [init]
  · exact fun here => List.nil_prefix

/-! ### What agreement follows from -/

theorem mem_records {w : ConnectionManager} {sock : Sock} {conn : Conn} :
    conn ∈ (w.snapshot.life sock).recorded ↔ (sock, conn) ∈ w.records := by
  obtain ⟨-, -, -, hrecorded⟩ := w.snapshot.life_logs sock
  rw [hrecorded, Snapshot.recorded, List.mem_filterMap]
  constructor
  · rintro ⟨⟨sock', conn'⟩, hmem, heq⟩
    dsimp only at heq
    split at heq
    · rename_i hsock
      obtain rfl := Option.some.inj heq
      exact hsock ▸ hmem
    · exact absurd heq (by simp)
  · intro hmem
    exact ⟨_, hmem, by simp⟩

/-- A socket that is entered is the end of a connection: something has come from the other end. -/
theorem Sound.linked (h : net.Sound) {here : Node × Sock} {peer : PeerId} {order : ByteOrder}
    {type : Byte} (hheard : helloFrame peer order type <+: (net.life here).taken) :
    ∃ there, net.far here = some there ∧ helloFrame peer order type <+: net.written there := by
  have hstream : helloFrame peer order type <+: net.stream here := by
    rw [life_taken] at hheard
    exact hheard.trans (h.taken here)
  cases hfar : net.far here with
  | none =>
      rw [stream, hfar] at hstream
      exact absurd (List.prefix_nil.mp hstream) (helloFrame_ne_nil _ _ _)
  | some there =>
      rw [stream, hfar] at hstream
      exact ⟨there, rfl, hstream⟩

theorem Sound.party (h : net.Sound) {here : Node × Sock}
    (hmade : here.2 < (net.managers here.1).io.nextSock) :
    (here ∈ net.dialed ∧
      (net.life here).Dialer (net.managers here.1).self (net.managers here.1).io.order) ∨
      here ∉ net.dialed ∧
      (net.life here).Acceptor (net.managers here.1).self (net.managers here.1).io.order := by
  by_cases hdialed : here ∈ net.dialed
  · exact .inl ⟨hdialed, h.dialer here hdialed⟩
  · exact .inr ⟨hdialed, h.acceptor here (((h.made here).mpr hmade).resolve_left hdialed) hdialed⟩

theorem Sound.made_of_entered (h : net.Sound) {here : Node × Sock} {conn : Conn}
    (hconn : conn ∈ (net.life here).recorded) : here.2 < (net.managers here.1).io.nextSock := by
  by_contra hnot
  rw [h.fresh here.1 here.2 (not_lt.mp hnot)] at hconn
  exact absurd hconn (by simp [Life.new])

theorem Sound.knows (h : net.Sound) {here : Node × Sock} (hdialed : here ∉ net.dialed) {conn : Conn}
    (hparty : (net.life here).Acceptor (net.managers here.1).self (net.managers here.1).io.order)
    (hconn : conn ∈ (net.life here).recorded) :
    ∃ there, net.far here = some there ∧ there ∈ net.dialed ∧ (net.managers there.1).self = conn.1 ∧
      helloFrame conn.1 (net.managers there.1).io.order helloNotify <+: net.written there := by
  obtain ⟨-, hheard, -⟩ := hparty.entered conn hconn
  obtain ⟨there, hfar, hstream⟩ := h.linked hheard
  have hthere : there ∈ net.dialed := by
    by_contra hnot
    exact hdialed ((h.roles here there hfar).mpr hnot)
  have hopens := (h.dialer there hthere).opens
  rw [life_written] at hopens
  have hsame := helloFrame_unique hstream hopens
  obtain ⟨hself, -⟩ := helloFrame_injective hsame
  refine ⟨there, hfar, hthere, hself.symm, ?_⟩
  rw [hself, ← hsame]
  exact hstream

theorem Sound.agrees (h : net.Sound) : net.Agrees := by
  refine ⟨?_, ?_, ?_⟩
  · intro node sock peer hrecord
    have hconn : (peer, .outgoing) ∈ (net.life (node, sock)).recorded := mem_records.mpr hrecord
    rcases h.party (h.made_of_entered hconn) with ⟨hdialed, hdialer⟩ | ⟨-, hacceptor⟩
    swap
    · exact absurd (hacceptor.entered _ hconn).1 (by simp)
    obtain ⟨-, hheard, hsaid⟩ := hdialer.entered _ hconn
    obtain ⟨there, hfar, hstream⟩ := h.linked hheard
    have hthere : there ∉ net.dialed := (h.roles _ _ hfar).mp hdialed
    have hacceptor := h.acceptor there (by rw [h.symm _ _ hfar]; simp) hthere
    -- the last byte of the answer is out
    have hrecorded : (net.life there).recorded ≠ [] := by
      intro hnone
      obtain ⟨rest, hrest, hwhole⟩ := hacceptor.unanswered hnone
      have hlength := congrArg List.length hwhole
      rw [life_written, List.length_append, length_helloFrame] at hlength
      have hlong := hstream.length_le
      rw [length_helloFrame] at hlong
      have := List.length_pos_iff.mpr hrest
      omega
    obtain ⟨conn, hmem⟩ := List.exists_mem_of_ne_nil _ hrecorded
    obtain ⟨hdir, -, hanswer⟩ := hacceptor.entered conn hmem
    obtain ⟨back, hback, -, hself, -⟩ := h.knows hthere hacceptor hmem
    obtain rfl : (node, sock) = back := Option.some.inj ((h.symm _ _ hfar).symm.trans hback)
    refine ⟨there, hfar, hthere, ?_, ?_⟩
    · rw [life_written] at hanswer
      exact (helloFrame_injective (helloFrame_unique hstream (.inr hanswer))).1.symm
    · have hentry : conn = ((net.managers node).self, .incoming) := Prod.ext hself.symm hdir
      exact mem_records.mp (hentry ▸ hmem)
  · intro node sock peer hrecord
    have hconn : (peer, .incoming) ∈ (net.life (node, sock)).recorded := mem_records.mpr hrecord
    rcases h.party (h.made_of_entered hconn) with ⟨-, hdialer⟩ | ⟨hdialed, hacceptor⟩
    · exact absurd (hdialer.entered _ hconn).1 (by simp)
    · exact h.knows hdialed hacceptor hconn
  · intro node fd conn hactive
    obtain ⟨sock, hsock⟩ :=
        (h.manager node).ok.active_open
          (show (net.managers node).snapshot.activeConns fd = some conn from hactive)
    have hlife : (net.life (node, sock)).active = some conn := by
      rw [life, (h.manager node).ok.life_of_held hsock]
      exact hactive
    refine ⟨sock, hsock, mem_records.mp ?_⟩
    have hmade : sock < (net.managers node).io.nextSock := (h.manager node).ok.old fd sock hsock
    rcases h.party
        (show (node, sock).2 < (net.managers (node, sock).1).io.nextSock from hmade) with ⟨-,
          hdialer⟩ | ⟨-, hacceptor⟩
    · exact hdialer.active conn hlife
    · exact hacceptor.active conn hlife

/-! ### A step of one node -/

section Step

variable {node : Node} {event : ConnectionManager.Event} {w : ConnectionManager}

theorem Sound.notAgain (h : net.Sound) (hagain : net.NoAgain (.runs node event)) {sock : Sock}
    (hheld : ∀ fd ∈ event.fd, (net.managers node).snapshot.fds fd = some sock) :
    NotAgainFor (net.life (node, sock)).recv event := by
  cases event with
  | readable fd res ret answers =>
      intro op resolve hat hread
      rw [life, (h.manager node).ok.life_of_held (hheld fd rfl)] at hat
      exact hagain (op, resolve) hat hread
  | _ => trivial

variable [DecidableEq Node]

/-- A socket of another node, or the same after the step. -/
theorem Sound.old (h : net.Sound) (hstep : (net.managers node).step event = some w)
    (hmanagers : net'.managers = Function.update net.managers node w) {here : Node × Sock}
    (hold : here.2 < (net.managers here.1).io.nextSock) :
    (here.1 = node ∧ (net.managers here.1).snapshot.Lives event (net'.managers here.1).snapshot
      here.2) ∨ here.1 ≠ node ∧ net'.managers here.1 = net.managers here.1 := by
  by_cases hnode : here.1 = node
  · refine .inl ⟨hnode, ?_⟩
    rw [hmanagers, hnode, Function.update_self]
    rw [hnode] at hold
    exact (h.manager node).lives hstep hold
  · refine .inr ⟨hnode, ?_⟩
    rw [hmanagers, Function.update_of_ne hnode]

theorem Sound.same (h : net.Sound) (hstep : (net.managers node).step event = some w)
    (hmanagers : net'.managers = Function.update net.managers node w) (node' : Node) :
    (net'.managers node').self = (net.managers node').self ∧
      (net'.managers node').io.order = (net.managers node').io.order := by
  obtain ⟨-, hmove⟩ := (h.manager node).step hstep
  have hmoves := (h.manager node).ok.move_life hmove
  by_cases hnode : node' = node
  · subst hnode
    rw [hmanagers, Function.update_self]
    exact ⟨hmoves.self, hmoves.order⟩
  · rw [hmanagers, Function.update_of_ne hnode]
    exact ⟨rfl, rfl⟩

theorem Sound.dialer_step (h : net.Sound) (hstep : (net.managers node).step event = some w)
    (hmanagers : net'.managers = Function.update net.managers node w)
    (hagain : net.NoAgain (.runs node event)) {here : Node × Sock} (hdialed : here ∈ net.dialed) :
    (net'.life here).Dialer (net'.managers here.1).self (net'.managers here.1).io.order := by
  obtain ⟨hself, horder⟩ := h.same hstep hmanagers here.1
  rw [hself, horder]
  rcases h.old hstep hmanagers ((h.made here).mp (.inl hdialed)) with ⟨hnode, hlives⟩ | ⟨-, hsame⟩
  · subst hnode
    refine hlives.keeps (P := fun l => l.Dialer _ _) (h.dialer here hdialed) (fun _ hl => hl.closed)
      fun hheld l' hlstep => ?_
    exact (h.dialer here hdialed).step (Life.staged (h.manager _).ok _) hlstep
      (h.notAgain hagain hheld)
  · rw [life, hsame]
    exact h.dialer here hdialed

theorem Sound.acceptor_step (h : net.Sound) (hstep : (net.managers node).step event = some w)
    (hmanagers : net'.managers = Function.update net.managers node w)
    (hagain : net.NoAgain (.runs node event)) {here : Node × Sock} (hfar : net.far here ≠ none)
    (hdialed : here ∉ net.dialed) :
    (net'.life here).Acceptor (net'.managers here.1).self (net'.managers here.1).io.order := by
  have hparty := h.acceptor here hfar hdialed
  obtain ⟨hself, horder⟩ := h.same hstep hmanagers here.1
  rw [hself, horder]
  rcases h.old hstep hmanagers ((h.made here).mp (.inr hfar)) with ⟨hnode, hlives⟩ | ⟨-, hsame⟩
  · subst hnode
    refine hlives.keeps (P := fun l => l.Acceptor _ _) hparty (fun _ hl => hl.closed)
      fun hheld l' hlstep => ?_
    exact hparty.step (Life.staged (h.manager _).ok _) hlstep (h.notAgain hagain hheld)
  · rw [life, hsame]
    exact hparty

theorem Sound.written_step (h : net.Sound) (hstep : (net.managers node).step event = some w)
    (hmanagers : net'.managers = Function.update net.managers node w) {here : Node × Sock}
    (hold : here.2 < (net.managers here.1).io.nextSock) :
    net.written here <+: net'.written here := by
  rcases h.old hstep hmanagers hold with ⟨-, hlives⟩ | ⟨-, hsame⟩
  · exact hlives.logs.1
  · rw [written, written, hsame]

theorem Sound.taken_step (h : net.Sound) (hstep : (net.managers node).step event = some w)
    (hmanagers : net'.managers = Function.update net.managers node w)
    (hdelivers : net.Delivers node event) {here : Node × Sock}
    (hold : here.2 < (net.managers here.1).io.nextSock) : net'.taken here <+: net.stream here := by
  rcases h.old hstep hmanagers hold with ⟨hnode, hlives⟩ | ⟨-, hsame⟩
  · rcases hlives.logs.2 with htaken | ⟨hheld, htaken⟩
    · rw [Network.taken, show (net'.managers here.1).io.taken here.2 = _ from htaken]
      exact h.taken here
    · rw [Network.taken, show (net'.managers here.1).io.taken here.2 = _ from htaken]
      cases event with
      | readable fd res ret answers =>
          subst hnode
          exact hdelivers here.2 (hheld fd rfl)
      | _ =>
          show (net.managers here.1).snapshot.taken here.2 ++ [] <+: _
          rw [List.append_nil]
          exact h.taken here
  · rw [Network.taken, hsame]
    exact h.taken here

theorem Sound.taken_new (h : net.Sound) (hstep : (net.managers node).step event = some w)
    (hmanagers : net'.managers = Function.update net.managers node w) {here : Node × Sock}
    (hnew : (net.managers here.1).io.nextSock ≤ here.2) : net'.taken here = [] := by
  have hfresh := h.fresh here.1 here.2 hnew
  by_cases hnode : here.1 = node
  swap
  · rw [Network.taken, hmanagers, Function.update_of_ne hnode]
    have htaken := life_taken net here
    rw [show net.life here = .new from hfresh] at htaken
    exact htaken.symm
  subst hnode
  obtain ⟨-, hmove⟩ := (h.manager here.1).step hstep
  have hmoves := (h.manager here.1).ok.move_life hmove
  have htaken : net'.taken here = (w.snapshot.life here.2).taken := by
    rw [(Snapshot.life_logs _ _).2.1, Network.taken, hmanagers, Function.update_self]
    rfl
  rw [htaken]
  rcases hmoves.life with ⟨hnext, -⟩ | ⟨hnext, hothers, hborn⟩
  · rw [hmoves.fresh (h.fresh here.1) (hnext.trans_le hnew)]
    rfl
  · by_cases hsock : here.2 = (net.managers here.1).snapshot.nextSock
    · rw [← hsock] at hborn
      rw [hborn.taken, show (net.managers here.1).snapshot.life here.2 = .new from hfresh]
      rfl
    · rw [hothers here.2 hsock, show (net.managers here.1).snapshot.life here.2 = .new from hfresh]
      rfl

theorem Sound.stream_step (h : net.Sound) (hstep : (net.managers node).step event = some w)
    (hmanagers : net'.managers = Function.update net.managers node w)
    (hfar : ∀ here there, net.far here = some there → net'.far here = some there)
    (here : Node × Sock) : net.stream here <+: net'.stream here := by
  cases hthere : net.far here with
  | none =>
      rw [stream, hthere]
      exact List.nil_prefix
  | some there =>
      have hold := (h.made there).mp (.inr (by rw [h.symm here there hthere]; simp))
      rw [stream, hthere, stream, hfar here there hthere]
      exact h.written_step hstep hmanagers hold

/-- What comes to a socket reaches it in order, whatever a node does. -/
theorem Sound.delivered (h : net.Sound) (hstep : (net.managers node).step event = some w)
    (hmanagers : net'.managers = Function.update net.managers node w)
    (hdelivers : net.Delivers node event)
    (hfar : ∀ here there, net.far here = some there → net'.far here = some there)
    (here : Node × Sock) : net'.taken here <+: net'.stream here := by
  by_cases hold : here.2 < (net.managers here.1).io.nextSock
  · exact (h.taken_step hstep hmanagers hdelivers hold).trans
      (h.stream_step hstep hmanagers hfar here)
  · rw [h.taken_new hstep hmanagers (not_lt.mp hold)]
    exact List.nil_prefix

theorem Sound.manager_step (h : net.Sound) (hstep : (net.managers node).step event = some w)
    (hmanagers : net'.managers = Function.update net.managers node w) (node' : Node) :
    (net'.managers node').Sound ∧ ∀ sock, (net'.managers node').io.nextSock ≤ sock →
      net'.life (node', sock) = .new := by
  by_cases hnode : node' = node
  · subst hnode
    obtain ⟨hsound, hmove⟩ := (h.manager node').step hstep
    have hmoves := (h.manager node').ok.move_life hmove
    simp only [life, hmanagers, Function.update_self]
    exact ⟨hsound, fun sock hsock => hmoves.fresh (h.fresh node') hsock⟩
  · simp only [life, hmanagers, Function.update_of_ne hnode]
    exact ⟨h.manager node', h.fresh node'⟩

theorem step_runs (hstep : net.step (.runs node event) = some net') :
    (∀ fd register, event ≠ .accept fd register) ∧ net.Delivers node event ∧ ∃ w,
      (net.managers node).step event = some w ∧
      net' = { net with managers := Function.update net.managers node w, dialed :=
        net.dialed ++ net.opened node w } := by
  cases event with
  | accept => exact absurd hstep (by simp [Network.step])
  | _ =>
      simp only [Network.step] at hstep
      split at hstep
      · rename_i hdelivers
        obtain ⟨w, hw, hnet⟩ := Option.map_eq_some_iff.mp hstep
        exact ⟨fun _ _ => by simp, hdelivers, w, hw, hnet.symm⟩
      · exact absurd hstep (by simp)

/-- The sockets of a node after a step: those from before, and at most one more. -/
theorem Sound.sockets (h : net.Sound) (hstep : (net.managers node).step event = some w)
    (hmanagers : net'.managers = Function.update net.managers node w) (here : Node × Sock) :
    here.2 < (net'.managers here.1).io.nextSock ↔ here.2 < (net.managers here.1).io.nextSock ∨
      here = (node, (net.managers node).io.nextSock) ∧
      w.io.nextSock ≠ (net.managers node).io.nextSock := by
  obtain ⟨-, hmove⟩ := (h.manager node).step hstep
  have hmoves := (h.manager node).ok.move_life hmove
  obtain ⟨node', sock⟩ := here
  by_cases hnode : node' = node
  swap
  · simp [hmanagers, hnode]
  subst hnode
  simp only [hmanagers, Function.update_self, Prod.mk.injEq, true_and]
  rcases hmoves.life with ⟨hnext, -⟩ | ⟨hnext, -⟩
  · have hsame : w.io.nextSock = (net.managers node').io.nextSock := hnext
    simp [hsame]
  · have hmore : w.io.nextSock = (net.managers node').io.nextSock + 1 := hnext
    rw [hmore, and_iff_left (Nat.succ_ne_self _)]
    exact Nat.lt_succ_iff_lt_or_eq

omit [DecidableEq Node] in
/-- A socket that a node makes without `accept` is there to dial. -/
theorem Sound.opened_dialer (h : net.Sound) (hstep : (net.managers node).step event = some w)
    (hdials : ∀ fd register, event ≠ .accept fd register)
    (hnext : w.io.nextSock ≠ (net.managers node).io.nextSock) :
    (w.snapshot.life (net.managers node).io.nextSock).Dialer (net.managers node).self
      (net.managers node).io.order := by
  obtain ⟨-, hmove⟩ := (h.manager node).step hstep
  rcases ((h.manager node).ok.move_life hmove).life with ⟨hsame, -⟩ | ⟨-, -, hborn⟩
  · exact absurd hsame hnext
  · rw [show (net.managers node).snapshot.life (net.managers node).snapshot.nextSock = .new from
      h.fresh node _ (Nat.le_refl _)] at hborn
    exact hborn.dialer hdials

omit [DecidableEq Node] in
theorem Sound.accepted (h : net.Sound) {fd : Fd} {register : Bool}
    (hstep : (net.managers node).step (.accept fd register) = some w) :
    w.io.nextSock ≠ (net.managers node).io.nextSock ∧
      (w.snapshot.life (net.managers node).io.nextSock).Acceptor (net.managers node).self
        (net.managers node).io.order := by
  obtain ⟨-, hmove⟩ := (h.manager node).step hstep
  have hnext : w.io.nextSock = (net.managers node).io.nextSock + 1 :=
    Snapshot.nextSock_of_accept hmove
  refine ⟨fun hsame => Nat.succ_ne_self _ (hnext.symm.trans hsame), ?_⟩
  rcases ((h.manager node).ok.move_life hmove).life with ⟨hsame, -⟩ | ⟨-, -, hborn⟩
  · exact absurd (hsame.symm.trans hnext) (by simp [ConnectionManager.snapshot])
  · rw [show (net.managers node).snapshot.life (net.managers node).snapshot.nextSock = .new from
      h.fresh node _ (Nat.le_refl _)] at hborn
    exact hborn.acceptor

theorem Sound.runs (h : net.Sound) (hagain : net.NoAgain (.runs node event))
    (hstep : net.step (.runs node event) = some net') : net'.Sound := by
  obtain ⟨hdials, hdelivers, w, hw, hnet⟩ := step_runs hstep
  have hmanagers : net'.managers = Function.update net.managers node w := by rw [hnet]
  have hfar : net'.far = net.far := by rw [hnet]
  have hdialed : ∀ here, here ∈ net'.dialed ↔ here ∈ net.dialed ∨
      here = (node, (net.managers node).io.nextSock) ∧
      w.io.nextSock ≠ (net.managers node).io.nextSock := by
    intro here
    rw [hnet, List.mem_append, opened]
    split
    · rename_i hsame
      simp [hsame]
    · rename_i hmore
      simp [hmore]
  -- a socket that has a connection is not the new one
  have hlinked : ∀ here, net.far here ≠ none → (here ∈ net'.dialed ↔ here ∈ net.dialed) := by
    intro here hthere
    rw [hdialed, or_iff_left]
    rintro ⟨rfl, -⟩
    exact Nat.lt_irrefl _ ((h.made _).mp (.inr hthere))
  refine ⟨fun node' => (h.manager_step hw hmanagers node').1,
    fun node' => (h.manager_step hw hmanagers node').2, ?_, ?_, ?_, ?_, ?_,
    h.delivered hw hmanagers hdelivers (by rw [hfar]; exact fun _ _ => id)⟩
  · rw [hfar]
    exact h.symm
  · intro here there hthere
    rw [hfar] at hthere
    rw [hlinked here (by rw [hthere]; simp), hlinked there (by rw [h.symm _ _ hthere]; simp)]
    exact h.roles here there hthere
  · intro here
    rw [hdialed, hfar, h.sockets hw hmanagers, ← h.made here]
    tauto
  · intro here hhere
    rcases (hdialed here).mp hhere with hold | ⟨rfl, hnext⟩
    · exact h.dialer_step hw hmanagers hagain hold
    · obtain ⟨hself, horder⟩ := h.same hw hmanagers node
      have hparty := h.opened_dialer hw hdials hnext
      rw [← hself, ← horder] at hparty
      simpa only [life, hmanagers, Function.update_self] using hparty
  · intro here hthere hhere
    rw [hfar] at hthere
    exact h.acceptor_step hw hmanagers hagain hthere fun hold =>
      hhere ((hdialed here).mpr (.inl hold))

theorem Sound.accepts (h : net.Sound) {fd : Fd} {register : Bool} {initiator : Node × Sock}
    (hstep : net.step (.accept node fd register initiator) = some net') : net'.Sound := by
  simp only [Network.step] at hstep
  split at hstep
  swap
  · exact absurd hstep (by simp)
  rename_i hinitiator
  obtain ⟨hinit, hfree⟩ := hinitiator
  obtain ⟨w, hw, hnet⟩ := Option.map_eq_some_iff.mp hstep
  obtain ⟨hmore, hparty⟩ := h.accepted hw
  generalize hnew : (node, (net.managers node).io.nextSock) = acceptor at hnet
  have hmanagers : net'.managers = Function.update net.managers node w := by rw [← hnet]
  have hdialed : net'.dialed = net.dialed := by rw [← hnet]
  have hfar : net'.far = (net.far.set initiator acceptor).set acceptor initiator := by rw [← hnet]
  have hunmade : ¬ acceptor.2 < (net.managers acceptor.1).io.nextSock := by
    rw [← hnew]
    exact Nat.lt_irrefl _
  have hnotDialed : acceptor ∉ net.dialed := fun hmem => hunmade ((h.made acceptor).mp (.inl hmem))
  have hnotFar : net.far acceptor = none := by
    by_contra hthere
    exact hunmade ((h.made acceptor).mp (.inr hthere))
  have hne : initiator ≠ acceptor := fun heq => hnotDialed (heq ▸ hinit)
  have hcases : ∀ here there, net'.far here = some there ↔ (here = acceptor ∧ there = initiator) ∨
      (here = initiator ∧ there = acceptor) ∨ net.far here = some there := by
    intro here there
    rw [hfar, PartialMap.set_apply, PartialMap.set_apply]
    by_cases hacceptor : here = acceptor
    · subst hacceptor
      simp [hnotFar, hne.symm, eq_comm]
    · by_cases hhere : here = initiator
      · subst hhere
        simp [hfree, hacceptor, eq_comm]
      · simp [hacceptor, hhere]
  have hold : ∀ here there, net.far here = some there → net'.far here = some there :=
    fun here there hthere => (hcases here there).mpr (.inr (.inr hthere))
  refine ⟨fun node' => (h.manager_step hw hmanagers node').1,
    fun node' => (h.manager_step hw hmanagers node').2, ?_, ?_, ?_, ?_, ?_,
    h.delivered hw hmanagers trivial hold⟩
  · intro here there hthere
    rcases (hcases here there).mp hthere with ⟨rfl, rfl⟩ | ⟨rfl, rfl⟩ | hthere
    · exact (hcases _ _).mpr (.inr (.inl ⟨rfl, rfl⟩))
    · exact (hcases _ _).mpr (.inl ⟨rfl, rfl⟩)
    · exact hold _ _ (h.symm _ _ hthere)
  · intro here there hthere
    rw [hdialed]
    rcases (hcases here there).mp hthere with ⟨rfl, rfl⟩ | ⟨rfl, rfl⟩ | hthere
    · exact iff_of_false hnotDialed (not_not.mpr hinit)
    · exact iff_of_true hinit hnotDialed
    · exact h.roles here there hthere
  · intro here
    have hlinked : net'.far here ≠ none ↔ here = acceptor ∨ here = initiator ∨
        net.far here ≠ none := by
      rw [hfar, PartialMap.set_apply, PartialMap.set_apply]
      by_cases hacceptor : here = acceptor
      · simp [hacceptor]
      · by_cases hhere : here = initiator <;> simp [hacceptor, hhere, hne]
    rw [hdialed, hlinked, h.sockets hw hmanagers, ← h.made here, hnew, and_iff_left hmore]
    constructor
    · rintro (hmem | hacceptor | rfl | hthere)
      · exact .inl (.inl hmem)
      · exact .inr hacceptor
      · exact .inl (.inl hinit)
      · exact .inl (.inr hthere)
    · rintro ((hmem | hthere) | hacceptor)
      · exact .inl hmem
      · exact .inr (.inr (.inr hthere))
      · exact .inr (.inl hacceptor)
  · intro here hhere
    rw [hdialed] at hhere
    exact h.dialer_step hw hmanagers trivial hhere
  · intro here hthere hhere
    rw [hdialed] at hhere
    obtain ⟨there, hthere⟩ := Option.ne_none_iff_exists'.mp hthere
    rcases (hcases here there).mp hthere with ⟨rfl, -⟩ | ⟨rfl, -⟩ | hlinked
    · obtain ⟨hself, horder⟩ := h.same hw hmanagers node
      rw [← hself, ← horder] at hparty
      rw [← hnew]
      simpa only [life, hmanagers, Function.update_self] using hparty
    · exact absurd hinit hhere
    · exact h.acceptor_step hw hmanagers trivial (by rw [hlinked]; simp) hhere

theorem Sound.step {event : Event Node} (h : net.Sound) (hagain : net.NoAgain event)
    (hstep : net.step event = some net') : net'.Sound := by
  cases event with
  | accept node fd register initiator => exact h.accepts hstep
  | runs node event => exact h.runs hagain hstep

end Step

/-- While no `recv` of a hello exchange says `EAGAIN`, the ends of every connection agree on who
they are. -/
theorem handshake_agrees [DecidableEq Node] (self : Node → PeerId) (order : Node → ByteOrder)
    (events : List (Event Node)) (h : machine.EachStep NoAgain (init self order) events) :
    machine.Always Agrees (init self order) events :=
  Machine.always_of_eachStep (fun _ hnet => hnet.agrees)
    (fun _ _ _ hnet hagain hstep => hnet.step hagain hstep) events (init_sound self order) h

/-- Two nodes, of which one dials the other, up to the hello of the second. -/
def exchange (ann bob : PeerId) (dialed : PeerId) : List (Event Bool) :=
  [.runs false (.openSession dialed ⟨true, some 5, .inProgress, true⟩),
    .accept true 7 true (false, 0), .runs false (.writable 5 (.ok ()) (.moved 4) .granted),
    .runs false (.writable 5 (.ok ()) (.moved 13) .granted),
    .runs true (.readable 7 (.ok ()) (.moved [13, 0, 0, 0]) .granted),
    .runs true (.readable 7 (.ok ()) (.moved (HelloMsg.make ann helloNotify).serialize) .granted),
    .runs true (.writable 7 (.ok ()) (.moved 4) .granted),
    .runs true (.writable 7 (.ok ()) (.moved 13) .granted),
    .runs false (.readable 5 (.ok ()) (.moved [13, 0, 0, 0]) .granted),
    .runs false (.readable 5 (.ok ())
      (.moved ((HelloMsg.make bob helloAnswer).serialize.take 8)) .granted)]

theorem handshake_agrees_of_exchange :
    let ann : PeerId := ⟨[9, 9, 9, 9, 9, 9], rfl⟩
    let bob : PeerId := ⟨[1, 2, 1, 1, 1, 1], rfl⟩
    let self : Bool → PeerId := fun node => if node then bob else ann
    let events := exchange ann bob bob ++
      [.runs false (.readable 5 (.ok ())
        (.moved ((HelloMsg.make bob helloAnswer).serialize.drop 8)) .granted)]
    (machine.exec (init self fun _ => .little) events).map
        (fun net => (net.managers false).records) = some [(0, (bob, .outgoing))] ∧
      machine.Always Agrees (init self fun _ => .little) events :=
  ⟨by decide +kernel, handshake_agrees _ _ _ (by decide +kernel)⟩

/-- `recv` says `EAGAIN` in the middle of the answer of `bob`: his second byte is written over, and
the type is followed by the first byte of his next message. `ann` takes him for somebody else. -/
theorem answer_read_for_other_peer :
    ¬ ∀ (self : Bool → PeerId) (order : Bool → ByteOrder) (events : List (Event Bool))
        (net : Network Bool),
      machine.exec (init self order) events = some net → net.Agrees := by
  intro h
  let ann : PeerId := ⟨[9, 9, 9, 9, 9, 9], rfl⟩
  let bob : PeerId := ⟨[1, 2, 1, 1, 1, 1], rfl⟩
  let eve : PeerId := ⟨[1, 1, 1, 1, 1, 1], rfl⟩
  have hrun : (machine.exec (init (fun node => if node then bob else ann) fun _ => .little)
      (exchange ann bob eve
        ++ [.runs true (.sendMessage ann [7] []),
          .runs true (.writable 7 (.ok ()) (.moved 4) .granted),
          .runs false (.readable 5 (.ok ()) (.failed .eagain) .granted),
          .runs false (.readable 5 (.ok ()) (.moved [1, 1, 1, 1, 1, 1]) .granted)])).map
        (fun net => ((net.managers false).records, net.far (false, 0), (net.managers true).self))
      = some ([(0, (eve, .outgoing))], some (true, 0), bob) := by
    decide +kernel
  obtain ⟨net, hexec, hnet⟩ := Option.map_eq_some_iff.mp hrun
  simp only [Prod.mk.injEq] at hnet
  obtain ⟨hrecords, hfar, hself⟩ := hnet
  obtain ⟨there, hthere, -, heve, -⟩ :=
      (h _ _ _ net hexec).outgoing false 0 eve (by rw [hrecords]; exact List.mem_singleton.mpr rfl)
  obtain rfl : (true, 0) = there := Option.some.inj (hfar.symm.trans hthere)
  exact absurd (hself.symm.trans heve) (by decide)

end Network

end Diplom
