import Diplom.Proof.Frames
import Diplom.Proof.Incoming
import Diplom.Proof.Listening

/-!
# Delivery

What a socket has taken is the beginning of what the other end of its connection has written. The
one is a hello and the messages that have been passed on, and the other a beginning of a hello and
of messages that have been queued there, so the messages that are passed on are among those that are
queued, in their order. A message is queued on a connection that is entered for the peer that it is
sent to, and the entry is right about who is at the other end. All of this is about runs in which a
node's calls overlap none of its callbacks: where they do, a message can pass to the next peer that
has the number (`next_peer_gets_message`).
-/

namespace Diplom

open ConnectionManager (Event)

theorem helloFrame_order {node node' : PeerId} {order order' : ByteOrder} {type type' : Byte}
    (h : helloFrame node order type = helloFrame node' order' type') : order = order' := by
  have hlength : ∀ (node : PeerId) (type : Byte),
      (HelloMsg.make node type).serialize.length = 13 := fun node type =>
    HelloMsg.length_serialize _
  have hheader := (List.append_inj h (by simp only [LengthCode.length_encode, uint32_width])).1
  rw [hlength, hlength] at hheader
  cases order <;> cases order' <;> first | rfl | exact absurd hheader (by decide)

/-! ### What is queued -/

namespace Life

variable {node : PeerId} {order : ByteOrder} {l l' : Life} {event : Event}

theorem Step.pushed (h : Step node order l event l') : l'.pushed = l.pushed ∨
    ∃ peer msg registers, event = .sendMessage peer msg registers := by
  cases h with
  | sendQueued => exact .inr ⟨_, _, _, rfl⟩
  | sendAlone => exact .inr ⟨_, _, _, rfl⟩
  | _ => exact .inl rfl

theorem Step.recorded (h : Step node order l event l') : l.recorded <+: l'.recorded := by
  cases h <;> first | exact List.prefix_append _ _ | exact List.prefix_rfl

theorem Born.logs (h : Born node order l event l') :
    l'.pushed = l.pushed ∧ l'.recorded = l.recorded := by
  cases h <;> exact ⟨rfl, rfl⟩

end Life

namespace ConnectionManager

variable {w w' : ConnectionManager} {event : Event}

theorem popFront_pushed {fd : Fd} {more : Bool} (h : w.popFront fd = some (more, w')) :
    w'.pushed = w.pushed := by
  unfold popFront at h
  split at h
  · exact absurd h (by simp)
  · obtain ⟨-, rfl⟩ := Prod.mk.inj (Option.some.inj h)
    rfl
  · obtain ⟨-, rfl⟩ := Prod.mk.inj (Option.some.inj h)
    rfl

theorem sendMessageFd_pushed (fd : Fd) (fuel : Nat) (registers : List Bool)
    (w : ConnectionManager) : (sendMessageFd fd fuel registers w).pushed = w.pushed := by
  induction fuel generalizing registers w with
  | zero => rfl
  | succ fuel ih =>
      unfold sendMessageFd
      cases htake : w.takeFront fd with
      | none => rfl
      | some taken =>
          have hsame : taken.2.pushed = w.pushed := by
            unfold takeFront at htake
            split at htake
            · rw [← Option.some.inj htake]
            · exact absurd htake (by simp)
          dsimp only
          split
          · exact hsame
          · unfold queuedSent
            split
            · exact hsame
            · split
              · exact hsame
              · rename_i more v hpop
                have hpopped := (popFront_pushed hpop).trans hsame
                split
                · exact (ih _ v).trans hpopped
                · exact hpopped
          · exact hsame

/-- `SendMessage` queues a message on the connection that the tables name. -/
theorem sendMessage_pushed (w : ConnectionManager) (peer : PeerId) (msg : Message)
    (registers : List Bool) (sock : Sock) :
    (w.sendMessage peer msg registers).pushed sock = w.pushed sock ∨
      ∃ fd, w.lookupFd peer = some fd ∧ w.io.fds fd = some sock ∧
        (w.sendMessage peer msg registers).pushed sock = w.pushed sock ++ [⟨peer, msg⟩] := by
  unfold sendMessage
  cases hlookup : w.lookupFd peer with
  | none => exact .inl rfl
  | some fd =>
      dsimp only
      cases hpush : w.pushBack fd ⟨peer, msg⟩ with
      | none => exact .inl rfl
      | some pushed =>
          obtain ⟨alone, v⟩ := pushed
          have hv : v.pushed = appendTo w.pushed (w.io.fds fd) [⟨peer, msg⟩] := by
            obtain ⟨_, -, heq⟩ := Option.map_eq_some_iff.mp hpush
            obtain ⟨-, rfl⟩ := Prod.mk.inj heq
            rfl
          have hsent : (if alone then v.startQueue fd registers else v).pushed = v.pushed := by
            split
            · exact sendMessageFd_pushed fd _ registers v
            · rfl
          dsimp only
          rw [hsent, hv]
          by_cases hsock : w.io.fds fd = some sock
          · exact .inr ⟨fd, rfl, hsock, by rw [hsock, appendTo_self]⟩
          · exact .inl (appendTo_of_ne w.pushed hsock _)

/-- A connection stays entered, and nothing is queued on a socket but what is sent there. -/
theorem Sound.pushed_step (h : w.Sound) (hstep : w.step event = some w') (sock : Sock) :
    (∀ conn, (sock, conn) ∈ w.records → (sock, conn) ∈ w'.records) ∧
      (w'.pushed sock = w.pushed sock ∨ ∃ peer msg registers fd,
        event = .sendMessage peer msg registers ∧ w.lookupFd peer = some fd ∧
        w.io.fds fd = some sock ∧ w'.pushed sock = w.pushed sock ++ [⟨peer, msg⟩]) := by
  obtain ⟨-, hmove⟩ := h.step hstep
  have hlife : (w.snapshot.life sock).recorded <+: (w'.snapshot.life sock).recorded ∧
      ((w'.snapshot.life sock).pushed = (w.snapshot.life sock).pushed ∨
        ∃ peer msg registers, event = .sendMessage peer msg registers) := by
    rcases (h.ok.move_life hmove).life with ⟨-, hlives⟩ | ⟨-, hothers, hborn⟩
    · refine (hlives sock).keeps (P := fun l => (w.snapshot.life sock).recorded <+: l.recorded ∧
        (l.pushed = (w.snapshot.life sock).pushed ∨ _)) ⟨List.prefix_rfl, .inl rfl⟩
        (fun _ hl => hl) fun _ l' hlstep => ⟨hlstep.recorded, hlstep.pushed⟩
    · by_cases hsock : sock = w.snapshot.nextSock
      · subst hsock
        obtain ⟨hpushed, hrecorded⟩ := hborn.logs
        exact ⟨hrecorded ▸ List.prefix_rfl, .inl hpushed⟩
      · rw [hothers sock hsock]
        exact ⟨List.prefix_rfl, .inl rfl⟩
  obtain ⟨hrecorded, hpushed⟩ := hlife
  refine ⟨fun conn hconn => ?_, ?_⟩
  · rw [← Network.mem_records] at hconn ⊢
    exact hrecorded.subset hconn
  · rcases hpushed with hpushed | ⟨peer, msg, registers, rfl⟩
    · rw [(w.snapshot.life_logs sock).2.2.1, (w'.snapshot.life_logs sock).2.2.1] at hpushed
      exact .inl hpushed
    · have hsent : w' = w.sendMessage peer msg registers := by
        simp only [ConnectionManager.step] at hstep
        split at hstep
        · exact absurd hstep (by simp)
        · exact (Option.some.inj hstep).symm
      rw [hsent]
      rcases w.sendMessage_pushed peer msg registers sock with hsame | ⟨fd, hfd⟩
      · exact .inl hsame
      · exact .inr ⟨peer, msg, registers, fd, rfl, hfd⟩

end ConnectionManager

/-! ### From one end to the other -/

namespace Network

variable {Node : Type} {net net' : Network Node}

/-- The other end of an entered connection is who the connection is entered for. -/
theorem Sound.far_of_record (h : net.Sound) {here : Node × Sock} {conn : Conn}
    (hconn : conn ∈ (net.life here).recorded) :
    ∃ there, net.far here = some there ∧ (net.managers there.1).self = conn.1 := by
  have hrecord : (here.2, conn) ∈ (net.managers here.1).records := mem_records.mp hconn
  obtain ⟨peer, dir⟩ := conn
  rcases h.party (h.made_of_entered hconn) with ⟨-, hdialer⟩ | ⟨-, hacceptor⟩
  · obtain rfl : dir = .outgoing := (hdialer.entered _ hconn).1
    obtain ⟨there, hfar, -, hself, -⟩ := h.agrees.outgoing here.1 here.2 peer hrecord
    exact ⟨there, hfar, hself⟩
  · obtain rfl : dir = .incoming := (hacceptor.entered _ hconn).1
    obtain ⟨there, hfar, -, hself, -⟩ := h.agrees.incoming here.1 here.2 peer hrecord
    exact ⟨there, hfar, hself⟩

theorem step_manager [DecidableEq Node] {event : Event Node} (hstep : net.step event = some net') :
    ∃ w, (net.managers (Delivery.ofNode event).1).step (Delivery.ofNode event).2 = some w ∧
      net'.managers = Function.update net.managers (Delivery.ofNode event).1 w := by
  cases event with
  | accept node fd register initiator =>
      simp only [Network.step] at hstep
      split at hstep
      · obtain ⟨w, hw, rfl⟩ := Option.map_eq_some_iff.mp hstep
        exact ⟨w, hw, rfl⟩
      · exact absurd hstep (by simp)
  | runs node event =>
      obtain ⟨-, -, w, hw, rfl⟩ := step_runs hstep
      exact ⟨w, hw, rfl⟩

end Network

namespace Delivery

variable {Node : Type} {d d' : Delivery Node}

/-- Every node keeps its invariants, and every message in a queue fits into a frame and is queued on
a connection that is entered for its peer. -/
structure Sound (d : Delivery Node) : Prop where
  net : d.net.Sound
  kept : ∀ node, (d.net.managers node).Kept
  sends : ∀ node, (d.sending node).Sound
  listens : ∀ node, (d.listening node).Sound
  carried : ∀ node sock, ∀ parcel ∈ (d.net.managers node).pushed sock,
    parcel.body.length < 2 ^ 32 ∧ ∃ dir, (sock, (parcel.peer, dir)) ∈ (d.net.managers node).records

theorem init_sound (self : Node → PeerId) (order : Node → ByteOrder) : (init self order).Sound := by
  refine ⟨Network.init_sound self order, fun node => ConnectionManager.init_kept _ _,
    fun node => Sending.init_sound _ _, fun node => Listening.init_sound _ _, ?_⟩
  intro node sock parcel hparcel
  exact absurd hparcel (by simp [init, Network.init, ConnectionManager.init])

/-- Where the frames of a hello and of messages begin those of another hello and of others, these
messages begin the others. -/
theorem bodies_prefix {node node' : PeerId} {order order' : ByteOrder} {type : Byte}
    {hello : Message} {bodies messages : List Message} (hbodies : ∀ m ∈ bodies, m.length < 2 ^ 32)
    (hmessages : ∀ m ∈ messages, m.length < 2 ^ 32) (hhello : hello ∈ hellos node')
    (h : (uint32 order).frames ((HelloMsg.make node type).serialize :: bodies)
      <+: (uint32 order').frames (hello :: messages)) : bodies <+: messages := by
  obtain ⟨type', rfl⟩ : ∃ type', hello = (HelloMsg.make node' type').serialize := by
    rcases List.mem_pair.mp hhello with rfl | rfl
    · exact ⟨_, rfl⟩
    · exact ⟨_, rfl⟩
  have hbegins : helloFrame node order type
      <+: (uint32 order').frames ((HelloMsg.make node' type').serialize :: messages) :=
    (List.prefix_append _ _).trans h
  have hsame := helloFrame_unique hbegins (.inr (List.prefix_append _ _))
  obtain rfl := helloFrame_order hsame
  have hfits : ∀ (node : PeerId) (type : Byte) (rest : List Message),
      (∀ m ∈ rest, m.length < 2 ^ 32) →
      (uint32 order).Fits ((HelloMsg.make node type).serialize :: rest) := by
    intro node type rest hrest m hm
    rw [uint32_bound]
    rcases List.mem_cons.mp hm with rfl | hm
    · rw [HelloMsg.length_serialize]
      decide
    · exact hrest m hm
  have hall := LengthCode.prefix_of_frames_prefix (uint32 order) (hfits node type bodies hbodies)
    (hfits node' type' messages hmessages) h
  exact (List.cons_prefix_cons.mp hall).2

theorem Sound.delivers (h : d.Sound) : d.Delivers := by
  intro here hgot
  have hlistens := (h.listens here.1).listens here.2
  -- something is passed on, so the connection is entered
  obtain ⟨conn, hconn⟩ : ∃ conn, conn ∈ (d.net.life here).recorded := by
    refine List.exists_mem_of_ne_nil _ fun hnone => hgot (hlistens.unheard hnone)
  obtain ⟨-, rest, ⟨type, htaken⟩, hpeers⟩ := hlistens.heard conn hconn
  obtain ⟨there, hfar, hself⟩ := h.net.far_of_record hconn
  refine ⟨there, hfar, fun e he => by rw [hself, hpeers e he], ?_, ?_⟩
  · have hstream : (uint32 (d.net.managers here.1).io.order).frames
        ((HelloMsg.make conn.1 type).serialize :: (d.got here.1 here.2).map Prod.snd)
          <+: d.net.written there := by
      have htook := h.net.taken here
      rw [Network.stream, hfar, ← Network.life_taken] at htook
      refine List.IsPrefix.trans ?_ htook
      rw [show (d.net.life here).taken = _ from htaken]
      exact List.prefix_append _ _
    obtain ⟨hello, hhello, messages, hmessages, hwritten⟩ := (h.sends there.1).intact there.2
    have hframes := hstream.trans hwritten
    refine (List.IsPrefix.sublist ?_).trans hmessages
    refine bodies_prefix ?_ (fun m hm => ?_) hhello hframes
    · intro m hm
      obtain ⟨e, he, rfl⟩ := List.mem_map.mp hm
      exact hlistens.fits e he
    · obtain ⟨parcel, hparcel, rfl⟩ := List.mem_map.mp (hmessages.subset hm)
      exact (h.carried there.1 there.2 parcel hparcel).1
  · intro parcel hparcel
    obtain ⟨-, dir, hrecord⟩ := h.carried there.1 there.2 parcel hparcel
    have hconn : (parcel.peer, dir) ∈ (d.net.life there).recorded := Network.mem_records.mpr hrecord
    obtain ⟨back, hback, hpeer⟩ := h.net.far_of_record hconn
    rw [h.net.symm here there hfar] at hback
    rw [show parcel.peer = _ from hpeer.symm, ← Option.some.inj hback]

theorem noAgain_of_notAgain {net : Network Node} {event : Network.Event Node}
    (h : (ofNode event).2.NotAgain) : net.NoAgain event := by
  cases event with
  | accept => trivial
  | runs node event =>
      cases event with
      | readable fd res ret answers => exact fun _ _ _ => h
      | _ => trivial

theorem Sound.carried_step (h : d.Sound) {event : Network.Event Node}
    (hfits : (ofNode event).2.Framable) {w : ConnectionManager}
    (hstep : (d.net.managers (ofNode event).1).step (ofNode event).2 = some w) (sock : Sock) :
    ∀ parcel ∈ w.pushed sock,
      parcel.body.length < 2 ^ 32 ∧ ∃ dir, (sock, (parcel.peer, dir)) ∈ w.records := by
  obtain ⟨hrecords, hpushed⟩ :=
    (h.kept (ofNode event).1).sound.pushed_step hstep sock
  have hold : ∀ parcel ∈ (d.net.managers (ofNode event).1).pushed sock,
      parcel.body.length < 2 ^ 32 ∧ ∃ dir, (sock, (parcel.peer, dir)) ∈ w.records := by
    intro parcel hparcel
    obtain ⟨hlength, dir, hrecord⟩ := h.carried _ sock parcel hparcel
    exact ⟨hlength, dir, hrecords _ hrecord⟩
  intro parcel hparcel
  rcases hpushed with hsame | ⟨peer, msg, registers, fd, hevent, hlookup, hsock, hmore⟩
  · exact hold parcel (hsame ▸ hparcel)
  · rw [hmore] at hparcel
    rcases List.mem_append.mp hparcel with hparcel | hnew
    · exact hold parcel hparcel
    · obtain rfl := List.mem_singleton.mp hnew
      rw [hevent] at hfits
      refine ⟨hfits, ?_⟩
      -- the connection that the tables name is active
      obtain ⟨dir, hentry⟩ : ∃ dir,
          (d.net.managers (ofNode event).1).connToFd (peer, dir) = some fd := by
        unfold ConnectionManager.lookupFd at hlookup
        split at hlookup
        · exact ⟨.outgoing, by rw [← hlookup]; assumption⟩
        · exact ⟨.incoming, hlookup⟩
      have hactive := (h.kept (ofNode event).1).backed (peer, dir) fd hentry
      obtain ⟨sock', hsock', hrecord⟩ := h.net.agrees.active _ fd (peer, dir) hactive
      obtain rfl := Option.some.inj (hsock.symm.trans hsock')
      exact ⟨dir, hrecords _ hrecord⟩

theorem Sound.step [DecidableEq Node] {event : Network.Event Node} (h : d.Sound)
    (hcareful : d.Careful event) (hstep : d.step event = some d') : d'.Sound := by
  obtain ⟨hagain, hspares, hfits⟩ := hcareful
  obtain ⟨net, hnet, hrest⟩ := Option.bind_eq_some_iff.mp hstep
  obtain ⟨sending, hsending, hlast⟩ := Option.bind_eq_some_iff.mp hrest
  obtain ⟨listening, hlistening, rfl⟩ := Option.map_eq_some_iff.mp hlast
  obtain ⟨w, hw, hmanagers⟩ := Network.step_manager hnet
  have hsends := (h.sends (ofNode event).1).step hspares hsending
  have hlistens := (h.listens (ofNode event).1).step hagain hlistening
  obtain rfl : sending.manager = w := by
    obtain ⟨v, hv, rfl⟩ := Option.map_eq_some_iff.mp hsending
    exact Option.some.inj (hv.symm.trans hw)
  have hsame : listening.manager = sending.manager := by
    obtain ⟨v, hv, rfl⟩ := Option.map_eq_some_iff.mp hlistening
    exact Option.some.inj (hv.symm.trans hw)
  refine ⟨h.net.step (noAgain_of_notAgain hagain) hnet, ?_, ?_, ?_, ?_⟩
  · intro node
    dsimp only
    rw [hmanagers]
    by_cases hnode : node = (ofNode event).1
    · subst hnode
      rw [Function.update_self]
      exact (h.kept _).step hw
    · rw [Function.update_of_ne hnode]
      exact h.kept node
  · intro node
    unfold Delivery.sending
    dsimp only
    rw [hmanagers]
    by_cases hnode : node = (ofNode event).1
    · subst hnode
      rw [Function.update_self, Function.update_self]
      exact hsends
    · rw [Function.update_of_ne hnode, Function.update_of_ne hnode]
      exact h.sends node
  · intro node
    unfold Delivery.listening
    dsimp only
    rw [hmanagers]
    by_cases hnode : node = (ofNode event).1
    · subst hnode
      rw [Function.update_self, Function.update_self, ← hsame]
      exact hlistens
    · rw [Function.update_of_ne hnode, Function.update_of_ne hnode]
      exact h.listens node
  · intro node sock
    dsimp only
    rw [hmanagers]
    by_cases hnode : node = (ofNode event).1
    · subst hnode
      rw [Function.update_self]
      exact h.carried_step hfits hw sock
    · rw [Function.update_of_ne hnode]
      exact h.carried node sock

/-- While no `recv` says `EAGAIN`, sockets with a part of a frame accept nothing more and messages
fit into frames, every message that is passed on was sent from the other end, in this order. -/
theorem delivers_of_careful [DecidableEq Node] (self : Node → PeerId) (order : Node → ByteOrder)
    (events : List (Network.Event Node)) (h : machine.EachStep Careful (init self order) events) :
    machine.Always Delivers (init self order) events :=
  Machine.always_of_eachStep (fun _ hd => hd.delivers)
    (fun _ _ _ hd hcareful hstep => hd.step hcareful hstep) events (init_sound self order) h

/-- The accepting end sends two messages, and the first of them arrives in two parts. -/
theorem delivers_of_exchange :
    let ann : PeerId := ⟨[9, 9, 9, 9, 9, 9], rfl⟩
    let bob : PeerId := ⟨[1, 2, 1, 1, 1, 1], rfl⟩
    let self : Bool → PeerId := fun node => if node then bob else ann
    let events := Network.exchange ann bob bob ++
      [.runs false (.readable 5 (.ok ())
          (.moved ((HelloMsg.make bob helloAnswer).serialize.drop 8)) .granted),
        .runs true (.sendMessage ann [7, 8] []), .runs true (.sendMessage ann [6] []),
        .runs true (.writable 7 (.ok ()) (.moved 4) .granted),
        .runs true (.writable 7 (.ok ()) (.moved 2) .granted),
        .runs false (.readable 5 (.ok ()) (.moved [2, 0, 0, 0]) .granted),
        .runs false (.readable 5 (.ok ()) (.moved [7]) .granted),
        .runs false (.readable 5 (.ok ()) (.moved [8]) .granted)]
    (machine.exec (init self fun _ => .little) events).map (fun d => d.got false 0)
        = some [(bob, [7, 8])] ∧
      machine.Always Delivers (init self fun _ => .little) events :=
  ⟨by decide +kernel, delivers_of_careful _ _ _ (by decide +kernel)⟩

end Delivery

end Diplom
