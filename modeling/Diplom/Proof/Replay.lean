import Diplom.Emulator.LogFiles
import Diplom.Proof.Changes
import Diplom.Visualizer.Topology
import Mathlib.Data.Sym.Sym2
import Mathlib.Order.Basic

/-!
# The replay and the analyser's state

The analyser emits a change when the two ends of an edge come to agree or cease to, and the
visualizer adds the changes up again. What it then holds is what the analyser's sets say: a session
for each pair that one end reports outgoing and the other incoming, and a discovery for each two
nodes that see each other. The argument of a discovery's loss finds one entry only because nobody
sees a node twice without losing it.
-/

namespace Diplom

private theorem toDigits_injective {m n : Nat} (h : Nat.toDigits 10 m = Nat.toDigits 10 n) :
    m = n := by
  rw [← Nat.ofDigitChars_ten_toDigits (n := m), h, Nat.ofDigitChars_ten_toDigits]

theorem edgeName_injective : Function.Injective edgeName := by
  have hdash : ∀ n, '-' ∉ Nat.toDigits 10 n := by
    intro n hmem
    have := Nat.isDigit_of_mem_toDigits (by decide) (by decide) hmem
    exact absurd this (by decide)
  rintro ⟨x, y⟩ ⟨x', y'⟩ h
  unfold edgeName at h
  obtain ⟨hx, -, hy⟩ := (List.append_cons_inj_of_notMem (hdash x) (hdash y)).mp h
  rw [toDigits_injective hx, toDigits_injective hy]

namespace Replay

def sessions (r : Replay) : List (Nat × Nat) := r.activeEdges.map Prod.snd

/-- The discoveries of a replay, without their order. -/
def discovered (r : Replay) : List (Sym2 Nat) := r.discoveryEvents.map fun e => s(e.1, e.2)

end Replay

namespace Experiment

variable {Time Mac : Type} [DecidableEq Mac]

/-- The event is one of node `a` about node `b`. -/
def About (macToNum : List (Mac × Nat)) (it : Time × NodeEvent Mac) (a b : Nat) : Prop :=
  KeyedList.get it.2.mac1 macToNum = some a ∧ KeyedList.get it.2.mac2 macToNum = some b

instance (macToNum : List (Mac × Nat)) (it : Time × NodeEvent Mac) (a b : Nat) :
    Decidable (About macToNum it a b) := by
  unfold About
  infer_instance

/-- Node `a` loses node `b` before it sees it. -/
def LostBeforeSaw (macToNum : List (Mac × Nat)) (a b : Nat) : List (Time × NodeEvent Mac) → Prop
  | [] => True
  | it :: rest =>
      (About macToNum it a b → it.2.what ≠ .saw) ∧
        (About macToNum it a b ∧ it.2.what = .lost ∨ LostBeforeSaw macToNum a b rest)

/-- No node sees another twice without losing it in between. -/
def NoRepeatedSaw (macToNum : List (Mac × Nat)) : List (Time × NodeEvent Mac) → Prop
  | [] => True
  | it :: rest =>
      (∀ a ∈ KeyedList.get it.2.mac1 macToNum, ∀ b ∈ KeyedList.get it.2.mac2 macToNum,
        it.2.what = .saw → LostBeforeSaw macToNum a b rest) ∧ NoRepeatedSaw macToNum rest

/-- No event is one of a node about itself. -/
def NoSelf (macToNum : List (Mac × Nat)) (allEvents : List (Time × NodeEvent Mac)) : Prop :=
  ∀ it ∈ allEvents, KeyedList.get it.2.mac1 macToNum ≠ KeyedList.get it.2.mac2 macToNum

/-! ### What the replay shows -/

/-- The sessions and the discoveries of a replay are those of the analyser's sets, each once. -/
structure ShownBy (s : Experiment Time Nat) (r : Replay) : Prop where
  named : r.activeEdges = KeyedList.named edgeName r.sessions
  sessionsOnce : r.sessions.Nodup
  sessions : ∀ x y, (x, y) ∈ r.sessions ↔ (x, y) ∈ s.outgoing ∧ (y, x) ∈ s.incoming
  discoveredOnce : r.discovered.Nodup
  discovered : ∀ x y, s(x, y) ∈ r.discovered ↔ (x, y) ∈ s.visible ∧ (y, x) ∈ s.visible

section Changes

variable {s s' : Experiment Time Nat} {r : Replay} {x y : Nat}

/-- The session from `x` to `y` is there in the new state, if it is `agreed`, and the others are as
they were. -/
structure SessionSet (s s' : Experiment Time Nat) (x y : Nat) (agreed : Prop) : Prop where
  pair : (x, y) ∈ s'.outgoing ∧ (y, x) ∈ s'.incoming ↔ agreed
  others : ∀ x' y', (x', y') ≠ (x, y) →
    ((x', y') ∈ s'.outgoing ∧ (y', x') ∈ s'.incoming ↔
      (x', y') ∈ s.outgoing ∧ (y', x') ∈ s.incoming)
  visible : s'.visible = s.visible

theorem ShownBy.connect (h : s.ShownBy r) (hset : SessionSet s s' x y True) (time : Time) :
    s'.ShownBy (r.play ⟨time, x, .connect, y⟩) := by
  have hactive := KeyedList.set_named edgeName_injective (x, y) r.sessions
  rw [← h.named] at hactive
  have hsessions :
      Replay.sessions (r.play ⟨time, x, .connect, y⟩) = KeyedList.putLast (x, y) r.sessions := by
    have hvalues := congrArg (List.map Prod.snd) hactive
    rw [KeyedList.snd_named] at hvalues
    exact hvalues
  refine ⟨?_, ?_, fun x' y' => ?_, h.discoveredOnce, fun x' y' => ?_⟩
  · rw [hsessions]
    exact hactive
  · rw [hsessions]
    exact KeyedList.nodup_putLast _ h.sessionsOnce
  · rw [hsessions, KeyedList.mem_putLast]
    by_cases heq : (x', y') = (x, y)
    · obtain ⟨rfl, rfl⟩ := Prod.mk.inj heq
      exact iff_of_true (.inl rfl) (hset.pair.mpr trivial)
    · rw [hset.others x' y' heq, ← h.sessions x' y']
      simp only [heq, false_or]
  · rw [hset.visible]
    exact h.discovered x' y'

theorem ShownBy.disconnect (h : s.ShownBy r) (hset : SessionSet s s' x y False) (time : Time) :
    s'.ShownBy (r.play ⟨time, x, .disconnect, y⟩) := by
  have hactive := KeyedList.erase_named edgeName_injective (x, y) r.sessions
  rw [← h.named] at hactive
  have hsessions :
      Replay.sessions (r.play ⟨time, x, .disconnect, y⟩) = r.sessions.filter (· ≠ (x, y)) := by
    have hvalues := congrArg (List.map Prod.snd) hactive
    rw [KeyedList.snd_named] at hvalues
    exact hvalues
  refine ⟨?_, ?_, fun x' y' => ?_, h.discoveredOnce, fun x' y' => ?_⟩
  · rw [hsessions]
    exact hactive
  · rw [hsessions]
    exact h.sessionsOnce.filter _
  · rw [hsessions]
    by_cases heq : (x', y') = (x, y)
    · obtain ⟨rfl, rfl⟩ := Prod.mk.inj heq
      exact iff_of_false (by simp) hset.pair.mp
    · rw [hset.others x' y' heq, ← h.sessions x' y']
      simp [heq]
  · rw [hset.visible]
    exact h.discovered x' y'

theorem ShownBy.unagreed (h : s.ShownBy r)
    (hset : SessionSet s s' x y ((x, y) ∈ s.outgoing ∧ (y, x) ∈ s.incoming)) : s'.ShownBy r := by
  refine ⟨h.named, h.sessionsOnce, fun x' y' => ?_, h.discoveredOnce, fun x' y' => ?_⟩
  · rw [h.sessions]
    by_cases heq : (x', y') = (x, y)
    · obtain ⟨rfl, rfl⟩ := Prod.mk.inj heq
      exact hset.pair.symm
    · exact (hset.others x' y' heq).symm
  · rw [hset.visible]
    exact h.discovered x' y'

/-- The two nodes see each other in the new state, if it is `agreed`, and the others are as they
were. -/
structure SightSet (s s' : Experiment Time Nat) (x y : Nat) (agreed : Prop) : Prop where
  pair : (x, y) ∈ s'.visible ∧ (y, x) ∈ s'.visible ↔ agreed
  others : ∀ x' y', s(x', y') ≠ s(x, y) →
    ((x', y') ∈ s'.visible ∧ (y', x') ∈ s'.visible ↔ (x', y') ∈ s.visible ∧ (y', x') ∈ s.visible)
  outgoing : s'.outgoing = s.outgoing
  incoming : s'.incoming = s.incoming

theorem ShownBy.discover (h : s.ShownBy r) (hset : SightSet s s' x y True)
    (hnew : ¬ ((x, y) ∈ s.visible ∧ (y, x) ∈ s.visible)) (time : Time) :
    s'.ShownBy (r.play ⟨time, x, .discover, y⟩) := by
  have hdiscovered :
      Replay.discovered (r.play ⟨time, x, .discover, y⟩) = r.discovered ++ [s(x, y)] := by
    simp [Replay.discovered, Replay.play]
  refine ⟨h.named, h.sessionsOnce, fun x' y' => ?_, ?_, fun x' y' => ?_⟩
  · rw [hset.outgoing, hset.incoming]
    exact h.sessions x' y'
  · rw [hdiscovered, ← List.concat_eq_append]
    exact h.discoveredOnce.concat (mt (h.discovered x y).mp hnew)
  · rw [hdiscovered, List.mem_append, List.mem_singleton]
    by_cases heq : s(x', y') = s(x, y)
    · refine iff_of_true (.inr heq) ?_
      rcases Sym2.eq_iff.mp heq with ⟨rfl, rfl⟩ | ⟨rfl, rfl⟩
      · exact hset.pair.mpr trivial
      · exact (hset.pair.mpr trivial).symm
    · rw [hset.others x' y' heq, ← h.discovered x' y']
      simp only [heq, or_false]

private theorem discovered_eraseP (events : List (Nat × Nat)) (x y : Nat) :
    (events.eraseP (Replay.sameNodes x y)).map (fun e => s(e.1, e.2))
      = (events.map fun e => s(e.1, e.2)).erase s(x, y) := by
  induction events with
  | nil => rfl
  | cons e rest ih =>
      have hsame : Replay.sameNodes x y e = true ↔ s(e.1, e.2) = s(x, y) := by
        rw [Replay.sameNodes, decide_eq_true_iff, Sym2.eq_iff]
        omega
      by_cases he : s(e.1, e.2) = s(x, y)
      · rw [List.eraseP_cons_of_pos (hsame.mpr he), List.map_cons, he, List.erase_cons_head]
      · rw [List.eraseP_cons_of_neg (mt hsame.mp he), List.map_cons, List.map_cons, ih,
          List.erase_cons_tail (by simpa using he)]

theorem ShownBy.lose (h : s.ShownBy r) (hset : SightSet s s' x y False) (time : Time) :
    s'.ShownBy (r.play ⟨time, x, .lose, y⟩) := by
  have hdiscovered : Replay.discovered (r.play ⟨time, x, .lose, y⟩) = r.discovered.erase s(x, y) :=
    discovered_eraseP r.discoveryEvents x y
  refine ⟨h.named, h.sessionsOnce, fun x' y' => ?_, ?_, fun x' y' => ?_⟩
  · rw [hset.outgoing, hset.incoming]
    exact h.sessions x' y'
  · rw [hdiscovered]
    exact h.discoveredOnce.erase _
  · rw [hdiscovered, h.discoveredOnce.mem_erase_iff]
    by_cases heq : s(x', y') = s(x, y)
    · refine iff_of_false (fun hmem => hmem.1 heq) fun hboth => ?_
      rcases Sym2.eq_iff.mp heq with ⟨rfl, rfl⟩ | ⟨rfl, rfl⟩
      · exact hset.pair.mp hboth
      · exact hset.pair.mp hboth.symm
    · rw [hset.others x' y' heq, ← h.discovered x' y']
      simp only [ne_eq, heq, not_false_eq_true, true_and]

theorem ShownBy.unseen (h : s.ShownBy r)
    (hset : SightSet s s' x y ((x, y) ∈ s.visible ∧ (y, x) ∈ s.visible)) : s'.ShownBy r := by
  refine ⟨h.named, h.sessionsOnce, fun x' y' => ?_, h.discoveredOnce, fun x' y' => ?_⟩
  · rw [hset.outgoing, hset.incoming]
    exact h.sessions x' y'
  · rw [h.discovered]
    by_cases heq : s(x', y') = s(x, y)
    · rcases Sym2.eq_iff.mp heq with ⟨rfl, rfl⟩ | ⟨rfl, rfl⟩
      · exact hset.pair.symm
      · rw [and_comm, and_comm (a := (x', y') ∈ s'.visible)]
        exact hset.pair.symm
    · exact (hset.others x' y' heq).symm

end Changes

/-! ### What an event changes -/

section Events

variable {s s' : Experiment Time Nat} {a b : Nat} {agreed : Prop}

private def ChangedAt (V V' : Finset (Nat × Nat)) (p : Nat × Nat) : Prop :=
  ∀ q, q ≠ p → (q ∈ V' ↔ q ∈ V)

private theorem changedAt_insert (V : Finset (Nat × Nat)) (p : Nat × Nat) :
    ChangedAt V (insert p V) p := by
  intro q hq
  simp [hq]

private theorem changedAt_erase (V : Finset (Nat × Nat)) (p : Nat × Nat) :
    ChangedAt V (V.erase p) p := by
  intro q hq
  simp [hq]

variable {V : Finset (Nat × Nat)}

private theorem sightSet (h : ChangedAt s.visible V (a, b))
    (hpair : (b, a) ∈ V ∧ (a, b) ∈ V ↔ agreed) : SightSet s { s with visible := V } b a agreed := by
  refine ⟨hpair, fun x y hne => ?_, rfl, rfl⟩
  have hxy : (x, y) ≠ (a, b) := by
    rintro heq
    obtain ⟨rfl, rfl⟩ := Prod.mk.inj heq
    exact hne Sym2.eq_swap
  have hyx : (y, x) ≠ (a, b) := by
    rintro heq
    obtain ⟨rfl, rfl⟩ := Prod.mk.inj heq
    exact hne rfl
  exact and_congr (h _ hxy) (h _ hyx)

private theorem sessionSet_incoming (h : ChangedAt s.incoming V (a, b))
    (hpair : (b, a) ∈ s.outgoing ∧ (a, b) ∈ V ↔ agreed) :
    SessionSet s { s with incoming := V } b a agreed := by
  refine ⟨hpair, fun x y hne => ?_, rfl⟩
  have hyx : (y, x) ≠ (a, b) := by
    rintro heq
    obtain ⟨rfl, rfl⟩ := Prod.mk.inj heq
    exact hne rfl
  exact and_congr Iff.rfl (h _ hyx)

private theorem sessionSet_outgoing (h : ChangedAt s.outgoing V (a, b))
    (hpair : (a, b) ∈ V ∧ (b, a) ∈ s.incoming ↔ agreed) :
    SessionSet s { s with outgoing := V } a b agreed :=
  ⟨hpair, fun _ _ hne => and_congr (h _ hne) Iff.rfl, rfl⟩

theorem ShownBy.congr {r : Replay} (h : s.ShownBy r) (hincoming : s'.incoming = s.incoming)
    (houtgoing : s'.outgoing = s.outgoing) (hvisible : s'.visible = s.visible) : s'.ShownBy r := by
  refine ⟨h.named, h.sessionsOnce, fun x y => ?_, h.discoveredOnce, fun x y => ?_⟩
  · rw [houtgoing, hincoming]
    exact h.sessions x y
  · rw [hvisible]
    exact h.discovered x y

/-- Where the other node's word stands, the replay of the change shows the new word. -/
private theorem tell_answered {r : Replay} {what : What} (h : s.ShownBy r)
    (hsaw : what = .saw → (a, b) ∉ s.visible)
    (hanswered : (s.tell a b what).answered a b what = true) (time : Time) :
    (s.tell a b what).ShownBy (r.play (change time a b what)) := by
  cases what with
  | saw =>
      have hstands : (b, a) ∈ insert (a, b) s.visible := of_decide_eq_true hanswered
      exact h.discover (sightSet (changedAt_insert s.visible (a, b)) (by simpa using hstands))
        (fun hseen => hsaw rfl hseen.2) time
  | lost => exact h.lose (sightSet (changedAt_erase s.visible (a, b)) (by simp)) time
  | opened dir =>
      cases dir with
      | incoming =>
          have hstands : (b, a) ∈ s.outgoing := of_decide_eq_true hanswered
          exact h.connect
            (sessionSet_incoming (changedAt_insert s.incoming (a, b)) (by simpa using hstands)) time
      | outgoing =>
          have hstands : (b, a) ∈ s.incoming := of_decide_eq_true hanswered
          exact h.connect
            (sessionSet_outgoing (changedAt_insert s.outgoing (a, b)) (by simpa using hstands)) time
  | closed dir =>
      cases dir with
      | incoming =>
          exact h.disconnect (sessionSet_incoming (changedAt_erase s.incoming (a, b)) (by simp))
            time
      | outgoing =>
          exact h.disconnect (sessionSet_outgoing (changedAt_erase s.outgoing (a, b)) (by simp))
            time

private theorem tell_unanswered {r : Replay} {what : What} (h : s.ShownBy r) (hne : a ≠ b)
    (hsaw : what = .saw → (a, b) ∉ s.visible)
    (hanswered : (s.tell a b what).answered a b what = false) : (s.tell a b what).ShownBy r := by
  have hpairs : (b, a) ≠ (a, b) := fun heq => hne (Prod.mk.inj heq).2
  cases what with
  | saw =>
      have hunseen : (b, a) ∉ insert (a, b) s.visible := of_decide_eq_false hanswered
      refine h.unseen (sightSet (changedAt_insert s.visible (a, b)) ?_)
      exact iff_of_false (fun hboth => hunseen hboth.1) fun hboth => hsaw rfl hboth.2
  | lost =>
      have hunseen : (b, a) ∉ s.visible.erase (a, b) := of_decide_eq_false hanswered
      have hchanged := changedAt_erase s.visible (a, b)
      refine h.unseen (sightSet hchanged ?_)
      exact iff_of_false (fun hboth => hunseen hboth.1) fun hboth =>
        hunseen ((hchanged _ hpairs).mpr hboth.1)
  | opened dir =>
      cases dir with
      | incoming =>
          have hnot : (b, a) ∉ s.outgoing := of_decide_eq_false hanswered
          refine h.unagreed (sessionSet_incoming (changedAt_insert s.incoming (a, b)) ?_)
          exact iff_of_false (fun hboth => hnot hboth.1) fun hboth => hnot hboth.1
      | outgoing =>
          have hnot : (b, a) ∉ s.incoming := of_decide_eq_false hanswered
          refine h.unagreed (sessionSet_outgoing (changedAt_insert s.outgoing (a, b)) ?_)
          exact iff_of_false (fun hboth => hnot hboth.2) fun hboth => hnot hboth.2
  | closed dir =>
      cases dir with
      | incoming =>
          have hnot : (b, a) ∉ s.outgoing := of_decide_eq_false hanswered
          refine h.unagreed (sessionSet_incoming (changedAt_erase s.incoming (a, b)) ?_)
          exact iff_of_false (fun hboth => hnot hboth.1) fun hboth => hnot hboth.1
      | outgoing =>
          have hnot : (b, a) ∉ s.incoming := of_decide_eq_false hanswered
          refine h.unagreed (sessionSet_outgoing (changedAt_erase s.outgoing (a, b)) ?_)
          exact iff_of_false (fun hboth => hnot hboth.2) fun hboth => hnot hboth.2

/-- The replay follows every event, if it is not one of a node about itself and no second sight of
the same node. -/
theorem tell_shownBy {r : Replay} {what : What} (h : s.ShownBy r) (hne : a ≠ b)
    (hsaw : what = .saw → (a, b) ∉ s.visible) (time : Time) :
    (s.tell a b what).ShownBy ((s.changes time a b what).foldl Replay.play r) := by
  unfold changes
  cases hanswered : (s.tell a b what).answered a b what with
  | true => exact tell_answered h hsaw hanswered time
  | false => exact tell_unanswered h hne hsaw hanswered

end Events

/-! ### Runs -/

section Runs

variable {s s' : Experiment Time Nat} {macToNum : List (Mac × Nat)}

/-- What a node sees now it loses before it sees it again. -/
def SightsPending (macToNum : List (Mac × Nat)) (s : Experiment Time Nat)
    (rest : List (Time × NodeEvent Mac)) : Prop :=
  ∀ a b, (a, b) ∈ s.visible → LostBeforeSaw macToNum a b rest

/-- A pair is seen after an event if it was seen before and is not lost, or if it is seen now. -/
theorem tell_visible {a b : Nat} {what : What} {p : Nat × Nat}
  (hp : p ∈ (s.tell a b what).visible) :
  (p = (a, b) ∧ what = .saw) ∨ (p ∈ s.visible ∧ ¬ (p = (a, b) ∧ what = .lost)) := by
  cases what with
  | saw =>
      rcases Finset.mem_insert.mp hp with heq | hold
      · exact .inl ⟨heq, rfl⟩
      · exact .inr ⟨hold, by simp⟩
  | lost =>
      obtain ⟨hne, hold⟩ := Finset.mem_erase.mp hp
      exact .inr ⟨hold, fun hlost => hne hlost.1⟩
  | opened dir => cases dir <;> exact .inr ⟨hp, by simp⟩
  | closed dir => cases dir <;> exact .inr ⟨hp, by simp⟩

theorem round_shownBy {it : Time × NodeEvent Mac} {rest : List (Time × NodeEvent Mac)}
  (h : s.round macToNum it = some s') (hself : NoSelf macToNum (it :: rest))
  (hsaw : NoRepeatedSaw macToNum (it :: rest)) (hpending : SightsPending macToNum s (it :: rest)) :
  (∃ new, s'.events = s.events ++ new ∧ ∀ r, s.ShownBy r → s'.ShownBy (new.foldl Replay.play r)) ∧
    SightsPending macToNum s' rest := by
  obtain ⟨a, b, t, ha, hb, happly, rfl⟩ := round_eq_some h
  obtain ⟨graph, rfl⟩ := apply_eq happly
  have hne : a ≠ b := by
    rintro rfl
    exact hself it List.mem_cons_self (ha.trans hb.symm)
  have hnew : it.2.what = .saw → (a, b) ∉ s.visible :=
    fun hwhat hseen => (hpending a b hseen).1 ⟨ha, hb⟩ hwhat
  refine ⟨⟨_, rfl, fun r hr => (tell_shownBy hr hne hnew it.1).congr rfl rfl rfl⟩,
    fun x y hxy => ?_⟩
  rcases tell_visible hxy with ⟨heq, hwhat⟩ | ⟨hold, hkept⟩
  · obtain ⟨rfl, rfl⟩ := Prod.mk.inj heq
    exact hsaw.1 x ha y hb hwhat
  · rcases (hpending x y hold).2 with ⟨⟨hx, hy⟩, hlost⟩ | hlater
    · refine absurd ⟨?_, hlost⟩ hkept
      rw [Option.some.inj (hx.symm.trans ha), Option.some.inj (hy.symm.trans hb)]
    · exact hlater

theorem run_shownBy {evs rest : List (Time × NodeEvent Mac)} (h : run macToNum evs s = some s')
    (hself : NoSelf macToNum (evs ++ rest)) (hsaw : NoRepeatedSaw macToNum (evs ++ rest))
    (hpending : SightsPending macToNum s (evs ++ rest)) :
    ∃ new, s'.events = s.events ++ new ∧ ∀ r, s.ShownBy r →
      s'.ShownBy (new.foldl Replay.play r) := by
  induction evs generalizing s with
  | nil =>
      obtain rfl := Option.some.inj h
      exact ⟨[], by simp, fun r hr => hr⟩
  | cons it evs ih =>
      obtain ⟨t, hround, hrun⟩ := Option.bind_eq_some_iff.mp h
      obtain ⟨⟨first, hfirst, hfirstShown⟩, hpending'⟩ := round_shownBy hround hself hsaw hpending
      have hself' : NoSelf macToNum (evs ++ rest) :=
        fun it' hit' => hself it' (List.mem_cons_of_mem _ hit')
      obtain ⟨later, hlater, hlaterShown⟩ := ih hrun hself' hsaw.2 hpending'
      refine ⟨first ++ later, ?_, fun r hr => ?_⟩
      · rw [hlater, hfirst, List.append_assoc]
      · rw [List.foldl_append]
        exact hlaterShown _ (hfirstShown r hr)

end Runs

end Experiment

/-- The loop of the replay goes as far as the events of its time and before. -/
theorem replay_upTo {Time : Type} [LinearOrder Time] {time : Time}
    {upTo later : List (EdgeEvent Time Nat)} (hupTo : ∀ e ∈ upTo, e.time ≤ time)
    (hlater : ∀ e ∈ later, time < e.time) (r : Replay) :
    Replay.replay time (upTo ++ later) r = upTo.foldl Replay.play r := by
  induction upTo generalizing r with
  | nil =>
      cases later with
      | nil => rfl
      | cons e rest => simp [Replay.replay, hlater e List.mem_cons_self]
  | cons e rest ih =>
      have hle : ¬ time < e.time := not_lt.mpr (hupTo e List.mem_cons_self)
      simp only [List.cons_append, Replay.replay, if_neg hle, List.foldl_cons]
      exact ih (fun e' he' => hupTo e' (List.mem_cons_of_mem _ he')) _

/-- Events in the order of their times: those up to a moment, and those after it. -/
theorem sorted_split {Time : Type} [LinearOrder Time] {α : Type} (time : Time)
    {evs : List (Time × α)} (hsorted : evs.Pairwise fun it it' => it.1 ≤ it'.1) :
    evs = (evs.filter fun it => it.1 ≤ time) ++ evs.filter fun it => time < it.1 := by
  induction evs with
  | nil => rfl
  | cons it rest ih =>
      obtain ⟨hhead, hrest⟩ := List.pairwise_cons.mp hsorted
      by_cases hle : it.1 ≤ time
      · simp only [List.filter_cons, hle, not_lt.mpr hle, decide_true, decide_false, if_true,
          Bool.false_eq_true, if_false, List.cons_append]
        exact congrArg (it :: ·) (ih hrest)
      · have hlater : ∀ it' ∈ rest, time < it'.1 :=
          fun it' hit' => lt_of_lt_of_le (not_le.mp hle) (hhead it' hit')
        have hnone : rest.filter (fun it => it.1 ≤ time) = [] := by
          rw [List.filter_eq_nil_iff]
          exact fun it' hit' => by simpa using hlater it' hit'
        have hall : rest.filter (fun it => time < it.1) = rest := by
          rw [List.filter_eq_self]
          exact fun it' hit' => by simpa using hlater it' hit'
        simp [hle, not_le.mp hle, hnone, hall]

/-! ### The picture -/

def edgesOf (type : EdgeType) (drawn : List DrawnEdge) : List (Nat × Nat) :=
  (drawn.filter fun e => e.edgeType = type).map fun e => (e.fromId, e.toId)

/-- The picture of a state: a session for each pair that is outgoing at one end and incoming at the
other, and a discovery for each two nodes that see each other, all drawn once. -/
structure PictureOf {Time : Type} (s : Experiment Time Nat) (drawn : List DrawnEdge) : Prop where
  sessionsOnce : (edgesOf .active drawn).Nodup
  sessions : ∀ x y, (x, y) ∈ edgesOf .active drawn ↔ (x, y) ∈ s.outgoing ∧ (y, x) ∈ s.incoming
  discoveriesOnce : ((edgesOf .discovery drawn).map fun e => s(e.1, e.2)).Nodup
  discoveries : ∀ x y, s(x, y) ∈ ((edgesOf .discovery drawn).map fun e => s(e.1, e.2)) ↔
    (x, y) ∈ s.visible ∧ (y, x) ∈ s.visible

theorem draw_active (r : Replay) : edgesOf .active r.draw = r.sessions := by
  simp [edgesOf, Replay.draw, Replay.sessions, List.filter_append, List.filter_map,
    Function.comp_def]

theorem draw_discovery (r : Replay) : edgesOf .discovery r.draw = r.discoveryEvents := by
  simp [edgesOf, Replay.draw, List.filter_append, List.filter_map, Function.comp_def]

theorem Experiment.ShownBy.picture {Time : Type} {s : Experiment Time Nat} {r : Replay}
    (h : s.ShownBy r) : PictureOf s r.draw where
  sessionsOnce := by
    rw [draw_active]
    exact h.sessionsOnce
  sessions := by
    rw [draw_active]
    exact h.sessions
  discoveriesOnce := by
    rw [draw_discovery]
    exact h.discoveredOnce
  discoveries := by
    rw [draw_discovery]
    exact h.discovered

theorem start_shownBy {Time Mac : Type} (macToNum : List (Mac × Nat)) :
    (Experiment.start macToNum : Experiment Time Nat).ShownBy ⟨[], []⟩ where
  named := rfl
  sessionsOnce := List.nodup_nil
  sessions := by simp [Experiment.start, Replay.sessions]
  discoveredOnce := List.nodup_nil
  discovered := by simp [Experiment.start, Replay.discovered]

theorem picture_of_sorted {Time Mac : Type} [LinearOrder Time] [DecidableEq Mac]
    {macToNum : List (Mac × Nat)} {allEvents : List (Time × NodeEvent Mac)}
    {connTime syncTime : Option Time} {events : List (EdgeEvent Time Nat)}
    (hstats : getExperimentStats macToNum allEvents = some (connTime, syncTime, events))
    (hsorted : allEvents.Pairwise fun it it' => it.1 ≤ it'.1)
    (hself : Experiment.NoSelf macToNum allEvents)
    (hsaw : Experiment.NoRepeatedSaw macToNum allEvents) (time : Time) :
    ∃ s, Experiment.after macToNum (allEvents.filter fun it => it.1 ≤ time) = some s ∧
      PictureOf s (updateTopology events time) := by
  obtain ⟨final, hfinal, hresult⟩ := Option.map_eq_some_iff.mp hstats
  obtain ⟨-, -, rfl⟩ : _ ∧ _ ∧ final.events = events := by simpa using hresult
  have hsplit := sorted_split time hsorted
  rw [hsplit] at hself hsaw
  rw [Experiment.after, hsplit, Experiment.run_append] at hfinal
  obtain ⟨s, hbefore, hafter⟩ := Option.bind_eq_some_iff.mp hfinal
  have hpending :
      Experiment.SightsPending macToNum (Experiment.start macToNum : Experiment Time Nat)
        ((allEvents.filter fun it => it.1 ≤ time) ++ allEvents.filter fun it => time < it.1) :=
    fun a b hseen =>
    absurd hseen (by simp [Experiment.start])
  obtain ⟨upTo, hupTo, hshown⟩ := Experiment.run_shownBy hbefore hself hsaw hpending
  obtain ⟨upTo', hupTo', htimes, -⟩ := Experiment.run_events hbefore
  obtain ⟨later, hlater, hlaterTimes, -⟩ := Experiment.run_events hafter
  obtain rfl : upTo' = upTo := List.append_cancel_left (hupTo'.symm.trans hupTo)
  have hbound : ∀ e ∈ upTo', e.time ≤ time := by
    intro e he
    obtain ⟨it, hit, htime⟩ := List.mem_map.mp (htimes.subset (List.mem_map_of_mem he))
    rw [← htime]
    simpa using (List.mem_filter.mp hit).2
  have hbeyond : ∀ e ∈ later, time < e.time := by
    intro e he
    obtain ⟨it, hit, htime⟩ := List.mem_map.mp (hlaterTimes.subset (List.mem_map_of_mem he))
    rw [← htime]
    simpa using (List.mem_filter.mp hit).2
  refine ⟨s, hbefore, ?_⟩
  rw [updateTopology, hlater, hupTo, show (Experiment.start macToNum : Experiment Time Nat).events
    = [] from rfl, List.nil_append, replay_upTo hbound hbeyond]
  exact (hshown _ (start_shownBy macToNum)).picture

/-- At every moment the visualizer draws what the analyser's sets say after the events up to that
moment. -/
theorem replay_pictures_state {Time Mac : Type} [LinearOrder Time] [DecidableEq Mac]
    (macToNum : List (Mac × Nat)) (allEvents : List (Time × NodeEvent Mac))
    (connTime syncTime : Option Time) (events : List (EdgeEvent Time Nat))
    (hstats : getExperimentStats macToNum allEvents = some (connTime, syncTime, events))
    (hsorted : allEvents.Pairwise fun it it' => it.1 ≤ it'.1)
    (hself : Experiment.NoSelf macToNum allEvents)
    (hsaw : Experiment.NoRepeatedSaw macToNum allEvents) (time : Time) :
    ∃ s, Experiment.after macToNum (allEvents.filter fun it => it.1 ≤ time) = some s ∧
      PictureOf s (updateTopology events time) :=
  picture_of_sorted hstats hsorted hself hsaw time

/-- Two nodes see each other, open a session and lose sight; the picture after two seconds. -/
theorem replay_pictures_state_of_two_nodes :
    ∃ s, Experiment.after [("A", 1), ("B", 2)]
      ([(1, ⟨"A", .saw, "B"⟩), (1, ⟨"B", .saw, "A"⟩), (2, ⟨"B", .opened .outgoing, "A"⟩),
        (2, ⟨"A", .opened .incoming, "B"⟩), (3, ⟨"A", .lost, "B"⟩)].filter
      fun it : Nat × NodeEvent String => it.1 ≤ 2) = some s ∧
      PictureOf s (updateTopology
        [⟨1, 1, .discover, 2⟩, ⟨2, 2, .connect, 1⟩, ⟨3, 2, .lose, 1⟩] 2) :=
  replay_pictures_state _ _ (some 2) (some 3) _ (by decide) (by decide)
    (by unfold Experiment.NoSelf; decide)
    (by simp [Experiment.NoRepeatedSaw, Experiment.LostBeforeSaw, Experiment.About, KeyedList.get])
    2

theorem pairwise_combineLogs {files : List (Text × List Text)} {duration : Int}
    {macToNum : List (Text × Text)} {allEvents : List (Timedelta × NodeEvent Text)}
    (h : combineLogs files duration = some (macToNum, allEvents)) :
    allEvents.Pairwise fun it it' => it.1 ≤ it'.1 := by
  obtain ⟨merged, hmerged, hresult⟩ := Option.map_eq_some_iff.mp h
  obtain ⟨-, rfl⟩ := Prod.mk.inj hresult
  rw [List.pairwise_map]
  obtain ⟨start, -, hstart⟩ := Option.map_eq_some_iff.mp hmerged
  cases start with
  | none =>
      obtain rfl := hstart
      exact List.Pairwise.nil
  | some start =>
      obtain rfl := hstart
      exact List.pairwise_insertionSort _ _

/-- What `combine_logs` hands over is in the order of its times. -/
theorem picture_of_combineLogs {files : List (Text × List Text)} {duration : Int}
    {macToNum : List (Text × Text)} {allEvents : List (Timedelta × NodeEvent Text)}
    (hcombine : combineLogs files duration = some (macToNum, allEvents))
    {nodes : List (Text × Nat)} {connTime syncTime : Option Timedelta}
    {events : List (EdgeEvent Timedelta Nat)}
    (hstats : getExperimentStats nodes allEvents = some (connTime, syncTime, events))
    (hself : Experiment.NoSelf nodes allEvents)
    (hsaw : Experiment.NoRepeatedSaw nodes allEvents) (time : Timedelta) :
    ∃ s, Experiment.after nodes (allEvents.filter fun it => it.1 ≤ time) = some s ∧
      PictureOf s (updateTopology events time) :=
  picture_of_sorted hstats (pairwise_combineLogs hcombine) hself hsaw time

end Diplom
