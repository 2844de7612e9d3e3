import Diplom.Proof.Pictures
import Diplom.Proof.Player

/-!
# What is on the screen of an experiment

The player stays within the time of the last change of its file, so whatever it shows of the graph
of an orderly run is the picture of a moment of the experiment.
-/

namespace Diplom

theorem parseInput_maxTime (content : Text) : (parseInput content).maxTime = 0 ∨
    ∃ e ∈ (parseInput content).events, e.time = (parseInput content).maxTime := by
  have hread : ∀ (lines : List Text) (reading : Reading),
      (reading.maxTime = 0 ∨ ∃ e ∈ reading.events, e.time = reading.maxTime) →
      (lines.foldl readLine reading).maxTime = 0 ∨
        ∃ e ∈ (lines.foldl readLine reading).events,
          e.time = (lines.foldl readLine reading).maxTime := by
    intro lines
    induction lines with
    | nil => exact fun _ h => h
    | cons line rest ih =>
        intro reading h
        apply ih
        unfold readLine
        split
        · exact h
        · split
          · exact h
          · split
            · exact h
            · rename_i m _
              dsimp only
              split
              · exact .inr ⟨m.event, by simp, rfl⟩
              · apply h.imp_right
                intro hread
                obtain ⟨e, he, htime⟩ := hread
                exact ⟨e, List.mem_append_left _ he, htime⟩
  obtain hzero | ⟨e, he, htime⟩ :=
    hread (content.splitOn '\n') ⟨⟨[], [], 0⟩, true⟩ (.inl rfl)
  · exact .inl hzero
  · exact .inr ⟨e, (List.mem_insertionSort _).mpr he, htime⟩

namespace Player

variable {p q : Player}

/-- A file stays until the next one is loaded. -/
theorem topology_of_exec (events : List Event)
    (hfile : ∀ content, Event.fileLoaded content ∉ events)
    (hexec : machine.exec p events = some q) :
    q.topology = p.topology ∧ q.timelineMax = p.timelineMax := by
  induction events generalizing p with
  | nil =>
      obtain rfl := Option.some.inj hexec
      exact ⟨rfl, rfl⟩
  | cons event rest ih =>
      obtain ⟨mid, hmid, hrest⟩ := Option.bind_eq_some_iff.mp hexec
      obtain ⟨htopology, hslider⟩ :=
        ih (fun content hmem => hfile content (List.mem_cons_of_mem _ hmem)) hrest
      suffices hsame : mid.topology = p.topology ∧ mid.timelineMax = p.timelineMax from
        ⟨htopology.trans hsame.1, hslider.trans hsame.2⟩
      have hstep : p.step event = some mid := hmid
      cases event with
      | fileLoaded content => exact absurd List.mem_cons_self (hfile content)
      | updateSpeed option =>
          obtain rfl := Option.some.inj hstep
          exact ⟨rfl, rfl⟩
      | timelineChange value =>
          simp only [Player.step] at hstep
          split at hstep
          · obtain rfl := Option.some.inj hstep
            exact ⟨rfl, rfl⟩
          · exact absurd hstep (by simp)
      | start now =>
          obtain rfl := Option.some.inj hstep
          unfold startAnimation
          split <;> exact ⟨rfl, rfl⟩
      | pause =>
          obtain rfl := Option.some.inj hstep
          obtain ⟨htopology, -, -, -, -, hslider, -⟩ := p.pauseAnimation_keeps
          exact ⟨htopology, hslider⟩
      | reset =>
          obtain rfl := Option.some.inj hstep
          obtain ⟨htopology, -, -, -, -, hslider, -⟩ := p.pauseAnimation_keeps
          exact ⟨htopology, hslider⟩
      | frame id time =>
          obtain ⟨taken, htaken, rfl⟩ := Option.map_eq_some_iff.mp hstep
          obtain ⟨frame, -, rfl⟩ := Option.map_eq_some_iff.mp htaken
          simp only [animate]
          split
          · exact ⟨rfl, rfl⟩
          · split <;> split <;> exact ⟨rfl, rfl⟩

end Player

namespace EmulatedRun

variable {run : EmulatedRun} {first : Int} {moment : Rat}

theorem Shows.drawEdges {edges : List DrawnEdge} (h : run.Shows first moment edges) {p : Player}
    (hcircles : p.circles.Perm (run.nodes.map fun node => node.drawn)) :
    p.drawEdges edges = edges := by
  have hcircle : ∀ node ∈ run.nodes, p.hasCircle node.number = true := by
    intro node hnode
    refine List.any_eq_true.mpr ⟨node.drawn, hcircles.mem_iff.mpr ?_, by simp [EmulatedNode.drawn]⟩
    exact List.mem_map_of_mem hnode
  refine List.filter_eq_self.mpr fun edge hedge => ?_
  have hends : ∃ a ∈ run.nodes, ∃ b ∈ run.nodes,
      a.number = edge.fromId ∧ b.number = edge.toId := by
    cases htype : edge.edgeType with
    | active =>
        have hmem : (edge.fromId, edge.toId) ∈ edgesOf .active edges :=
          List.mem_map.mpr ⟨edge, List.mem_filter.mpr ⟨hedge, by simp [htype]⟩, rfl⟩
        obtain ⟨a, ha, b, hb, hfrom, hto, -⟩ := (h.sessions _ _).mp hmem
        exact ⟨a, ha, b, hb, hfrom, hto⟩
    | discovery =>
        have hmem : s(edge.fromId, edge.toId)
            ∈ (edgesOf .discovery edges).map fun e => s(e.1, e.2) :=
          List.mem_map.mpr ⟨(edge.fromId, edge.toId),
            List.mem_map.mpr ⟨edge, List.mem_filter.mpr ⟨hedge, by simp [htype]⟩, rfl⟩, rfl⟩
        obtain ⟨a, ha, b, hb, hfrom, hto, -⟩ := (h.discoveries _ _).mp hmem
        exact ⟨a, ha, b, hb, hfrom, hto⟩
  obtain ⟨a, ha, b, hb, hfrom, hto⟩ := hends
  rw [← hfrom, ← hto, hcircle a ha, hcircle b hb]
  rfl

/-- Whatever is clicked after the graph of an orderly run is loaded, the screen shows what the nodes
had reported up to the time that it shows. -/
theorem screen_shows_reports (run : EmulatedRun) (duration : Int) (h : run.Orderly duration)
    (hpos : 0 < duration) :
    ∃ analysis, combineLogsMain run.files duration = some analysis ∧
      ∀ (before after : List Player.Event) (p : Player),
        Player.machine.exec .init (before ++ .fileLoaded analysis.graph :: after) = some p →
        (∀ content, Player.Event.fileLoaded content ∉ after) →
        Player.blankAfter (before ++ .fileLoaded analysis.graph :: after) = false →
        p.circles.Perm (run.nodes.map fun node => node.drawn) ∧
        p.shownTime < duration ∧
        ∀ first ∈ run.firstStart, run.Shows first p.shownTime p.edgePaths := by
  obtain ⟨analysis, hmain, hnodes, htimes, hshows⟩ := h.pictured
  refine ⟨analysis, hmain, ?_⟩
  intro before after p hexec hfile hblank
  have hsound := Player.sound_of_exec _ Player.init_sound hexec
  rw [show List.foldl Player.Event.blank true _ = false from hblank] at hsound
  obtain ⟨old, -, hrest⟩ : ∃ old, Player.machine.exec .init before = some old ∧
      Player.machine.exec (old.fileLoaded analysis.graph) after = some p := by
    rw [Machine.exec_append] at hexec
    exact Option.bind_eq_some_iff.mp hexec
  obtain ⟨htopology, hslider⟩ := Player.topology_of_exec after hfile hrest
  have hfile : p.topology = parseInput analysis.graph := htopology
  have hcircles : p.circles.Perm (run.nodes.map fun node => node.drawn) := by
    rw [hsound.circles, hfile]
    exact hnodes
  have htime : p.shownTime < duration := by
    refine lt_of_le_of_lt (hsound.notPast rfl) ?_
    rw [hslider]
    change (parseInput analysis.graph).maxTime < duration
    rcases parseInput_maxTime analysis.graph with hzero | ⟨e, he, hlast⟩
    · rw [hzero]
      exact_mod_cast hpos
    · rw [← hlast]
      exact htimes e he
  refine ⟨hcircles, htime, fun first hfirst => ?_⟩
  have hpicture := hshows first hfirst p.shownTime htime
  have hedges := hsound.edges
  rw [if_neg (by simp), hfile, hpicture.drawEdges hcircles] at hedges
  rw [hedges]
  exact hpicture

/-- The graph of two nodes that meet is played for three seconds. -/
theorem meeting_on_screen : ∃ analysis, combineLogsMain meeting.files 60 = some analysis ∧
    ∃ p, Player.machine.exec .init [.fileLoaded analysis.graph, .start 0, .frame 1 3000] = some p ∧
      meeting.Shows 1000000 p.shownTime p.edgePaths := by
  obtain ⟨analysis, hmain, hscreen⟩ := screen_shows_reports meeting 60 meeting_orderly (by decide)
  refine ⟨analysis, hmain, ?_⟩
  obtain ⟨p, hexec⟩ : ∃ p, Player.machine.exec .init
      [.fileLoaded analysis.graph, .start 0, .frame 1 3000] = some p := ⟨_, rfl⟩
  obtain ⟨-, -, hshows⟩ := hscreen [] [.start 0, .frame 1 3000] p hexec (by simp) rfl
  exact ⟨p, hexec, hshows 1000000 rfl⟩

end EmulatedRun

end Diplom
