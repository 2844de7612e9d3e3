import Diplom.Proof.OpenEdges
import Diplom.Proof.Returns

/-!
# Other names for nodes and times

The analysis compares nodes, and passes times on. So what it makes of the events of nodes under
other names, at times that are written in another way, is what it makes of the events themselves,
written so.
-/

namespace Diplom

def Word.answer : Word → Word
  | .visible => .visible
  | .session dir => .session dir.opposite

def EdgeEvent.renamed {Time Time' Node Node' : Type} (clock : Time → Time') (name : Node → Node')
    (e : EdgeEvent Time Node) : EdgeEvent Time' Node' :=
  ⟨clock e.time, name e.fromNode, e.action, name e.toNode⟩

def NodeEvent.renamed {Mac Mac' : Type} (address : Mac → Mac') (e : NodeEvent Mac) :
    NodeEvent Mac' :=
  ⟨address e.mac1, e.what, address e.mac2⟩

namespace Experiment

variable {Time Time' Node Node' Mac Mac' : Type} [DecidableEq Node] [DecidableEq Node']
  [DecidableEq Mac] [DecidableEq Mac'] {clock : Time → Time'} {name : Node → Node'}
  {address : Mac → Mac'}

omit [DecidableEq Mac] [DecidableEq Mac'] in
theorem answered_eq (s : Experiment Time Node) (a b : Node) (what : What) :
    s.answered a b what = decide ((b, a) ∈ s.said what.word.1.answer) := by
  rcases what with _ | _ | ⟨_ | _⟩ | ⟨_ | _⟩ <;> rfl

/-- The sets and the changes of one analysis are those of another, with other names. -/
structure Renamed (clock : Time → Time') (name : Node → Node') (s : Experiment Time Node)
    (s' : Experiment Time' Node') : Prop where
  said : ∀ a b word, (name a, name b) ∈ s'.said word ↔ (a, b) ∈ s.said word
  events : s'.events = s.events.map (EdgeEvent.renamed clock name)

variable {s t : Experiment Time Node} {s' t' : Experiment Time' Node'}

omit [DecidableEq Mac] [DecidableEq Mac'] in
theorem Renamed.tell (hname : Function.Injective name) (h : Renamed clock name s s') (a b : Node)
    (what : What) (x y : Node) (word : Word) :
    (name x, name y) ∈ (s'.tell (name a) (name b) what).said word ↔
      (x, y) ∈ (s.tell a b what).said word := by
  have hpair : (name x, name y) = (name a, name b) ↔ (x, y) = (a, b) := by
    rw [Prod.mk.injEq, Prod.mk.injEq, hname.eq_iff, hname.eq_iff]
  rw [mem_said_tell, mem_said_tell, h.said, hpair]

theorem Renamed.round {macToNum : List (Mac × Node)} {macToNum' : List (Mac' × Node')}
    (hname : Function.Injective name)
    (hnumbers : ∀ mac,
      KeyedList.get (address mac) macToNum' = (KeyedList.get mac macToNum).map name)
    (h : Renamed clock name s s') {it : Time × NodeEvent Mac} (ht : s.round macToNum it = some t)
    (ht' : s'.round macToNum' (clock it.1, it.2.renamed address) = some t') :
    Renamed clock name t t' := by
  obtain ⟨a, b, u, ha, hb, happly, rfl⟩ := round_eq_some ht
  obtain ⟨a', b', u', ha', hb', happly', rfl⟩ := round_eq_some ht'
  obtain rfl : name a = a' := by
    have hnum := (hnumbers it.2.mac1).symm.trans ha'
    rw [ha] at hnum
    exact Option.some.inj hnum
  obtain rfl : name b = b' := by
    have hnum := (hnumbers it.2.mac2).symm.trans hb'
    rw [hb] at hnum
    exact Option.some.inj hnum
  obtain ⟨graph, rfl⟩ := apply_eq happly
  obtain ⟨graph', rfl⟩ := apply_eq happly'
  refine ⟨fun x y word => h.tell hname a b it.2.what x y word, ?_⟩
  have hanswered : (s'.tell (name a) (name b) it.2.what).answered (name a) (name b) it.2.what =
      (s.tell a b it.2.what).answered a b it.2.what := by
    rw [answered_eq, answered_eq, decide_eq_decide]
    exact h.tell hname a b it.2.what b a _
  have hchange : ∀ what, change (clock it.1) (name a) (name b) what =
      (change it.1 a b what).renamed clock name := by
    intro what
    rcases what with _ | _ | ⟨_ | _⟩ | ⟨_ | _⟩ <;> rfl
  change s'.events ++ s'.changes (clock it.1) (name a) (name b) it.2.what =
    (s.events ++ s.changes it.1 a b it.2.what).map (EdgeEvent.renamed clock name)
  rw [h.events, List.map_append, changes, changes, hanswered, List.append_cancel_left_eq]
  cases (s.tell a b it.2.what).answered a b it.2.what with
  | true => exact congrArg (fun e => [e]) (hchange it.2.what)
  | false => rfl

/-- The events of nodes with other addresses, at times that are written in another way. -/
def renamedEvents (clock : Time → Time') (address : Mac → Mac')
    (evs : List (Time × NodeEvent Mac)) : List (Time' × NodeEvent Mac') :=
  evs.map fun it => (clock it.1, it.2.renamed address)

theorem Renamed.run {macToNum : List (Mac × Node)} {macToNum' : List (Mac' × Node')}
    (hname : Function.Injective name)
    (hnumbers : ∀ mac,
      KeyedList.get (address mac) macToNum' = (KeyedList.get mac macToNum).map name)
    {evs : List (Time × NodeEvent Mac)} (h : Renamed clock name s s')
    (ht : run macToNum evs s = some t)
    (ht' : run macToNum' (renamedEvents clock address evs) s' = some t') :
    Renamed clock name t t' := by
  induction evs generalizing s s' with
  | nil =>
      obtain rfl := Option.some.inj ht
      obtain rfl := Option.some.inj ht'
      exact h
  | cons it rest ih =>
      obtain ⟨u, hu, hrest⟩ := Option.bind_eq_some_iff.mp ht
      obtain ⟨u', hu', hrest'⟩ := Option.bind_eq_some_iff.mp ht'
      exact ih (h.round hname hnumbers hu hu') hrest hrest'

omit [DecidableEq Node] [DecidableEq Node'] in
theorem wordMark_renamed {macToNum : List (Mac × Node)} {macToNum' : List (Mac' × Node')}
    (hnumbers : ∀ mac,
      KeyedList.get (address mac) macToNum' = (KeyedList.get mac macToNum).map name)
    (it : Time × NodeEvent Mac) (key : Node' × Node' × Word) (given : Bool) :
    wordMark macToNum' (clock it.1, it.2.renamed address) = some (key, given) ↔
      ∃ a b word, key = (name a, name b, word) ∧
        wordMark macToNum it = some ((a, b, word), given) := by
  obtain ⟨a', b', word⟩ := key
  rw [wordMark_eq_some]
  change KeyedList.get (address it.2.mac1) macToNum' = some a' ∧
    KeyedList.get (address it.2.mac2) macToNum' = some b' ∧ _ ↔ _
  rw [hnumbers, hnumbers, Option.map_eq_some_iff, Option.map_eq_some_iff]
  constructor
  · rintro ⟨⟨a, ha, rfl⟩, ⟨b, hb, rfl⟩, hword⟩
    exact ⟨a, b, word, rfl, wordMark_eq_some.mpr ⟨ha, hb, hword⟩⟩
  · rintro ⟨a, b, word', hkey, hmark⟩
    obtain ⟨rfl, rfl, rfl⟩ : a' = name a ∧ b' = name b ∧ word = word' := by simpa using hkey
    obtain ⟨ha, hb, hword⟩ := wordMark_eq_some.mp hmark
    exact ⟨⟨a, ha, rfl⟩, ⟨b, hb, rfl⟩, hword⟩

/-- The analysis under other names returns as well, with the same result under the other names. -/
theorem after_renamed {macToNum : List (Mac × Node)} {macToNum' : List (Mac' × Node')}
    (hname : Function.Injective name)
    (hnumbers : ∀ mac,
      KeyedList.get (address mac) macToNum' = (KeyedList.get mac macToNum).map name)
    {evs : List (Time × NodeEvent Mac)} (h : after macToNum evs = some s) :
    ∃ s', after macToNum' (renamedEvents clock address evs) = some s' ∧
      Renamed clock name s s' := by
  obtain ⟨hknown, hpaired⟩ := after_isSome_iff.mp ⟨s, h⟩
  have hmark : ∀ (it : Time × NodeEvent Mac) key given,
      wordMark macToNum' (clock it.1, it.2.renamed address) = some (key, given) ↔
        ∃ a b word, key = (name a, name b, word) ∧
          wordMark macToNum it = some ((a, b, word), given) :=
    fun it key given => wordMark_renamed hnumbers it key given
  obtain ⟨s', hs'⟩ : ∃ s', after macToNum' (renamedEvents clock address evs) = some s' := by
    apply after_isSome_iff.mpr
    constructor
    · intro it' hit'
      obtain ⟨it, hit, rfl⟩ := List.mem_map.mp hit'
      obtain ⟨h1, h2⟩ := hknown it hit
      constructor
      · rw [NodeEvent.renamed, hnumbers, Option.isSome_map]
        exact h1
      · rw [NodeEvent.renamed, hnumbers, Option.isSome_map]
        exact h2
    · intro key
      by_cases hkey : ∃ a b word, key = (name a, name b, word)
      · obtain ⟨a, b, word, rfl⟩ := hkey
        have hown : ∀ it ∈ evs, ∀ given,
            wordMark macToNum' (clock it.1, it.2.renamed address) =
              some ((name a, name b, word), given) ↔
            wordMark macToNum it = some ((a, b, word), given) := by
          intro it _ given
          rw [hmark]
          constructor
          · rintro ⟨a', b', word', hkey, hgiven⟩
            obtain ⟨ha, hb, rfl⟩ : name a = name a' ∧ name b = name b' ∧ word = word' := by
              simpa using hkey
            obtain rfl := hname ha
            obtain rfl := hname hb
            exact hgiven
          · intro hgiven
            exact ⟨a, b, word, rfl, hgiven⟩
        rw [Brackets.Paired, renamedEvents, Brackets.marks_map, Brackets.marks_congr hown]
        exact hpaired (a, b, word)
      · apply Brackets.paired_of_unmarked
        intro it' hit' given hgiven
        obtain ⟨it, -, rfl⟩ := List.mem_map.mp hit'
        obtain ⟨a, b, word, rfl, -⟩ := (hmark it key given).mp hgiven
        exact hkey ⟨a, b, word, rfl⟩
  have hstart : Renamed clock name (start macToNum : Experiment Time Node)
      (start macToNum' : Experiment Time' Node') := by
    refine ⟨fun a b word => ?_, rfl⟩
    rcases word with _ | ⟨_ | _⟩ <;> simp [said, start]
  exact ⟨s', hs', hstart.run hname hnumbers h hs'⟩

end Experiment

end Diplom
