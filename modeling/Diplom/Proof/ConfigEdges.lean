import Diplom.Emulator.ExperimentConfig

/-!
# The edges of a configuration

The mapping `init.edges` has two kinds of entries in the repository's own configurations: an integer
and the list of its neighbours, and a text that names both ends of an edge. The parser of the
neighbours goes past everything that is no integer, so the edges of the second kind get into the
configuration only if an entry of the first kind has them as well. What it does not go past it reads
whatever can be gone through: the keys of a mapping stand for neighbours just as the elements of a
list do.
-/

namespace Diplom

open Python

/-! ### A result or a `ValueError` -/

/-- Either the result has the property or there is none, for a `ValueError`. -/
def Expected {α : Type} (P : α → Prop) : Except ConfigError α → Prop
  | .ok result => P result
  | .error error => error.isValueError = true

section Expected

variable {α β : Type} {P : α → Prop} {Q : β → Prop}

@[simp] theorem expected_ok {result : α} : Expected P (.ok result) ↔ P result := Iff.rfl

@[simp] theorem expected_error {error : ConfigError} :
    Expected P (.error error) ↔ error.isValueError = true := Iff.rfl

@[simp] theorem expected_pure {result : α} : Expected P (pure result) ↔ P result := Iff.rfl

@[simp] theorem expected_bind {x : Except ConfigError α} {f : α → Except ConfigError β} :
    Expected Q (x >>= f) ↔ Expected (fun result => Expected Q (f result)) x := by
  cases x <;> rfl

@[simp] theorem expected_map {x : Except ConfigError α} {f : α → β} :
    Expected Q (x.map f) ↔ Expected (fun result => Q (f result)) x := by
  cases x <;> rfl

theorem expected_congr {P' : α → Prop} {x : Except ConfigError α}
    (h : ∀ result, x = .ok result → (P result ↔ P' result)) : Expected P x ↔ Expected P' x := by
  cases x with
  | ok result => exact h result rfl
  | error error => exact Iff.rfl

/-- The first element that is not accepted is refused. -/
inductive Refusal (accepted refused : α → Prop) : List α → Prop
  | here {a : α} {rest : List α} (h : refused a) : Refusal accepted refused (a :: rest)
  | later {a : α} {rest : List α} (h : accepted a) (hrest : Refusal accepted refused rest) :
      Refusal accepted refused (a :: rest)

theorem refusal_cons {accepted refused : α → Prop} {a : α} {rest : List α} :
    Refusal accepted refused (a :: rest) ↔
      refused a ∨ (accepted a ∧ Refusal accepted refused rest) := by
  constructor
  · intro h
    cases h with
    | here h => exact .inl h
    | later h hrest => exact .inr ⟨h, hrest⟩
  · rintro (h | ⟨h, hrest⟩)
    · exact .here h
    · exact .later h hrest

/-- Where everything that is not accepted is refused, there is a refusal unless all is accepted. -/
theorem refusal_not {accepted : α → Prop} {l : List α} :
    Refusal accepted (fun a => ¬ accepted a) l ↔ ∃ a ∈ l, ¬ accepted a := by
  induction l with
  | nil =>
      constructor
      · intro h
        cases h
      · simp
  | cons a rest ih =>
      rw [refusal_cons, ih]
      by_cases ha : accepted a <;> simp [ha]

theorem expected_mapM {f : α → Except ConfigError β} {accepted refused : α → Prop} {g : α → β}
    {Q : List β → Prop}
    (hf : ∀ (a : α) (P : β → Prop), Expected P (f a) ↔ refused a ∨ (accepted a ∧ P (g a)))
    (l : List α) :
    Expected Q (l.mapM f) ↔
      Refusal accepted refused l ∨ ((∀ a ∈ l, accepted a) ∧ Q (l.map g)) := by
  induction l generalizing Q with
  | nil =>
      have hnone : ¬ Refusal accepted refused ([] : List α) := by
        intro h
        cases h
      simp [hnone]
  | cons a rest ih =>
      simp only [List.mapM_cons, expected_bind, expected_pure, hf, ih, refusal_cons,
        List.forall_mem_cons, List.map_cons]
      tauto

end Expected

namespace ExperimentConfigParser

/-! ### The neighbours of a node -/

def InBounds (nodesAmount : Value) (n : Int) : Prop :=
  1 ≤ n ∧ ∃ amount, nodesAmount.asNumber = some amount ∧ amount.lt (.finite n) = false

def OutOfBounds (nodesAmount : Value) (n : Int) : Prop :=
  n < 1 ∨ ∃ amount, nodesAmount.asNumber = some amount ∧ amount.lt (.finite n) = true

def IsNode (nodesAmount i : Value) : Prop := ∃ n, i.asInt = some n ∧ InBounds nodesAmount n

/-- The edges that the neighbours under an integer key make. -/
def listed (entry : Value × Value) : List ConfigEdge :=
  match entry.1.asInt, entry.2.elements with
  | some edge, some params =>
      params.filterMap fun i => i.asInt.map fun n => (min edge n, max edge n)
  | _, _ => []

/-- An entry that the parser gets past: a key that is no integer, or a node with its neighbours. -/
def Accepted (nodesAmount : Value) (entry : Value × Value) : Prop :=
  ∀ edge, entry.1.asInt = some edge →
    InBounds nodesAmount edge ∧
      ∃ params, entry.2.elements = some params ∧ ∀ i ∈ params, IsNode nodesAmount i

/-- An entry that is refused: a key out of bounds, or among its neighbours something that is no
node. -/
def Refused (nodesAmount : Value) (entry : Value × Value) : Prop :=
  ∃ edge, entry.1.asInt = some edge ∧
    (OutOfBounds nodesAmount edge ∨
      (InBounds nodesAmount edge ∧
        ∃ params, entry.2.elements = some params ∧ ∃ i ∈ params, ¬ IsNode nodesAmount i))

theorem mem_listed {entry : Value × Value} {edge : ConfigEdge} :
    edge ∈ listed entry ↔
      ∃ u params i n, entry.1.asInt = some u ∧ entry.2.elements = some params ∧ i ∈ params ∧
        i.asInt = some n ∧ edge = (min u n, max u n) := by
  unfold listed
  split
  · rename_i u params hkey hparams
    simp only [List.mem_filterMap, Option.map_eq_some_iff, hkey, hparams, Option.some.injEq]
    constructor
    · rintro ⟨i, hi, n, hn, rfl⟩
      exact ⟨u, params, i, n, rfl, rfl, hi, hn, rfl⟩
    · rintro ⟨_, _, i, n, rfl, rfl, hi, hn, rfl⟩
      exact ⟨i, hi, n, hn, rfl⟩
  · rename_i hnone
    simp only [List.not_mem_nil, false_iff]
    rintro ⟨u, params, i, n, hkey, hparams, -⟩
    exact hnone u params hkey hparams

theorem expected_checkBounds {nodesAmount : Value} {n : Int} {error : ConfigError}
    (herror : error.isValueError = true) (P : Unit → Prop) :
    Expected P (checkBounds n n nodesAmount error) ↔
      OutOfBounds nodesAmount n ∨ (InBounds nodesAmount n ∧ P ()) := by
  unfold checkBounds OutOfBounds InBounds
  by_cases hlow : n < 1
  · simp [hlow, herror]
  · have hge : 1 ≤ n := by omega
    cases hamount : nodesAmount.asNumber with
    | none => simp [hlow, ConfigError.isValueError]
    | some amount => cases hlt : amount.lt (.finite n) <;> simp [hlow, hge, herror, hlt]

/-- Below a node within the bounds the number of nodes is a number, and every neighbour is accepted
or refused. -/
theorem expected_parseNeighbour {nodesAmount : Value} {edge : Int}
    (hedge : InBounds nodesAmount edge) (i : Value) (P : ConfigEdge → Prop) :
    Expected P (parseNeighbour edge nodesAmount i) ↔
      ¬ IsNode nodesAmount i ∨
        (IsNode nodesAmount i ∧ P (min edge (i.asInt.getD 0), max edge (i.asInt.getD 0))) := by
  obtain ⟨-, amount, hamount, -⟩ := hedge
  unfold parseNeighbour
  cases hi : i.asInt with
  | none =>
      have hnot : ¬ IsNode nodesAmount i := by
        rintro ⟨n, hn, -⟩
        simp [hi] at hn
      simp [ConfigError.isValueError, hnot]
  | some n =>
      have hnode : IsNode nodesAmount i ↔ InBounds nodesAmount n := by simp [IsNode, hi]
      have hout : OutOfBounds nodesAmount n ↔ ¬ InBounds nodesAmount n := by
        simp only [OutOfBounds, InBounds, hamount, Option.some.injEq, exists_eq_left',
          not_and_or, not_le, Bool.not_eq_false]
      simp only [expected_map]
      rw [expected_checkBounds rfl, hout, hnode]
      simp

theorem expected_parseNode (nodesAmount : Value) (entry : Value × Value)
    (P : List ConfigEdge → Prop) :
    Expected P (parseNode nodesAmount entry) ↔
      Refused nodesAmount entry ∨ (Accepted nodesAmount entry ∧ P (listed entry)) := by
  unfold parseNode Refused Accepted listed
  cases hkey : entry.1.asInt with
  | none => simp
  | some edge =>
      simp only [expected_bind, Option.some.injEq, exists_eq_left', forall_eq']
      rw [expected_checkBounds rfl]
      cases hparams : entry.2.elements with
      | none => simp [need, ConfigError.isValueError]
      | some params =>
          simp only [need, expected_ok, Option.some.injEq, exists_eq_left', or_assoc]
          apply or_congr_right
          by_cases hedge : InBounds nodesAmount edge
          · rw [expected_mapM (expected_parseNeighbour hedge) params, refusal_not]
            have hmap (h : ∀ i ∈ params, IsNode nodesAmount i) :
                params.map (fun i => (min edge (i.asInt.getD 0), max edge (i.asInt.getD 0)))
                  = params.filterMap fun i => i.asInt.map fun n => (min edge n, max edge n) := by
              rw [← List.filterMap_eq_map]
              apply List.filterMap_congr
              intro i hi
              obtain ⟨n, hn, -⟩ := h i hi
              simp [hn]
            constructor
            · rintro ⟨-, h | ⟨hnodes, h⟩⟩
              · exact .inl ⟨hedge, h⟩
              · exact .inr ⟨⟨hedge, hnodes⟩, hmap hnodes ▸ h⟩
            · rintro (⟨-, h⟩ | ⟨⟨-, hnodes⟩, h⟩)
              · exact ⟨hedge, .inl h⟩
              · exact ⟨hedge, .inr ⟨hnodes, (hmap hnodes).symm ▸ h⟩⟩
          · simp [hedge]

/-! ### The edges that the mapping denotes -/

/-- The edges of an entry: those between an integer key and the elements of its list, or the one
that the key names in the notation of the other sections. -/
inductive Denotes (entry : Value × Value) : ConfigEdge → Prop
  | neighbour {u n : Int} {params : List Value} {i : Value} (hkey : entry.1.asInt = some u)
      (hlist : entry.2 = .list params) (hi : i ∈ params) (hn : i.asInt = some n) :
      Denotes entry (min u n, max u n)
  | text {edge : ConfigEdge} (hkey : parseEdge entry.1 = .ok edge) : Denotes entry edge

/-- Each edge that a text names is listed under an integer as well, and each edge that is listed
under an integer without a list is denoted by some entry. -/
structure ListedAsDenoted (entries : List (Value × Value)) : Prop where
  texts : ∀ entry ∈ entries, ∀ edge, parseEdge entry.1 = .ok edge →
    ∃ other ∈ entries, edge ∈ listed other
  lists : ∀ entry ∈ entries, (∀ params, entry.2 ≠ .list params) → ∀ edge ∈ listed entry,
    ∃ other ∈ entries, Denotes other edge

theorem listed_eq_denoted {entries : List (Value × Value)} :
    (∀ edge, edge ∈ (entries.map listed).flatten ↔ ∃ entry ∈ entries, Denotes entry edge) ↔
      ListedAsDenoted entries := by
  simp only [← List.flatMap_def, List.mem_flatMap]
  constructor
  · intro h
    refine ⟨fun entry hentry edge hkey => ?_, fun entry hentry _ edge hlisted => ?_⟩
    · exact (h edge).mpr ⟨entry, hentry, .text hkey⟩
    · exact (h edge).mp ⟨entry, hentry, hlisted⟩
  · intro h edge
    constructor
    · rintro ⟨entry, hentry, hlisted⟩
      by_cases hlist : ∃ params, entry.2 = .list params
      · obtain ⟨params, hparams⟩ := hlist
        obtain ⟨u, elements, i, n, hkey, helements, hi, hn, rfl⟩ := mem_listed.mp hlisted
        rw [hparams, Value.elements, Option.some.injEq] at helements
        subst helements
        exact ⟨entry, hentry, .neighbour hkey hparams hi hn⟩
      · exact h.lists entry hentry (not_exists.mp hlist) edge hlisted
    · rintro ⟨entry, hentry, hdenotes⟩
      cases hdenotes with
      | neighbour hkey hlist hi hn =>
          have helements := congrArg Value.elements hlist
          exact ⟨entry, hentry, mem_listed.mpr ⟨_, _, _, _, hkey, helements, hi, hn, rfl⟩⟩
      | text hkey => exact h.texts entry hentry edge hkey

/-! ### The configuration -/

def entryOf (key : Text) (data : Value) : Option Value := (data.get key).join

theorem getD_eq_ok {key : Text} {default data value : Value} :
    getD key default data = .ok value ↔
      data.items.isSome ∧ value = (entryOf key data).getD default := by
  unfold getD entryOf Value.get
  cases data.items <;> simp [need, Except.map, eq_comm]

/-- `init.edges` of what the file is loaded as. -/
def edgesOf (loaded : Value) : Option Value :=
  (entryOf "init".toList (orEmpty loaded)).bind (entryOf "edges".toList)

/-- The edges that `init.edges` denotes. -/
def Denoted (loaded : Value) (edge : ConfigEdge) : Prop :=
  ∃ entries, edgesOf loaded = some (.dict entries) ∧ ∃ entry ∈ entries, Denotes entry edge

/-- The edges of the configuration are those that the file denotes, if there is no `ValueError`. -/
def KeepsEdges (loaded : Value) : Prop :=
  Expected (fun config => ∀ edge, edge ∈ config.init.edges ↔ Denoted loaded edge)
    (parseConfig loaded)

/-- What `parse_config` has read when it gets to the edges: the mapping `init`, the number of nodes
and the custom shapes. -/
def parseHead (loaded : Value) :
    Except ConfigError (ExperimentSetup × Value × Value × List (ConfigEdge × EdgeProperties)) := do
  let configData := orEmpty loaded
  let setup ← parseSetup (← getD "setup".toList (.dict []) configData)
  let initData ← getD "init".toList (.dict []) configData
  let nodesAmount ← getD "nodes_amount".toList defaultNodesAmount initData
  let custom ← parseEdges (← getD "custom_shapes".toList (.dict []) initData) setup nodesAmount
  return (setup, initData, nodesAmount, custom)

theorem parseConfig_eq (loaded : Value) :
    parseConfig loaded = (parseHead loaded).bind fun head => do
      let edges ← parseVisib (← getD "edges".toList (.list []) head.2.1) head.2.2.1
      let mods ← parseMods (← getD "mods".toList (.list []) (orEmpty loaded))
      return { setup := head.1, init := ⟨head.2.2.1, head.2.2.2, edges⟩, mods := mods } := by
  change parseConfig loaded = (parseHead loaded >>= _)
  simp only [parseConfig, parseHead, bind_assoc, pure_bind]

theorem bind_eq_ok {α β : Type} {x : Except ConfigError α} {f : α → Except ConfigError β}
    {result : β} : (x >>= f) = .ok result ↔ ∃ value, x = .ok value ∧ f value = .ok result := by
  cases x with
  | ok value =>
      constructor
      · intro h
        exact ⟨value, rfl, h⟩
      · rintro ⟨_, ⟨⟩, h⟩
        exact h
  | error error =>
      constructor
      · intro h
        cases h
      · rintro ⟨_, ⟨⟩, _⟩

/-- The mapping `init` that has been read is the one of the file. -/
theorem initData_of_parseHead {loaded : Value}
    {head : ExperimentSetup × Value × Value × List (ConfigEdge × EdgeProperties)}
    (h : parseHead loaded = .ok head) :
    head.2.1.items.isSome ∧ edgesOf loaded = entryOf "edges".toList head.2.1 := by
  simp only [parseHead, bind_eq_ok, getD_eq_ok] at h
  obtain ⟨_, _, setup, _, initData, ⟨_, hinit⟩, nodesAmount, ⟨hitems, _⟩, _, _, custom, _, hhead⟩ :=
    h
  obtain rfl : (setup, initData, nodesAmount, custom) = head := Except.ok.inj hhead
  refine ⟨hitems, ?_⟩
  rw [edgesOf, hinit]
  cases entryOf "init".toList (orEmpty loaded) <;> rfl

/-- When the edges of the configuration are those that the file denotes: what is read before them is
accepted, they are a mapping, and either the first entry of it that is not accepted is refused or
all are accepted, what comes after them is accepted too, and the integers list what is denoted. Or
there is a `ValueError` before them or after them. -/
def EdgesAgree (loaded : Value) : Prop :=
  Expected (fun head => ∃ entries, entryOf "edges".toList head.2.1 = some (.dict entries) ∧
      (Refusal (Accepted head.2.2.1) (Refused head.2.2.1) entries ∨
        ((∀ entry ∈ entries, Accepted head.2.2.1 entry) ∧
          Expected (fun _ => ListedAsDenoted entries)
            (getD "mods".toList (.list []) (orEmpty loaded) >>= parseMods))))
    (parseHead loaded)

/-- Exactly then the edges of the configuration are those that the file denotes, or there is a
`ValueError`. -/
theorem keepsEdges_iff (loaded : Value) : KeepsEdges loaded ↔ EdgesAgree loaded := by
  unfold KeepsEdges EdgesAgree
  rw [parseConfig_eq]
  change Expected _ (parseHead loaded >>= _) ↔ _
  rw [expected_bind]
  apply expected_congr
  intro head hhead
  obtain ⟨hitems, hedges⟩ := initData_of_parseHead hhead
  have hget : getD "edges".toList (.list []) head.2.1
      = .ok ((entryOf "edges".toList head.2.1).getD (.list [])) :=
    getD_eq_ok.mpr ⟨hitems, rfl⟩
  simp only [expected_bind, expected_pure, hget, expected_ok, parseVisib, Denoted, hedges]
  rcases hentry : entryOf "edges".toList head.2.1 with _ | edges
  · simp [Value.items, need, ConfigError.isValueError]
  · cases edges with
    | dict entries =>
        simp only [Option.getD_some, Value.items, need, expected_ok, Option.some.injEq,
          Value.dict.injEq, exists_eq_left']
        rw [expected_mapM (expected_parseNode head.2.2.1) entries]
        simp only [listed_eq_denoted]
    | _ => simp [Value.items, need, ConfigError.isValueError]

/-- Two nodes and the edge between them, written as in `two.yaml`. -/
def twoNodes : Value :=
  .dict [(.str "init".toList, .dict [(.str "nodes_amount".toList, .int 2),
    (.str "edges".toList, .dict [(.str "1 2".toList, .dict [])])])]

/-- The edge of `two.yaml` is not in the configuration. -/
theorem text_edge_dropped : ¬ KeepsEdges twoNodes := by
  have hparsed : ∃ config, parseConfig twoNodes = .ok config ∧ config.init.edges = [] :=
    ⟨_, rfl, rfl⟩
  obtain ⟨config, hconfig, hedges⟩ := hparsed
  intro h
  unfold KeepsEdges at h
  rw [hconfig, expected_ok] at h
  have hdenoted : Denoted twoNodes (1, 2) :=
    ⟨_, rfl, _, List.mem_singleton_self _, .text rfl⟩
  have hmem := (h (1, 2)).mpr hdenoted
  rw [hedges] at hmem
  exact absurd hmem List.not_mem_nil

end ExperimentConfigParser

end Diplom
