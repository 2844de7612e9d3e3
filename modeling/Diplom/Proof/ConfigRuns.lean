import Diplom.Proof.ConfigEdges
import Mathlib.Algebra.Order.Ring.Cast

/-!
# Whether a configuration can be run

A bridge can be made between two different containers, and its rules can be set if its delays are
numbers and the delay of a connection is not below the delay of the link. Edges get into the
configuration through three parsers. Two of them check the bounds, the one of the modifications does
not; none compares the two ends of an edge, and the delays are not compared before the containers
are there.
-/

namespace Diplom

open Python

/-! ### What can be run -/

/-- `1 <= u < v <= nodes_amount`. -/
def Within (nodesAmount : Value) (edge : ConfigEdge) : Prop :=
  1 ≤ edge.1 ∧ edge.1 < edge.2 ∧ nodesAmount.atLeast (.int edge.2) = true

instance (nodesAmount : Value) (edge : ConfigEdge) : Decidable (Within nodesAmount edge) :=
  inferInstanceAs (Decidable (_ ∧ _ ∧ _))

/-- A configuration whose edges all join two of its nodes and whose bridges are neither skipped by
`add_bridge` nor rejected by `set_rules`. -/
structure Runnable (config : ExperimentConfig) : Prop where
  edges : ∀ edge ∈ config.init.edges, Within config.init.nodesAmount edge
  custom : ∀ entry ∈ config.init.custom, Within config.init.nodesAmount entry.1
  mods : ∀ mod ∈ config.mods, ∀ edge ∈ mod.add ++ mod.erase, Within config.init.nodesAmount edge
  bridges : ∀ bridge ∈ config.bridges, bridge.2.connLat.mean.atLeast bridge.2.lat.mean = true
  connected : ∀ bridge ∈ config.bridges,
    ExperimentConfig.connects config.init.nodesAmount bridge.1 = true
  shaped : ∀ bridge ∈ config.bridges, bridge.2.shapes = some true

/-- Delays of which `set_rules` makes those of an interface. -/
structure Shapeable (connLat lat : NetworkValue) : Prop where
  mean_le : connLat.mean.atLeast lat.mean = true
  means : (connLat.mean.operands lat.mean).isSome = true
  jitters : (connLat.jitter.operands lat.jitter).isSome = true

theorem shapeable_iff {props : EdgeProperties} :
    Shapeable props.connLat props.lat ↔
      props.connLat.mean.atLeast props.lat.mean = true ∧ props.shapes = some true := by
  unfold EdgeProperties.shapes
  constructor
  · rintro ⟨hle, hmeans, hjitters⟩
    obtain ⟨⟨conn, trans⟩, hmeans⟩ := Option.isSome_iff_exists.mp hmeans
    obtain ⟨jitters, hjitters⟩ := Option.isSome_iff_exists.mp hjitters
    refine ⟨hle, ?_⟩
    rw [hmeans, hjitters]
    simp [Value.operands_not_lt hle hmeans]
  · rintro ⟨hle, hshapes⟩
    split at hshapes
    · rename_i hmeans hjitters
      exact ⟨hle, by rw [hmeans]; rfl, by rw [hjitters]; rfl⟩
    · simp at hshapes

namespace ExperimentConfig

variable {config : ExperimentConfig}

/-- The edges with a bridge of the default properties, unless they are custom. -/
def plain (config : ExperimentConfig) : List ConfigEdge :=
  config.init.edges ++ config.mods.flatMap (·.add)

theorem bridges_eq (config : ExperimentConfig) :
    config.bridges = KeyedList.setAll config.init.custom
      (KeyedList.setAll (config.plain.map fun edge => (edge, config.defProps)) []) := by
  simp only [bridges, plain, KeyedList.setAll, List.map_append, List.foldl_append, List.foldl_map,
    List.foldl_flatMap]

theorem nodup_bridges (config : ExperimentConfig) : (config.bridges.map Prod.fst).Nodup := by
  rw [bridges_eq]
  apply KeyedList.nodup_setAll
  apply KeyedList.nodup_setAll
  exact List.nodup_nil

/-- There is a bridge for each custom shape and for each edge that is there or gets added. -/
theorem mem_bridges_iff {edge : ConfigEdge} :
    edge ∈ config.bridges.map Prod.fst ↔
      edge ∈ config.init.custom.map Prod.fst ∨ edge ∈ config.plain := by
  rw [bridges_eq, KeyedList.mem_map_fst_setAll, KeyedList.mem_map_fst_setAll]
  simp [Function.comp_def]

private theorem get_plain (config : ExperimentConfig) (edge : ConfigEdge) :
    KeyedList.get edge (config.plain.map fun edge => (edge, config.defProps)).reverse
      = if edge ∈ config.plain then some config.defProps else none := by
  split
  · rename_i hmem
    cases hget : KeyedList.get edge
        (config.plain.map fun edge => (edge, config.defProps)).reverse with
    | none =>
        rw [KeyedList.get_eq_none] at hget
        simp [Function.comp_def, hmem] at hget
    | some props =>
        have hprops := KeyedList.mem_of_get hget
        simp only [List.mem_reverse, List.mem_map, Prod.mk.injEq] at hprops
        obtain ⟨_, _, _, rfl⟩ := hprops
        rfl
  · rename_i hmem
    rw [KeyedList.get_eq_none]
    simp [Function.comp_def, hmem]

/-- What holds of every bridge: it holds of the custom shapes, and of the default properties unless
every edge has a shape of its own. -/
theorem forall_bridges (hcustom : (config.init.custom.map Prod.fst).Nodup)
    {P : EdgeProperties → Prop} :
    (∀ bridge ∈ config.bridges, P bridge.2) ↔
      (∀ edge props, KeyedList.get edge config.init.custom = some props → P props) ∧
        ((∃ edge ∈ config.plain, KeyedList.get edge config.init.custom = none) →
          P config.defProps) := by
  have hget (edge : ConfigEdge) :
      KeyedList.get edge config.bridges = (KeyedList.get edge config.init.custom).or
        (if edge ∈ config.plain then some config.defProps else none) := by
    rw [bridges_eq, KeyedList.get_setAll, KeyedList.get_setAll, get_plain,
      KeyedList.get_reverse edge hcustom]
    simp [KeyedList.get]
  have hbridge : (∀ bridge ∈ config.bridges, P bridge.2) ↔
      ∀ edge props, KeyedList.get edge config.bridges = some props → P props := by
    constructor
    · intro h edge props hprops
      exact h _ (KeyedList.mem_of_get hprops)
    · intro h bridge hmem
      exact h _ _ (KeyedList.get_of_mem config.nodup_bridges hmem)
  rw [hbridge]
  constructor
  · intro h
    refine ⟨fun edge props hprops => ?_, ?_⟩
    · apply h edge props
      rw [hget, hprops, Option.some_or]
    · rintro ⟨edge, hmem, hnone⟩
      apply h edge
      rw [hget, hnone, Option.none_or, if_pos hmem]
  · rintro ⟨hshapes, hplain⟩ edge props hprops
    rw [hget, Option.or_eq_some_iff] at hprops
    rcases hprops with hprops | ⟨hnone, hprops⟩
    · exact hshapes edge props hprops
    · split at hprops
      · rename_i hmem
        obtain rfl := Option.some.inj hprops
        exact hplain ⟨edge, hmem, hnone⟩
      · simp at hprops

end ExperimentConfig

theorem connects_of_within {nodesAmount : Value} {n : Int} (hnodes : nodesAmount.asInt = some n)
    {edge : ConfigEdge} (h : Within nodesAmount edge) :
    ExperimentConfig.connects nodesAmount edge = true := by
  obtain ⟨hlow, hlt, hhigh⟩ := h
  have hle : edge.2 ≤ n := by
    have hcast : (edge.2 : ℚ) ≤ n := by
      simpa [Value.atLeast, Value.asNumber_of_asInt hnodes, Number.le] using hhigh
    exact Int.cast_le.mp hcast
  simp only [ExperimentConfig.connects, ExperimentConfig.containers, hnodes, Bool.and_eq_true,
    decide_eq_true_eq]
  omega

theorem asInt_of_connects {nodesAmount : Value} {edge : ConfigEdge}
    (h : ExperimentConfig.connects nodesAmount edge = true) : ∃ n, nodesAmount.asInt = some n := by
  cases hnodes : nodesAmount.asInt with
  | some n => exact ⟨n, rfl⟩
  | none => simp [ExperimentConfig.connects, ExperimentConfig.containers, hnodes] at h

namespace ExperimentConfigParser

/-! ### What the file says -/

/-- What a mapping has under a key, or the default. -/
def entryOr (key : Text) (default data : Value) : Value := (entryOf key data).getD default

def itemsOf (data : Value) : List (Value × Value) := data.items.getD []

def elementsOf (data : Value) : List Value := data.elements.getD []

/-- `setup`. -/
def setupOf (loaded : Value) : Value := entryOr "setup".toList (.dict []) (orEmpty loaded)

/-- `init`. -/
def initOf (loaded : Value) : Value := entryOr "init".toList (.dict []) (orEmpty loaded)

/-- `init.nodes_amount`. -/
def nodesOf (loaded : Value) : Value :=
  entryOr "nodes_amount".toList defaultNodesAmount (initOf loaded)

/-- The entries of `init.custom_shapes`. -/
def shapesOf (loaded : Value) : List (Value × Value) :=
  itemsOf (entryOr "custom_shapes".toList (.dict []) (initOf loaded))

/-- The edges that integers list in `init.edges`. -/
def listedOf (loaded : Value) : List ConfigEdge :=
  (itemsOf (entryOr "edges".toList (.list []) (initOf loaded))).flatMap listed

def modsOf (loaded : Value) : List Value :=
  elementsOf (entryOr "mods".toList (.list []) (orEmpty loaded))

/-- Whether a modification names an edge under a key. -/
def Names (key : Text) (mod : Value) (edge : ConfigEdge) : Prop :=
  ∃ text ∈ elementsOf (entryOr key (.list []) mod), parseEdge text = .ok edge

/-- What a network value gives, where it gives one. -/
def networkOf (default : NetworkValue) : Value → NetworkValue
  | .null => default
  | .list [mean] => { mean := mean }
  | .list (mean :: jitter :: _) => { mean := mean, jitter := jitter }
  | value => { mean := value }

/-- The delay of a connection that the setup gives. -/
def setupConnLatency (loaded : Value) : NetworkValue :=
  networkOf defaultConnLatency (entryOr "conn_latency".toList .null (setupOf loaded))

def setupLatency (loaded : Value) : NetworkValue :=
  networkOf defaultLatency (entryOr "latency".toList .null (setupOf loaded))

/-- The delays of a custom shape, those of the setup where it gives none. -/
def shapeConnLatency (loaded : Value) (params : Value) : NetworkValue :=
  networkOf (setupConnLatency loaded) (entryOr "conn_lat".toList .null params)

@[inherit_doc shapeConnLatency]
def shapeLatency (loaded : Value) (params : Value) : NetworkValue :=
  networkOf (setupLatency loaded) (entryOr "lat".toList .null params)

/-- The file names an edge for which there is to be a bridge. -/
def Bridged (loaded : Value) (edge : ConfigEdge) : Prop :=
  edge ∈ listedOf loaded ∨ (∃ mod ∈ modsOf loaded, Names "add".toList mod edge) ∨
    ∃ entry ∈ shapesOf loaded, parseEdge entry.1 = .ok edge

/-- A file whose configuration can be run, if it has one. Of two entries for the same custom edge
the last one counts. -/
structure Sound (loaded : Value) : Prop where
  nodes : ∀ edge, Bridged loaded edge → ∃ n, (nodesOf loaded).asInt = some n
  edges : ∀ edge ∈ listedOf loaded, edge.1 ≠ edge.2
  custom : ∀ entry ∈ shapesOf loaded, ∀ edge, parseEdge entry.1 = .ok edge → edge.1 ≠ edge.2
  mods : ∀ mod ∈ modsOf loaded, ∀ edge,
    Names "add".toList mod edge ∨ Names "erase".toList mod edge →
    Within (nodesOf loaded) edge
  setup : (∃ edge, (edge ∈ listedOf loaded ∨ ∃ mod ∈ modsOf loaded, Names "add".toList mod edge) ∧
      ∀ entry ∈ shapesOf loaded, parseEdge entry.1 ≠ .ok edge) →
    Shapeable (setupConnLatency loaded) (setupLatency loaded)
  shapes : ∀ before entry after, shapesOf loaded = before ++ entry :: after →
    (∀ later ∈ after, parseEdge later.1 ≠ parseEdge entry.1) →
    Shapeable (shapeConnLatency loaded entry.2) (shapeLatency loaded entry.2)

/-! ### What the parsers return -/

theorem mapM_eq_ok {α β : Type} {f : α → Except ConfigError β} {l : List α} {r : List β} :
    l.mapM f = .ok r ↔ l.map f = r.map .ok := by
  induction l generalizing r with
  | nil => cases r <;> simp [pure, Except.pure]
  | cons a rest ih =>
      simp only [List.mapM_cons, bind_eq_ok, ih, List.map_cons]
      constructor
      · rintro ⟨b, hb, bs, hbs, ⟨⟩⟩
        rw [hb, hbs, List.map_cons]
      · intro h
        cases r with
        | nil => simp at h
        | cons b bs =>
            rw [List.map_cons, List.cons.injEq] at h
            exact ⟨b, h.1, bs, h.2, rfl⟩

theorem mem_iff_of_map_eq {α β : Type} {f : α → Except ConfigError β} {l : List α} {r : List β}
    (h : l.map f = r.map .ok) {b : β} : b ∈ r ↔ ∃ a ∈ l, f a = .ok b := by
  have hmem : Except.ok b ∈ l.map f ↔ b ∈ r := by simp [h]
  rw [← hmem, List.mem_map]

theorem need_eq_ok {α : Type} {error : ConfigError} {value : Option α} {result : α} :
    need error value = .ok result ↔ value = some result := by
  cases value <;> simp [need]

theorem parseEdge_le {text : Value} {edge : ConfigEdge} (h : parseEdge text = .ok edge) :
    edge.1 ≤ edge.2 := by
  unfold parseEdge at h
  split at h
  · split at h
    · obtain rfl := Except.ok.inj h
      exact min_le_max
    · simp at h
  · simp at h

theorem parseNetworkValue_eq {value : Value} {default result : NetworkValue}
    (h : parseNetworkValue value default = .ok result) : result = networkOf default value := by
  unfold parseNetworkValue at h
  split at h
  · exact (Except.ok.inj h).symm
  · exact (Except.ok.inj h).symm
  · exact (Except.ok.inj h).symm
  · split at h
    · obtain rfl := Except.ok.inj h
      cases value <;> simp_all [networkOf, Value.asInt]
    · simp at h

/-- An edge whose ends the bounds let through. -/
def Bounded (nodesAmount : Value) (edge : ConfigEdge) : Prop :=
  1 ≤ edge.1 ∧ edge.1 ≤ edge.2 ∧
    ∃ amount, nodesAmount.asNumber = some amount ∧ amount.lt (.finite edge.2) = false

/-- Of an integer of nodes the bounds leave only loops. -/
theorem Bounded.within_iff {nodesAmount : Value} {edge : ConfigEdge}
    (h : Bounded nodesAmount edge) {n : Int} (hnodes : nodesAmount.asInt = some n) :
    Within nodesAmount edge ↔ edge.1 ≠ edge.2 := by
  obtain ⟨hlow, hle, amount, hamount, hlt⟩ := h
  have hatLeast : nodesAmount.atLeast (.int edge.2) = true := by
    rw [Value.asNumber_of_asInt hnodes] at hamount
    obtain rfl := Option.some.inj hamount
    simp only [Value.atLeast, Value.asNumber_of_asInt hnodes, Value.asNumber_int]
    rw [Number.le_iff, hlt]
    simp [Number.isNan]
  unfold Within
  constructor
  · rintro ⟨-, hne, -⟩
    exact hne.ne
  · intro hne
    exact ⟨hlow, by omega, hatLeast⟩

theorem bounds_of_checkBounds {low high : Int} {nodesAmount : Value} {error : ConfigError}
    {result : Unit} (h : checkBounds low high nodesAmount error = .ok result) :
    1 ≤ low ∧ ∃ amount, nodesAmount.asNumber = some amount ∧ amount.lt (.finite high) = false := by
  unfold checkBounds at h
  split at h
  · simp at h
  · split at h
    · simp at h
    · rename_i hlow amount hamount
      split at h
      · simp at h
      · rename_i hlt
        exact ⟨by omega, amount, hamount, by simpa using hlt⟩

theorem of_parseShape {setup : ExperimentSetup} {nodesAmount : Value} {entry : Value × Value}
    {shape : ConfigEdge × EdgeProperties}
    (h : parseShape setup nodesAmount entry = .ok shape) :
    parseEdge entry.1 = .ok shape.1 ∧ Bounded nodesAmount shape.1 ∧
      shape.2.connLat = networkOf setup.connLatency (entryOr "conn_lat".toList .null entry.2) ∧
      shape.2.lat = networkOf setup.latency (entryOr "lat".toList .null entry.2) := by
  simp only [parseShape, bind_eq_ok, getD_eq_ok] at h
  obtain ⟨edge, hedge, _, hbounds, _, ⟨-, rfl⟩, connLat, hconn, h⟩ := h
  obtain ⟨_, ⟨-, rfl⟩, lat, hlat, bw, -, hshape⟩ := h
  obtain rfl : (edge, ⟨connLat, lat, bw⟩) = shape := Except.ok.inj hshape
  have hle := parseEdge_le hedge
  have hchecked := bounds_of_checkBounds hbounds
  rw [min_eq_left hle, max_eq_right hle] at hchecked
  exact ⟨hedge, ⟨hchecked.1, hle, hchecked.2⟩, parseNetworkValue_eq hconn,
    parseNetworkValue_eq hlat⟩

theorem of_parseEdges {edgesData : Value} {setup : ExperimentSetup} {nodesAmount : Value}
    {custom : List (ConfigEdge × EdgeProperties)}
    (h : parseEdges edgesData setup nodesAmount = .ok custom) :
    ∃ shapes, (itemsOf edgesData).map (parseShape setup nodesAmount) = shapes.map .ok ∧
      custom = KeyedList.setAll shapes [] := by
  unfold parseEdges at h
  split at h
  · simp only [bind_eq_ok, need_eq_ok, mapM_eq_ok] at h
    obtain ⟨entries, hentries, shapes, hshapes, hcustom⟩ := h
    refine ⟨shapes, ?_, (Except.ok.inj hcustom).symm⟩
    rwa [itemsOf, hentries]
  · rename_i htruth
    have hnone : itemsOf edgesData = [] := by
      cases edgesData with
      | dict entries => simpa [itemsOf, Value.items, Value.truth] using htruth
      | _ => rfl
    exact ⟨[], by rw [hnone]; rfl, (Except.ok.inj h).symm⟩

theorem of_parseNode {nodesAmount : Value} {entry : Value × Value} {edges : List ConfigEdge}
    (h : parseNode nodesAmount entry = .ok edges) :
    Accepted nodesAmount entry ∧ edges = listed entry := by
  have hiff := expected_parseNode nodesAmount entry
  simp only [h, expected_ok] at hiff
  have hnot : ¬ Refused nodesAmount entry := by
    intro hrefused
    exact (hiff fun _ => False).mpr (.inl hrefused)
  exact ((hiff (edges = ·)).mp rfl).resolve_left hnot

theorem Accepted.bounded {nodesAmount : Value} {entry : Value × Value}
    (h : Accepted nodesAmount entry) {edge : ConfigEdge} (hedge : edge ∈ listed entry) :
    Bounded nodesAmount edge := by
  obtain ⟨u, params, i, n, hkey, hparams, hi, hn, rfl⟩ := mem_listed.mp hedge
  obtain ⟨⟨hlow, amount, hamount, hlt⟩, params', hparams', hnodes⟩ := h u hkey
  obtain rfl : params = params' := Option.some.inj (hparams.symm.trans hparams')
  obtain ⟨n', hn', hlow', amount', hamount', hlt'⟩ := hnodes i hi
  obtain rfl : n = n' := Option.some.inj (hn.symm.trans hn')
  obtain rfl : amount = amount' := Option.some.inj (hamount.symm.trans hamount')
  refine ⟨by simp only; omega, by simp only; omega, amount, hamount, ?_⟩
  rcases max_choice u n with hmax | hmax
  · rw [hmax]
    exact hlt
  · rw [hmax]
    exact hlt'

theorem of_parseVisib {edgesData nodesAmount : Value} {edges : List ConfigEdge}
    (h : parseVisib edgesData nodesAmount = .ok edges) :
    edges = (itemsOf edgesData).flatMap listed ∧ ∀ edge ∈ edges, Bounded nodesAmount edge := by
  simp only [parseVisib, bind_eq_ok, need_eq_ok, mapM_eq_ok] at h
  obtain ⟨entries, hentries, nodes, hnodes, hedges⟩ := h
  have hparsed : ∀ entry ∈ entries, ∃ edges, parseNode nodesAmount entry = .ok edges := by
    intro entry hentry
    have hmem := List.mem_map_of_mem (f := parseNode nodesAmount) hentry
    rw [hnodes] at hmem
    obtain ⟨edges, -, hok⟩ := List.mem_map.mp hmem
    exact ⟨edges, hok.symm⟩
  have hlisted : nodes = entries.map listed := by
    apply List.map_injective_iff.mpr (fun _ _ => Except.ok.inj)
    rw [← hnodes, List.map_map]
    apply List.map_congr_left
    intro entry hentry
    obtain ⟨edges, hok⟩ := hparsed entry hentry
    rw [hok, (of_parseNode hok).2]
    rfl
  obtain rfl := Except.ok.inj hedges
  refine ⟨by rw [hlisted, itemsOf, hentries]; rfl, ?_⟩
  intro edge hedge
  rw [hlisted, ← List.flatMap_def, List.mem_flatMap] at hedge
  obtain ⟨entry, hentry, hmem⟩ := hedge
  obtain ⟨edges, hok⟩ := hparsed entry hentry
  exact (of_parseNode hok).1.bounded hmem

theorem names_of_parseEdgeList {key : Text} {mod : Value} {edges : List ConfigEdge}
    (h : parseEdgeList key mod = .ok edges) {edge : ConfigEdge} :
    edge ∈ edges ↔ Names key mod edge := by
  simp only [parseEdgeList, bind_eq_ok, getD_eq_ok, need_eq_ok, mapM_eq_ok] at h
  obtain ⟨_, ⟨-, rfl⟩, texts, htexts, hedges⟩ := h
  rw [mem_iff_of_map_eq hedges, Names, elementsOf, entryOr, htexts, Option.getD_some]

theorem of_parseMod {mod : Value} {result : ExperimentMods} (h : parseMod mod = .ok result)
    (edge : ConfigEdge) :
    (edge ∈ result.add ↔ Names "add".toList mod edge) ∧
      (edge ∈ result.erase ↔ Names "erase".toList mod edge) := by
  simp only [parseMod, bind_eq_ok] at h
  obtain ⟨_, _, time, _, add, hadd, erase, herase, hresult⟩ := h
  obtain rfl := Except.ok.inj hresult
  exact ⟨names_of_parseEdgeList hadd, names_of_parseEdgeList herase⟩

/-- What is in a configuration, in terms of the file. -/
structure Parsed (loaded : Value) (config : ExperimentConfig) : Prop where
  nodes : config.init.nodesAmount = nodesOf loaded
  connLatency : config.setup.connLatency = setupConnLatency loaded
  latency : config.setup.latency = setupLatency loaded
  custom : ∃ shapes, (shapesOf loaded).map (parseShape config.setup (nodesOf loaded))
      = shapes.map .ok ∧ config.init.custom = KeyedList.setAll shapes []
  edges : config.init.edges = listedOf loaded
  bounds : ∀ edge ∈ listedOf loaded, Bounded (nodesOf loaded) edge
  mods : (modsOf loaded).map parseMod = config.mods.map .ok

theorem of_parseSetup {setupData : Value} {setup : ExperimentSetup}
    (h : parseSetup setupData = .ok setup) :
    setup.connLatency
        = networkOf defaultConnLatency (entryOr "conn_latency".toList .null setupData) ∧
      setup.latency = networkOf defaultLatency (entryOr "latency".toList .null setupData) := by
  simp only [parseSetup, bind_eq_ok, getD_eq_ok] at h
  obtain ⟨_, _, _, ⟨-, rfl⟩, connLatency, hconn, _, ⟨-, rfl⟩, latency, hlatency, _, _, hsetup⟩ := h
  obtain rfl := Except.ok.inj hsetup
  exact ⟨parseNetworkValue_eq hconn, parseNetworkValue_eq hlatency⟩

theorem of_parseConfig {loaded : Value} {config : ExperimentConfig}
    (h : parseConfig loaded = .ok config) : Parsed loaded config := by
  simp only [parseConfig, bind_eq_ok, getD_eq_ok] at h
  obtain ⟨_, ⟨-, rfl⟩, setup, hsetup, _, ⟨-, rfl⟩, _, ⟨-, rfl⟩, _, ⟨-, rfl⟩, custom, hcustom,
    _, ⟨-, rfl⟩, edges, hedges, _, ⟨-, rfl⟩, mods, hmods, hconfig⟩ := h
  obtain rfl := Except.ok.inj hconfig
  have hvisib := of_parseVisib hedges
  simp only [parseMods, bind_eq_ok, need_eq_ok, mapM_eq_ok] at hmods
  obtain ⟨elements, helements, hmods⟩ := hmods
  constructor
  · rfl
  · exact (of_parseSetup hsetup).1
  · exact (of_parseSetup hsetup).2
  · exact of_parseEdges hcustom
  · exact hvisib.1
  · intro edge hedge
    exact hvisib.2 edge (hvisib.1 ▸ hedge)
  · rwa [modsOf, elementsOf, entryOr, helements]

namespace Parsed

variable {loaded : Value} {config : ExperimentConfig} (h : Parsed loaded config)

include h

theorem edges_iff (hnodes : ∀ edge, Bridged loaded edge → ∃ n, (nodesOf loaded).asInt = some n) :
    (∀ edge ∈ config.init.edges, Within config.init.nodesAmount edge) ↔
      ∀ edge ∈ listedOf loaded, edge.1 ≠ edge.2 := by
  rw [h.edges, h.nodes]
  apply forall₂_congr
  intro edge hedge
  obtain ⟨n, hn⟩ := hnodes edge (.inl hedge)
  exact (h.bounds edge hedge).within_iff hn

theorem custom_iff (hnodes : ∀ edge, Bridged loaded edge → ∃ n, (nodesOf loaded).asInt = some n) :
    (∀ entry ∈ config.init.custom, Within config.init.nodesAmount entry.1) ↔
      ∀ entry ∈ shapesOf loaded, ∀ edge, parseEdge entry.1 = .ok edge → edge.1 ≠ edge.2 := by
  obtain ⟨shapes, hshapes, hcustom⟩ := h.custom
  have hkeys (edge : ConfigEdge) :
      edge ∈ config.init.custom.map Prod.fst ↔ edge ∈ shapes.map Prod.fst := by
    rw [hcustom, KeyedList.mem_map_fst_setAll]
    simp
  have hall : (∀ entry ∈ config.init.custom, Within config.init.nodesAmount entry.1) ↔
      ∀ shape ∈ shapes, Within (nodesOf loaded) shape.1 := by
    rw [h.nodes, ← List.forall_mem_map (f := Prod.fst) (P := Within (nodesOf loaded)),
      ← List.forall_mem_map (f := Prod.fst) (P := Within (nodesOf loaded))]
    simp only [hkeys]
  rw [hall]
  constructor
  · intro hwithin entry hentry edge hedge
    have hmem := List.mem_map_of_mem (f := parseShape config.setup (nodesOf loaded)) hentry
    rw [hshapes] at hmem
    obtain ⟨shape, hshape, hok⟩ := List.mem_map.mp hmem
    have hparsed := of_parseShape hok.symm
    obtain rfl : edge = shape.1 := Except.ok.inj (hedge.symm.trans hparsed.1)
    obtain ⟨n, hn⟩ := hnodes shape.1 (.inr (.inr ⟨entry, hentry, hedge⟩))
    exact (hparsed.2.1.within_iff hn).mp (hwithin shape hshape)
  · intro hne shape hshape
    obtain ⟨entry, hentry, hok⟩ := (mem_iff_of_map_eq hshapes).mp hshape
    have hparsed := of_parseShape hok
    obtain ⟨n, hn⟩ := hnodes shape.1 (.inr (.inr ⟨entry, hentry, hparsed.1⟩))
    exact (hparsed.2.1.within_iff hn).mpr (hne entry hentry shape.1 hparsed.1)

theorem mods_iff :
    (∀ mod ∈ config.mods, ∀ edge ∈ mod.add ++ mod.erase, Within config.init.nodesAmount edge) ↔
      ∀ mod ∈ modsOf loaded, ∀ edge, Names "add".toList mod edge ∨ Names "erase".toList mod edge →
        Within (nodesOf loaded) edge := by
  rw [h.nodes]
  constructor
  · intro hwithin mod hmod edge hedge
    have hmem := List.mem_map_of_mem (f := parseMod) hmod
    rw [h.mods] at hmem
    obtain ⟨result, hresult, hok⟩ := List.mem_map.mp hmem
    have hnames := of_parseMod hok.symm edge
    apply hwithin result hresult edge
    rw [List.mem_append, hnames.1, hnames.2]
    exact hedge
  · intro hwithin result hresult edge hedge
    obtain ⟨mod, hmod, hok⟩ := (mem_iff_of_map_eq h.mods).mp hresult
    have hnames := of_parseMod hok edge
    apply hwithin mod hmod edge
    rwa [List.mem_append, hnames.1, hnames.2] at hedge

theorem mem_plain_iff {edge : ConfigEdge} :
    edge ∈ config.plain ↔
      edge ∈ listedOf loaded ∨ ∃ mod ∈ modsOf loaded, Names "add".toList mod edge := by
  rw [ExperimentConfig.plain, List.mem_append, h.edges, List.mem_flatMap]
  apply or_congr_right
  constructor
  · rintro ⟨result, hresult, hadd⟩
    obtain ⟨mod, hmod, hok⟩ := (mem_iff_of_map_eq h.mods).mp hresult
    exact ⟨mod, hmod, (of_parseMod hok edge).1.mp hadd⟩
  · rintro ⟨mod, hmod, hnames⟩
    have hmem := List.mem_map_of_mem (f := parseMod) hmod
    rw [h.mods] at hmem
    obtain ⟨result, hresult, hok⟩ := List.mem_map.mp hmem
    exact ⟨result, hresult, (of_parseMod hok.symm edge).1.mpr hnames⟩

/-- An edge has no shape of its own if no entry names it. -/
theorem get_custom_eq_none {edge : ConfigEdge} :
    KeyedList.get edge config.init.custom = none ↔
      ∀ entry ∈ shapesOf loaded, parseEdge entry.1 ≠ .ok edge := by
  obtain ⟨shapes, hshapes, hcustom⟩ := h.custom
  rw [hcustom, KeyedList.get_eq_none, KeyedList.mem_map_fst_setAll]
  simp only [List.map_nil, List.not_mem_nil, or_false, List.mem_map, not_exists, not_and]
  constructor
  · intro hnone entry hentry hedge
    have hmem := List.mem_map_of_mem (f := parseShape config.setup (nodesOf loaded)) hentry
    rw [hshapes] at hmem
    obtain ⟨shape, hshape, hok⟩ := List.mem_map.mp hmem
    apply hnone shape hshape
    exact Except.ok.inj ((of_parseShape hok.symm).1.symm.trans hedge)
  · rintro hnone shape hshape rfl
    obtain ⟨entry, hentry, hok⟩ := (mem_iff_of_map_eq hshapes).mp hshape
    exact hnone entry hentry (of_parseShape hok).1

theorem mem_bridges_iff {edge : ConfigEdge} :
    edge ∈ config.bridges.map Prod.fst ↔ Bridged loaded edge := by
  have hcustom : edge ∈ config.init.custom.map Prod.fst ↔
      ∃ entry ∈ shapesOf loaded, parseEdge entry.1 = .ok edge := by
    rw [← not_iff_not, ← KeyedList.get_eq_none, h.get_custom_eq_none]
    simp
  rw [ExperimentConfig.mem_bridges_iff, hcustom, h.mem_plain_iff, or_comm, or_assoc]
  rfl

theorem get_custom_eq_some {edge : ConfigEdge} {props : EdgeProperties} :
    KeyedList.get edge config.init.custom = some props ↔
      ∃ before entry after, shapesOf loaded = before ++ entry :: after ∧
        parseShape config.setup (nodesOf loaded) entry = .ok (edge, props) ∧
          ∀ later ∈ after, parseEdge later.1 ≠ parseEdge entry.1 := by
  obtain ⟨shapes, hshapes, hcustom⟩ := h.custom
  rw [hcustom, KeyedList.get_setAll, KeyedList.get_nil, Option.or_none,
    KeyedList.get_reverse_eq_some]
  -- the entries after this one name other edges than it does
  have hlater {after : List (Value × Value)} {shapesAfter : List (ConfigEdge × EdgeProperties)}
      (hafter : after.map (parseShape config.setup (nodesOf loaded)) = shapesAfter.map .ok) :
      edge ∉ shapesAfter.map Prod.fst ↔ ∀ later ∈ after, parseEdge later.1 ≠ .ok edge := by
    constructor
    · intro hnot later hmem hedge
      have hok := List.mem_map_of_mem (f := parseShape config.setup (nodesOf loaded)) hmem
      rw [hafter] at hok
      obtain ⟨shape, hshape, hok⟩ := List.mem_map.mp hok
      apply hnot
      obtain rfl : shape.1 = edge :=
        Except.ok.inj ((of_parseShape hok.symm).1.symm.trans hedge)
      exact List.mem_map_of_mem hshape
    · intro hall hmem
      obtain ⟨shape, hshape, rfl⟩ := List.mem_map.mp hmem
      obtain ⟨later, hlater, hok⟩ := (mem_iff_of_map_eq hafter).mp hshape
      exact hall later hlater (of_parseShape hok).1
  constructor
  · rintro ⟨before, after, rfl, hnot⟩
    rw [List.map_append, List.map_cons, List.map_eq_append_iff] at hshapes
    obtain ⟨entriesBefore, rest, hentries, -, hrest⟩ := hshapes
    rw [List.map_eq_cons_iff] at hrest
    obtain ⟨entry, entriesAfter, rfl, hentry, hafter⟩ := hrest
    refine ⟨entriesBefore, entry, entriesAfter, hentries, hentry, ?_⟩
    rw [(of_parseShape hentry).1]
    exact (hlater hafter).mp hnot
  · rintro ⟨before, entry, after, hentries, hentry, hnot⟩
    rw [hentries, List.map_append, List.map_cons, hentry, eq_comm, List.map_eq_append_iff]
      at hshapes
    obtain ⟨shapesBefore, rest, rfl, -, hrest⟩ := hshapes
    rw [List.map_eq_cons_iff] at hrest
    obtain ⟨shape, shapesAfter, rfl, hshape, hafter⟩ := hrest
    obtain rfl := Except.ok.inj hshape
    refine ⟨shapesBefore, shapesAfter, rfl, (hlater hafter.symm).mpr ?_⟩
    rwa [(of_parseShape hentry).1] at hnot

theorem bridges_iff :
    (∀ bridge ∈ config.bridges, Shapeable bridge.2.connLat bridge.2.lat) ↔
      (∀ before entry after, shapesOf loaded = before ++ entry :: after →
        (∀ later ∈ after, parseEdge later.1 ≠ parseEdge entry.1) →
        Shapeable (shapeConnLatency loaded entry.2) (shapeLatency loaded entry.2)) ∧
      ((∃ edge, (edge ∈ listedOf loaded ∨ ∃ mod ∈ modsOf loaded, Names "add".toList mod edge) ∧
          ∀ entry ∈ shapesOf loaded, parseEdge entry.1 ≠ .ok edge) →
        Shapeable (setupConnLatency loaded) (setupLatency loaded)) := by
  obtain ⟨shapes, hshapes, hcustom⟩ := h.custom
  have hkeys : (config.init.custom.map Prod.fst).Nodup := by
    rw [hcustom]
    exact KeyedList.nodup_setAll shapes List.nodup_nil
  have hdelays {entry : Value × Value} {shape : ConfigEdge × EdgeProperties}
      (hok : parseShape config.setup (nodesOf loaded) entry = .ok shape) :
      shape.2.connLat = shapeConnLatency loaded entry.2 ∧
        shape.2.lat = shapeLatency loaded entry.2 := by
    have hparsed := (of_parseShape hok).2.2
    rwa [h.connLatency, h.latency] at hparsed
  rw [ExperimentConfig.forall_bridges hkeys
    (P := fun props => Shapeable props.connLat props.lat)]
  apply and_congr
  · constructor
    · intro hall before entry after hentries hlast
      have hmem := List.mem_map_of_mem (f := parseShape config.setup (nodesOf loaded))
        (hentries ▸ List.mem_append_right before List.mem_cons_self : entry ∈ shapesOf loaded)
      rw [hshapes] at hmem
      obtain ⟨shape, -, hok⟩ := List.mem_map.mp hmem
      have hget := h.get_custom_eq_some.mpr ⟨before, entry, after, hentries, hok.symm, hlast⟩
      have hle := hall shape.1 shape.2 hget
      rwa [(hdelays hok.symm).1, (hdelays hok.symm).2] at hle
    · intro hall edge props hget
      obtain ⟨before, entry, after, hentries, hok, hlast⟩ := h.get_custom_eq_some.mp hget
      have hle := hall before entry after hentries hlast
      rwa [← (hdelays hok).1, ← (hdelays hok).2] at hle
  · simp only [ExperimentConfig.defProps, h.connLatency, h.latency, h.mem_plain_iff,
      h.get_custom_eq_none]

end Parsed

/-- A modification adds the edge to a third node. -/
def thirdNode (nodesAmount : Int) : Value :=
  .dict [(.str "init".toList, .dict [(.str "nodes_amount".toList, .int nodesAmount),
      (.str "edges".toList, .dict [(.int 1, .list [.int 2])])]),
    (.str "mods".toList, .list [.dict [(.str "time".toList, .int 1000),
      (.str "add".toList, .list [.str "2 3".toList])]])]

end ExperimentConfigParser

end Diplom
