import Diplom.Lib.KeyedList
import Diplom.Lib.Python

/-!
# The configuration of an experiment

`ExperimentConfigParser` takes what the configuration file is loaded as and makes a configuration
of it, and `run_experiment` makes a table of the bridges out of that. Values that the parser does
not look at stay what they are in the file.

An error keeps what its text names. Everything that the parser raises itself is a `ValueError`; the
other errors come from asking a value for what it does not have.
-/

namespace Diplom

open Python

/-- `Edge`. -/
abbrev ConfigEdge := Int × Int

/-- `NetworkValue`. -/
structure NetworkValue where
  mean : Value
  jitter : Value := .int 0

/-- `EdgeProperties`. -/
structure EdgeProperties where
  connLat : NetworkValue
  lat : NetworkValue
  bw : Value

structure ExperimentSetup where
  duration : Value
  connLatency : NetworkValue
  latency : NetworkValue
  bandwidth : Value

structure ExperimentMods where
  time : Int
  add : List ConfigEdge
  erase : List ConfigEdge

structure ExperimentInit where
  nodesAmount : Value
  custom : List (ConfigEdge × EdgeProperties)
  edges : List ConfigEdge

structure ExperimentConfig where
  setup : ExperimentSetup
  init : ExperimentInit
  mods : List ExperimentMods

/-- `DURATION`. -/
def defaultDuration : Value := .int 5

/-- `NODES_AMOUNT`. -/
def defaultNodesAmount : Value := .int 5

/-- `CONN_LATENCY`. -/
def defaultConnLatency : NetworkValue := ⟨.int 800, .int 200⟩

/-- `LATENCY`. -/
def defaultLatency : NetworkValue := ⟨.int 20, .int 0⟩

/-- `BANDWIDTH`. -/
def defaultBandwidth : Value := .int 1000000

/-- What is raised. -/
inductive ConfigError
  /-- `Invalid network value format: {value}`. -/
  | networkValue (value : Value)
  /-- `Invalid edge format: {edge}`. -/
  | edgeFormat (edge : Value)
  /-- `Node {node} is out of bounds`. -/
  | nodeBounds (node : Value)
  /-- `Element {element} must be int`. -/
  | element (element : Value)
  /-- `Edge {edge[0]} - {edge[1]} is out of bounds`. -/
  | edgeBounds (edge : ConfigEdge)
  | ofInt (error : IntError)
  | typeError
  | attributeError
  | keyError

/-- Whether it is a `ValueError`. -/
def ConfigError.isValueError : ConfigError → Bool
  | .networkValue _ | .edgeFormat _ | .nodeBounds _ | .element _ | .edgeBounds _ => true
  | .ofInt error => error = .valueError
  | .typeError | .attributeError | .keyError => false

namespace ExperimentConfigParser

/-- What a value does not have raises an error. -/
def need {α : Type} (error : ConfigError) : Option α → Except ConfigError α
  | some value => .ok value
  | none => .error error

/-- `data.get(key, default)`. -/
def getD (key : Text) (default : Value) (data : Value) : Except ConfigError Value :=
  (need .attributeError (data.get key)).map fun value => value.getD default

/-- `parse_network_value`. -/
def parseNetworkValue (value : Value) (default : NetworkValue) :
    Except ConfigError NetworkValue :=
  match value with
  | .null => .ok default
  | .list [mean] => .ok { mean := mean }
  | .list [mean, jitter] => .ok { mean := mean, jitter := jitter }
  | value =>
      match value.asInt with
      | some _ => .ok { mean := value }
      | none => .error (.networkValue value)

/-- `parse_edge`. -/
def parseEdge (edge : Value) : Except ConfigError ConfigEdge :=
  match edge with
  | .str text =>
      match (text.splitOn ' ').mapM (readInt isIntSpace digit) with
      | some [u, v] => .ok (min u v, max u v)
      | _ => .error (.edgeFormat edge)
  | _ => .error (.edgeFormat edge)

/-- `if low < 1 or high > nodes_amount: raise`. -/
def checkBounds (low high : Int) (nodesAmount : Value) (error : ConfigError) :
    Except ConfigError Unit :=
  if low < 1 then .error error
  else
    match nodesAmount.asNumber with
    | none => .error .typeError
    | some amount => if amount.lt (.finite high) then .error error else .ok ()

/-- One element of the list of a node in `parse_visib`. -/
def parseNeighbour (edge : Int) (nodesAmount : Value) (i : Value) :
    Except ConfigError ConfigEdge :=
  match i.asInt with
  | none => .error (.element i)
  | some n => (checkBounds n n nodesAmount (.nodeBounds i)).map fun _ => (min edge n, max edge n)

/-- One entry of the mapping in `parse_visib`. -/
def parseNode (nodesAmount : Value) (entry : Value × Value) :
    Except ConfigError (List ConfigEdge) :=
  match entry.1.asInt with
  | none => .ok []
  | some edge => do
      checkBounds edge edge nodesAmount (.nodeBounds entry.1)
      let params ← need .typeError entry.2.elements
      params.mapM (parseNeighbour edge nodesAmount)

/-- `parse_visib`. -/
def parseVisib (edgesData nodesAmount : Value) : Except ConfigError (List ConfigEdge) := do
  let entries ← need .attributeError edgesData.items
  let edges ← entries.mapM (parseNode nodesAmount)
  return edges.flatten

/-- One entry of the mapping in `parse_edges`. -/
def parseShape (setup : ExperimentSetup) (nodesAmount : Value) (entry : Value × Value) :
    Except ConfigError (ConfigEdge × EdgeProperties) := do
  let edge ← parseEdge entry.1
  checkBounds (min edge.1 edge.2) (max edge.1 edge.2) nodesAmount (.edgeBounds edge)
  let connLat ← parseNetworkValue (← getD "conn_lat".toList .null entry.2) setup.connLatency
  let lat ← parseNetworkValue (← getD "lat".toList .null entry.2) setup.latency
  let bw ← getD "bw".toList setup.bandwidth entry.2
  return (edge, ⟨connLat, lat, bw⟩)

/-- `parse_edges`. -/
def parseEdges (edgesData : Value) (setup : ExperimentSetup) (nodesAmount : Value) :
    Except ConfigError (List (ConfigEdge × EdgeProperties)) :=
  if edgesData.truth then do
    let entries ← need .attributeError edgesData.items
    let shapes ← entries.mapM (parseShape setup nodesAmount)
    return KeyedList.setAll shapes []
  else .ok []

/-- `mod['time']`. -/
def timeOf (mod : Value) : Except ConfigError Value :=
  match mod.get "time".toList with
  | none => .error .typeError
  | some none => .error .keyError
  | some (some time) => .ok time

/-- `[self.parse_edge(e) for e in mod.get(key, [])]`. -/
def parseEdgeList (key : Text) (mod : Value) : Except ConfigError (List ConfigEdge) := do
  let edges ← need .typeError (← getD key (.list []) mod).elements
  edges.mapM parseEdge

/-- One element of the list in `parse_mods`. -/
def parseMod (mod : Value) : Except ConfigError ExperimentMods := do
  let time ← (← timeOf mod).toInt.mapError .ofInt
  let add ← parseEdgeList "add".toList mod
  let erase ← parseEdgeList "erase".toList mod
  return { time := time, add := add, erase := erase }

/-- `parse_mods`. -/
def parseMods (modsData : Value) : Except ConfigError (List ExperimentMods) := do
  let mods ← need .typeError modsData.elements
  mods.mapM parseMod

/-- `yaml.safe_load(file) or {}`. -/
def orEmpty (loaded : Value) : Value := if loaded.truth then loaded else .dict []

/-- The setup in `parse_config`. -/
def parseSetup (setupData : Value) : Except ConfigError ExperimentSetup := do
  let duration ← getD "duration".toList defaultDuration setupData
  let connLatency ←
    parseNetworkValue (← getD "conn_latency".toList .null setupData) defaultConnLatency
  let latency ← parseNetworkValue (← getD "latency".toList .null setupData) defaultLatency
  let bandwidth ← getD "bandwidth".toList defaultBandwidth setupData
  return ⟨duration, connLatency, latency, bandwidth⟩

/-- `parse_config`, of what the file is loaded as. -/
def parseConfig (loaded : Value) : Except ConfigError ExperimentConfig := do
  let configData := orEmpty loaded
  let setup ← parseSetup (← getD "setup".toList (.dict []) configData)
  let initData ← getD "init".toList (.dict []) configData
  let nodesAmount ← getD "nodes_amount".toList defaultNodesAmount initData
  let custom ← parseEdges (← getD "custom_shapes".toList (.dict []) initData) setup nodesAmount
  let edges ← parseVisib (← getD "edges".toList (.list []) initData) nodesAmount
  let mods ← parseMods (← getD "mods".toList (.list []) configData)
  return { setup := setup, init := ⟨nodesAmount, custom, edges⟩, mods := mods }

end ExperimentConfigParser

namespace ExperimentConfig

variable (config : ExperimentConfig)

/-- `def_props` in `run_experiment`. -/
def defProps : EdgeProperties :=
  ⟨config.setup.connLatency, config.setup.latency, config.setup.bandwidth⟩

/-- `bridges` in `run_experiment`. -/
def bridges : List (ConfigEdge × EdgeProperties) :=
  let bridges := config.init.edges.foldl (fun l edge => KeyedList.set edge config.defProps l) []
  let bridges := config.mods.foldl
    (fun l mod => mod.add.foldl (fun l edge => KeyedList.set edge config.defProps l) l) bridges
  KeyedList.setAll config.init.custom bridges

/-- The nodes for which `create_devices` makes containers: `range(1, num_containers + 1)`. Without
an integer it raises a `TypeError`. -/
def containers (numContainers : Value) (i : Int) : Bool :=
  match numContainers.asInt with
  | some n => 1 ≤ i ∧ i < n + 1
  | none => false

/-- Whether `add_bridge` goes on past its check of the containers. -/
def connects (numContainers : Value) (edge : ConfigEdge) : Bool :=
  containers numContainers (min edge.1 edge.2) && containers numContainers (max edge.1 edge.2)

end ExperimentConfig

/-- Whether `set_rules` goes on past its check of the delays, nothing where a delay is no number or
a subtraction overflows. -/
def EdgeProperties.shapes (props : EdgeProperties) : Option Bool :=
  match props.connLat.mean.operands props.lat.mean,
    props.connLat.jitter.operands props.lat.jitter with
  | some (connDelay, transDelay), some _ => some (!connDelay.lt transDelay)
  | _, _ => none

end Diplom
