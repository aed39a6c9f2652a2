import Mathlib.Data.List.Basic

/-!
# The in-memory connectome of `misc/universal_functions.py`

The module state the connectome functions read and write: the genome's blueprint (whose keys
are `cortical_list()`), the connectome files present under `connectome_path`, the `brain`
dict and the `cortical_areas` snapshot taken at load. Dicts are association lists (`dictSet`
keeps the place of an existing key). A call that raises leaves what it already wrote.
-/

namespace Feagi.Brain

structure Neuron where
  neighbors : List String
  cumulativeFireCountInst : Nat
  deriving DecidableEq, Repr

abbrev AreaData := List (String × Neuron)

def dictSet {β : Type} (d : List (String × β)) (key : String) (value : β) : List (String × β) :=
  if d.any (·.1 == key) then d.map fun entry => if entry.1 = key then (key, value) else entry
  else d ++ [(key, value)]

inductive PyError where
  | keyError (key : String)
  | fileNotFound (path : String)
  deriving DecidableEq, Repr

structure Universal where
  blueprint : List String
  connectomePath : String
  files : List (String × AreaData)
  brain : List (String × AreaData)
  corticalAreas : List String
  deriving DecidableEq, Repr

namespace Universal

def corticalList (u : Universal) : List String := u.blueprint

def connectomeFile (u : Universal) (area : String) : String := u.connectomePath ++ area ++ ".json"

def loadBrainInMemory (u : Universal) : List (String × AreaData) :=
  u.corticalList.foldl (fun brain item =>
    match u.files.lookup (u.connectomeFile item) with
    | some data => dictSet brain item data
    | none => brain) []

/-- The module state right after `universal_functions` is imported. -/
def load (blueprint : List String) (connectomePath : String) (files : List (String × AreaData)) :
    Universal :=
  let u : Universal := ⟨blueprint, connectomePath, files, [], []⟩
  { u with brain := u.loadBrainInMemory, corticalAreas := u.corticalList }

def resetBrain (u : Universal) : Universal :=
  { u with brain := u.corticalList.foldl (fun brain item => dictSet brain item []) u.brain }

/-- Saving one area: `open(path, "r+")` fails on a missing file, then `brain[cortical_area]`. -/
def saveArea (u : Universal) (corticalArea : String) : Universal × Option PyError :=
  let path := u.connectomeFile corticalArea
  match u.files.lookup path, u.brain.lookup corticalArea with
  | none, _ => (u, some (.fileNotFound path))
  | some _, none => (u, some (.keyError corticalArea))
  | some _, some data => ({ u with files := dictSet u.files path data }, none)

def saveAll (u : Universal) : List String → Universal × Option PyError
  | [] => (u, none)
  | corticalArea :: rest =>
    match u.saveArea corticalArea with
    | (u, none) => saveAll u rest
    | failed => failed

def saveBrainToDisk (u : Universal) (corticalArea : String := "all") : Universal × Option PyError :=
  if corticalArea ≠ "all" then u.saveArea corticalArea else u.saveAll u.corticalList

def resetCumulativeCounterInstances (u : Universal) : Universal :=
  { u with brain := u.brain.map fun (area, data) =>
      (area, data.map fun (id, neuron) => (id, { neuron with cumulativeFireCountInst := 0 })) }

def corticalAreaNeuronCount (u : Universal) (corticalArea : String) : Except PyError Nat :=
  match u.brain.lookup corticalArea with
  | none => .error (.keyError corticalArea)
  | some data => .ok data.length

def corticalAreaSynapseCount (u : Universal) (corticalArea : String) : Except PyError Nat :=
  match u.brain.lookup corticalArea with
  | none => .error (.keyError corticalArea)
  | some data => .ok (data.foldl (fun count (_, neuron) => count + neuron.neighbors.length) 0)

def connectomeNeuronCount (u : Universal) : Except PyError Nat :=
  u.corticalAreas.foldlM (fun total area => (total + ·) <$> u.corticalAreaNeuronCount area) 0

def connectomeSynapseCount (u : Universal) : Except PyError Nat :=
  u.corticalAreas.foldlM (fun total area => (total + ·) <$> u.corticalAreaSynapseCount area) 0

inductive Op where
  | resetBrain
  | saveBrainToDisk (corticalArea : String)
  | resetCumulativeCounterInstances
  | corticalAreaNeuronCount (corticalArea : String)
  | corticalAreaSynapseCount (corticalArea : String)
  | connectomeNeuronCount
  | connectomeSynapseCount
  deriving DecidableEq, Repr

/-- The state after a call; the counting calls only read it. -/
def apply (u : Universal) : Op → Universal
  | .resetBrain => u.resetBrain
  | .saveBrainToDisk corticalArea => (u.saveBrainToDisk corticalArea).1
  | .resetCumulativeCounterInstances => u.resetCumulativeCounterInstances
  | .corticalAreaNeuronCount _ | .corticalAreaSynapseCount _ | .connectomeNeuronCount
  | .connectomeSynapseCount => u

def run (u : Universal) (ops : List Op) : Universal := ops.foldl apply u

end Universal
end Feagi.Brain
