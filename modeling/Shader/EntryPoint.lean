import Shader.Fault
import Shader.FlagSet

/-! Entry points, the execution modes declared for them, and the one to use where
none is asked for. A mode is always flagged; the modes with operands of their own
also fill a field. -/

namespace Shader

/-- The dimensions of a compute workgroup, as literals and as ids of constants. -/
structure WorkgroupSize where
  x : Word := 0
  y : Word := 0
  z : Word := 0
  idX : ResultId := .null
  idY : ResultId := .null
  idZ : ResultId := .null
  deriving DecidableEq, Repr

namespace WorkgroupSize

instance : Inhabited WorkgroupSize := ⟨{}⟩

/-- Some dimension is given by a constant. -/
def isSpecialized (size : WorkgroupSize) : Bool :=
  !(size.idX.isNull && size.idY.isNull && size.idZ.isNull)

end WorkgroupSize

structure EntryPoint where
  /-- The function that is entered. -/
  id : ResultId
  /-- The name for output, which may differ from the declared one. -/
  name : String
  declaredName : String
  model : ExecutionModel
  /-- The variables through which the stage takes input and gives output. -/
  interface : List ResultId := []
  modes : FlagSet := ∅
  workgroup : WorkgroupSize := {}
  invocations : Word := 0
  outputVertices : Word := 0
  deriving DecidableEq

namespace EntryPoint

def declare (id : ResultId) (name : String) (model : ExecutionModel) : EntryPoint :=
  { id, name, declaredName := name, model }

inductive Edit where
  | setMode (mode : ExecutionMode) (operands : List Word)
  | rename (name : String)
  | addInterface (ids : List ResultId)
  deriving DecidableEq, Repr

/-- Sizes take three operands, and fewer leave them as they were; a count takes
one operand, and is 0 without it. -/
def setMode (entry : EntryPoint) (mode : ExecutionMode) (operands : List Word) : EntryPoint :=
  let entry := { entry with modes := entry.modes.insert mode.code }
  if mode = .localSize then
    match operands with
    | x :: y :: z :: _ => { entry with workgroup := { entry.workgroup with x, y, z } }
    | _ => entry
  else if mode = .localSizeId then
    match operands with
    | x :: y :: z :: _ =>
      { entry with workgroup := { entry.workgroup with idX := ⟨x⟩, idY := ⟨y⟩, idZ := ⟨z⟩ } }
    | _ => entry
  else if mode = .invocations then { entry with invocations := operands.headD 0 }
  else if mode = .outputVertices then { entry with outputVertices := operands.headD 0 }
  else entry

def apply (entry : EntryPoint) : Edit → EntryPoint
  | .setMode mode operands => entry.setMode mode operands
  | .rename name => { entry with name }
  | .addInterface ids => { entry with interface := entry.interface ++ ids }

def hasMode (entry : EntryPoint) (mode : ExecutionMode) : Bool := entry.modes.contains mode.code

end EntryPoint

/-! ### The entry points of a module -/

structure EntryPointTable where
  entries : IdMap EntryPoint := ∅
  /-- Null while there is no choice. -/
  defaultId : ResultId := .null
  deriving DecidableEq

namespace EntryPointTable

instance : Inhabited EntryPointTable := ⟨{}⟩

def find? (table : EntryPointTable) (id : ResultId) : Option EntryPoint := table.entries[id]?

inductive Edit where
  | add (entry : EntryPoint)
  | modify (id : ResultId) (change : EntryPoint → EntryPoint)
  | choose (id : ResultId)

/-- Replaces what was recorded for the same id. The entry becomes the default
while the default is null. -/
def add (table : EntryPointTable) (bound : Nat) (entry : EntryPoint) :
    Except Fault EntryPointTable :=
  if entry.id.index < bound then
    .ok {
      entries := table.entries.insert entry.id entry
      defaultId := if table.defaultId.isNull then entry.id else table.defaultId }
  else .error (.outOfBounds entry.id bound)

/-- Any change to the entry recorded for an id, which stays recorded for that id.
An id without an entry point is passed over. -/
def modify (table : EntryPointTable) (id : ResultId) (change : EntryPoint → EntryPoint) :
    EntryPointTable :=
  { table with entries := table.entries.modify id change }

def choose (table : EntryPointTable) (id : ResultId) : Except Fault EntryPointTable :=
  if id ∈ table.entries then .ok { table with defaultId := id } else .error (.unknownDefault id)

def apply (table : EntryPointTable) (bound : Nat) : Edit → Except Fault EntryPointTable
  | .add entry => table.add bound entry
  | .modify id change => .ok (table.modify id change)
  | .choose id => table.choose id

/-- A default has to be an entry of the table. -/
def fault? (table : EntryPointTable) : Option Fault :=
  if table.defaultId.isNull || table.entries.contains table.defaultId then none
  else some (.unknownDefault table.defaultId)

end EntryPointTable

end Shader
