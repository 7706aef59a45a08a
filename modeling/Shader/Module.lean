import Shader.Annotations
import Shader.ControlFlow
import Shader.EntityStore
import Shader.EntryPoint
import Shader.Preamble

/-! A decoded module: the words it came from and everything recorded about its
ids. Ids count from 0 up to the bound, which only grows, so what was recorded
under an id stays there. -/

namespace Shader

structure Module where
  words : List Word := []
  entities : EntityStore := {}
  annotations : AnnotationStore := {}
  controlFlow : ControlFlow := {}
  entryPoints : EntryPointTable := {}
  source : Source := {}
  declarations : Declarations := {}
  deriving DecidableEq

namespace Module

instance : Inhabited Module := ⟨{}⟩

/-- One past the largest id. -/
def bound (m : Module) : Nat := m.entities.size

/-- Adds empty slots up to `bound`. A bound that is already reached changes nothing. -/
def growTo (m : Module) (bound : Nat) : Module :=
  { m with entities := m.entities.growTo bound, annotations := m.annotations.growTo bound }

/-- A run of `count` fresh ids, given by its first. Every bound is a word. -/
def mint (m : Module) (count : Word) : Except Fault (ResultId × Module) :=
  let bound := m.bound + count.toNat
  if bound < UInt32.size then .ok (.ofIndex m.bound, m.growTo bound)
  else .error (.idsExhausted m.bound count)

def ofWords (words : List Word) : Module := { words }

def ofBinary (words : List Word) : Except Fault Module :=
  match Header.parse words with
  | .error fault => .error fault
  | .ok header => .ok ((ofWords words).growTo header.bound.toNat)

/-! ### Buffer blocks

The decorations that make a variable a buffer block stand on the struct type behind
it and on its members, never on the variable. -/

/-- The decorations of a struct type together with those all its members share. -/
def structFlags (m : Module) (id : ResultId) (type : TypeDecl) : FlagSet :=
  m.annotations.flags id .whole ∪
    .common ((List.range type.members.length).map fun index =>
      m.annotations.flags id (.member index))

def bufferBlockFlags (m : Module) (var : Variable) : Except Fault FlagSet :=
  match m.entities.blockType var with
  | .error fault => .error fault
  | .ok id =>
    match m.entities.fetch id .type with
    | .error fault => .error fault
    | .ok type =>
      if type.base = .struct then .ok (m.structFlags id type) else .error (.notAStruct id)

/-! ### Soundness

The stores agree in size, the control flow is sound and speaks of ids below the
bound, and the default entry point exists. -/

def fault? (m : Module) : Option Fault :=
  if m.entities.size = m.annotations.size then
    m.controlFlow.fault?
      |>.or ((m.controlFlow.stray? m.bound).map (.outOfBounds · m.bound))
      |>.or m.entryPoints.fault?
  else some (.unequalStores m.entities.size m.annotations.size)

/-! ### Edits

The ways to change a module, as values. Apart from growth, an edit concerns
one component; a run of edits goes on from the state a refused edit left. -/

inductive Edit where
  | growTo (bound : Word)
  | mint (count : Word)
  | entity (edit : EntityStore.Edit)
  | annotate (id : ResultId) (part : Part) (edit : Note.Edit)
  | controlFlow (edit : ControlFlow.Edit)
  | entryPoint (edit : EntryPointTable.Edit)
  | setSource (source : Source)
  | declare (declaration : Declaration)

def perform (m : Module) : Edit → Outcome Module
  | .growTo bound => .done (m.growTo bound.toNat)
  | .mint count => .ofExcept m ((m.mint count).map (·.2))
  | .entity edit => (m.entities.perform edit).map fun entities => { m with entities }
  | .annotate id part edit =>
    .ofExcept m ((m.annotations.annotate m.bound id part edit).map fun annotations =>
      { m with annotations })
  | .controlFlow edit =>
    .ofExcept m ((m.controlFlow.apply edit).map fun controlFlow => { m with controlFlow })
  | .entryPoint edit =>
    .ofExcept m ((m.entryPoints.apply m.bound edit).map fun entryPoints =>
      { m with entryPoints })
  | .setSource source => .done { m with source }
  | .declare declaration => .done { m with declarations := m.declarations.add declaration }

def run (m : Module) (edits : List Edit) : Module :=
  edits.foldl (fun m edit => (m.perform edit).state) m

/-- The modules that come about: some words, with or without ids from their
header, and any edits after that. -/
inductive Reachable : Module → Prop where
  | words (words : List Word) : Reachable (ofWords words)
  | binary {words : List Word} {m : Module} (decoded : ofBinary words = .ok m) : Reachable m
  | edit {m : Module} (reached : Reachable m) (edit : Edit) : Reachable (m.perform edit).state

end Module

end Shader
