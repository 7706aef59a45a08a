import Shader.Enumerant

/-! Entities: what a result id stands for. The kind decides the type of the
payload, so a reader has to name the kind it expects and may be refused. -/

namespace Shader

inductive Kind where
  | type | constant | constantOp | var | undef
  | string | extInstImport | function | functionPrototype | block
  deriving DecidableEq, Repr

namespace Kind

def all : List Kind :=
  [.type, .constant, .constantOp, .var, .undef, .string, .extInstImport, .function, .functionPrototype, .block]

theorem mem_all (kind : Kind) : kind ∈ all := by
  cases kind <;> decide

theorem nodup_all : all.Nodup := by
  decide

/-- The kind as diagnostics call it. -/
def name : Kind → String
  | .type => "type"
  | .constant => "constant"
  | .constantOp => "constant op"
  | .var => "variable"
  | .undef => "undef"
  | .string => "string"
  | .extInstImport => "extended instruction set"
  | .function => "function"
  | .functionPrototype => "function prototype"
  | .block => "block"

def describe : Option Kind → String
  | none => "nothing"
  | some kind => kind.name

end Kind

/-! ### Type declarations -/

inductive BaseType where
  | unknown | void | boolean | int | uint | int64 | uint64 | half | float | double
  | struct | image | sampledImage | sampler | accelerationStructure
  deriving DecidableEq, Repr

structure TypeDecl where
  base : BaseType := .unknown
  /-- Bits of a scalar. -/
  width : Word := 0
  vecsize : Word := 1
  columns : Word := 1
  /-- Array dimensions, the outermost last. -/
  array : List Word := []
  /-- Beside each dimension, whether it is a literal and not the id of a constant. -/
  literalSizes : List Bool := []
  pointer : Bool := false
  storage : StorageClass := .generic
  /-- What a pointer points to, and what an array is made of. -/
  parent : ResultId := .null
  members : List ResultId := []
  deriving DecidableEq, Repr

namespace TypeDecl

instance : Inhabited TypeDecl := ⟨{}⟩

def scalar (base : BaseType) (width : Word) : TypeDecl := { base, width }

def ofMembers (members : List ResultId) : TypeDecl := { base := .struct, members }

/-- A pointer repeats the base of its pointee. -/
def pointerTo (pointee : ResultId) (base : BaseType) (storage : StorageClass) : TypeDecl :=
  { base, pointer := true, storage, parent := pointee }

def isArray (type : TypeDecl) : Bool := !type.array.isEmpty

/-- The outermost dimension has no size. -/
def isRuntimeArray (type : TypeDecl) : Bool :=
  type.array.getLast? == some 0 && type.literalSizes.getLast? == some true

/-- Pointers and arrays stand in front of another type. -/
def isIndirect (type : TypeDecl) : Bool := type.pointer || type.isArray

end TypeDecl

/-! ### Variables, constants, and the values that only carry text -/

structure Variable where
  /-- Always a pointer type. -/
  type : ResultId := .null
  storage : StorageClass := .generic
  initializer : ResultId := .null
  /-- The variable this one was made from. -/
  base : ResultId := .null
  deriving DecidableEq, Repr

instance : Inhabited Variable := ⟨{}⟩

structure Constant where
  type : ResultId := .null
  /-- The words of a scalar: two when it is 64 bits wide, none for a composite. -/
  words : List Word := []
  parts : List ResultId := []
  specialization : Bool := false
  isArrayLength : Bool := false
  deriving DecidableEq, Repr

namespace Constant

instance : Inhabited Constant := ⟨{}⟩

def scalar (type : ResultId) (word : Word) : Constant := { type, words := [word] }

/-- The first word of a scalar; a composite counts as 0. -/
def scalarWord (constant : Constant) : Word := constant.words.headD 0

end Constant

/-- A constant computed from other constants. -/
structure ConstantOp where
  type : ResultId := .null
  opcode : Opcode := .nop
  arguments : List ResultId := []
  deriving DecidableEq, Repr

instance : Inhabited ConstantOp := ⟨{}⟩

structure Undef where
  type : ResultId := .null
  deriving DecidableEq, Repr

instance : Inhabited Undef := ⟨{}⟩

structure DebugString where
  text : String := ""
  deriving DecidableEq, Repr

instance : Inhabited DebugString := ⟨{}⟩

structure ExtInstImport where
  name : String := ""
  deriving DecidableEq, Repr

instance : Inhabited ExtInstImport := ⟨{}⟩

/-! ### Function signatures and bodies -/

structure Parameter where
  id : ResultId
  type : ResultId
  deriving DecidableEq, Repr

structure FunctionPrototype where
  returnType : ResultId := .null
  parameterTypes : List ResultId := []
  deriving DecidableEq, Repr

instance : Inhabited FunctionPrototype := ⟨{}⟩

structure FunctionBody where
  returnType : ResultId := .null
  prototype : ResultId := .null
  parameters : List Parameter := []
  /-- In declaration order. -/
  blocks : List ResultId := []
  entryBlock : ResultId := .null
  deriving DecidableEq, Repr

namespace FunctionBody

instance : Inhabited FunctionBody := ⟨{}⟩

/-- Control enters at the first block added. -/
def addBlock (body : FunctionBody) (block : ResultId) : FunctionBody :=
  { body with
    entryBlock := if body.entryBlock.isNull then block else body.entryBlock
    blocks := body.blocks ++ [block] }

end FunctionBody

/-! ### Basic blocks and the ways to leave them -/

/-- The merge instruction in front of a block's terminator. -/
inductive MergeKind where
  | none | loop | selection
  deriving DecidableEq, Repr

inductive Terminator where
  | unknown
  | unreachable
  | kill
  | jump (next : ResultId)
  | branch (condition yes no : ResultId)
  | switch (selector fallback : ResultId) (cases : List (Word × ResultId))
  /-- The value is null where nothing is returned. -/
  | ret (value : ResultId)
  deriving DecidableEq, Repr

/-- The blocks control may pass to, in operand order. -/
def Terminator.successors : Terminator → List ResultId
  | .jump next => [next]
  | .branch _ yes no => [yes, no]
  | .switch _ fallback cases => fallback :: cases.map (·.2)
  | .unknown | .unreachable | .kill | .ret _ => []

structure Block where
  terminator : Terminator := .unknown
  merge : MergeKind := .none
  mergeBlock : ResultId := .null
  /-- Has a meaning for a loop merge only. -/
  continueBlock : ResultId := .null
  deriving DecidableEq, Repr

instance : Inhabited Block := ⟨{}⟩

/-! ### Payloads and slots -/

@[reducible] def Kind.Payload : Kind → Type
  | .type => TypeDecl
  | .constant => Constant
  | .constantOp => ConstantOp
  | .var => Variable
  | .undef => Undef
  | .string => DebugString
  | .extInstImport => ExtInstImport
  | .function => FunctionBody
  | .functionPrototype => FunctionPrototype
  | .block => Block

instance (kind : Kind) : DecidableEq kind.Payload := by
  cases kind <;> infer_instance

instance (kind : Kind) : Inhabited kind.Payload := by
  cases kind <;> infer_instance

structure Entity where
  kind : Kind
  payload : kind.Payload
  deriving DecidableEq

namespace Entity

def as? (kind : Kind) (entity : Entity) : Option kind.Payload :=
  if same : entity.kind = kind then some (same ▸ entity.payload) else none

@[simp] theorem as?_mk (kind : Kind) (payload : kind.Payload) :
    as? kind ⟨kind, payload⟩ = some payload := by
  simp [as?]

theorem as?_eq_some {kind : Kind} {entity : Entity} {payload : kind.Payload} :
    entity.as? kind = some payload ↔ entity = ⟨kind, payload⟩ := by
  constructor
  · intro found
    obtain ⟨actual, stored⟩ := entity
    by_cases same : actual = kind
    · subst same
      simp [as?] at found
      rw [found]
    · simp [as?, same] at found
  · rintro rfl
    simp

theorem as?_eq_none {kind : Kind} {entity : Entity} :
    entity.as? kind = none ↔ entity.kind ≠ kind := by
  by_cases same : entity.kind = kind <;> simp [as?, same]

/-- The entity with its payload changed, if it is of the kind asked for. -/
def modify? (kind : Kind) (change : kind.Payload → kind.Payload) (entity : Entity) : Option Entity :=
  if same : entity.kind = kind then some ⟨kind, change (same ▸ entity.payload)⟩ else none

theorem modify?_eq_map {kind : Kind} {change : kind.Payload → kind.Payload} {entity : Entity} :
    entity.modify? kind change = (entity.as? kind).map fun payload => ⟨kind, change payload⟩ := by
  by_cases same : entity.kind = kind <;> simp [modify?, as?, same]

end Entity

/-- One place for an entity, empty until it is declared. -/
abbrev Slot := Option Entity

namespace Slot

def kind? (slot : Slot) : Option Kind := slot.map (·.kind)

/-- The payload, if the slot holds the kind asked for. -/
def as? (kind : Kind) (slot : Slot) : Option kind.Payload := slot.bind (·.as? kind)

def modify? (kind : Kind) (change : kind.Payload → kind.Payload) (slot : Slot) : Option Entity :=
  slot.bind (·.modify? kind change)

end Slot

end Shader
