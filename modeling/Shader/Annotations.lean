import Shader.Fault
import Shader.FlagSet

/-! What is said about an entity besides its payload: a name and decorations for the
whole, and the same again for each member of an aggregate. A decoration is present
when its flag is set; a later operand replaces an earlier one of the same form.
Reading is always possible and finds nothing where nothing was written; writing
needs an id below the bound. -/

namespace Shader

structure Decorations where
  flags : FlagSet := ∅
  operands : Std.ExtTreeMap Decoration Word := ∅
  texts : Std.ExtTreeMap Decoration String := ∅
  deriving DecidableEq

namespace Decorations

instance : Inhabited Decorations := ⟨{}⟩

inductive Edit where
  | set (decoration : Decoration) (operand : Word)
  | setText (decoration : Decoration) (text : String)
  /-- Removes the operands as well. -/
  | unset (decoration : Decoration)
  deriving DecidableEq, Repr

def apply (decorations : Decorations) : Edit → Decorations
  | .set decoration operand =>
    { decorations with
      flags := decorations.flags.insert decoration.code
      operands := decorations.operands.insert decoration operand }
  | .setText decoration text =>
    { decorations with
      flags := decorations.flags.insert decoration.code
      texts := decorations.texts.insert decoration text }
  | .unset decoration =>
    { flags := decorations.flags.erase decoration.code
      operands := decorations.operands.erase decoration
      texts := decorations.texts.erase decoration }

/-- Changes that reach the flags alone and leave every operand in place. -/
inductive FlagEdit where
  | set (decoration : Decoration)
  | clear (decoration : Decoration)
  | reset
  deriving DecidableEq, Repr

def applyFlag (decorations : Decorations) : FlagEdit → Decorations
  | .set decoration => { decorations with flags := decorations.flags.insert decoration.code }
  | .clear decoration => { decorations with flags := decorations.flags.erase decoration.code }
  | .reset => { decorations with flags := ∅ }

def has (decorations : Decorations) (decoration : Decoration) : Bool :=
  decorations.flags.contains decoration.code

def operand (decorations : Decorations) (decoration : Decoration) : Word :=
  decorations.operands.getD decoration 0

def text (decorations : Decorations) (decoration : Decoration) : String :=
  decorations.texts.getD decoration ""

/-- Each decoration present with what is read as its operands, ascending. -/
def toList (decorations : Decorations) : List (Decoration × Word × String) :=
  decorations.flags.toList.map fun code =>
    (⟨code⟩, decorations.operand ⟨code⟩, decorations.text ⟨code⟩)

end Decorations

/-! ### Notes -/

structure Note where
  name : String := ""
  decorations : Decorations := {}
  deriving DecidableEq

namespace Note

instance : Inhabited Note := ⟨{}⟩

inductive Edit where
  | rename (name : String)
  | decorate (edit : Decorations.Edit)
  deriving DecidableEq, Repr

def apply (note : Note) : Edit → Note
  | .rename name => { note with name }
  | .decorate edit => { note with decorations := note.decorations.apply edit }

end Note

/-- What a note is attached to. -/
inductive Part where
  | whole
  | member (index : Nat)
  deriving DecidableEq, Repr

structure Annotations where
  whole : Note := {}
  /-- As far as the last member ever written to. -/
  members : Array Note := #[]
  deriving DecidableEq

namespace Annotations

instance : Inhabited Annotations := ⟨{}⟩

def find? (annotations : Annotations) : Part → Option Note
  | .whole => some annotations.whole
  | .member index => annotations.members[index]?

/-- Changes one part. The list of members grows to reach it, even where the
change then leaves the member as it was. -/
def modify (annotations : Annotations) (part : Part) (change : Note → Note) : Annotations :=
  match part with
  | .whole => { annotations with whole := change annotations.whole }
  | .member index =>
    { annotations with members := (grow annotations.members (index + 1)).modify index change }

end Annotations

/-! ### One record per id -/

structure AnnotationStore where
  records : Array Annotations := #[]
  deriving DecidableEq

namespace AnnotationStore

instance : Inhabited AnnotationStore := ⟨{}⟩

def size (store : AnnotationStore) : Nat := store.records.size

def growTo (store : AnnotationStore) (size : Nat) : AnnotationStore := ⟨grow store.records size⟩

def record? (store : AnnotationStore) (id : ResultId) : Option Annotations :=
  store.records[id.index]?

def read (store : AnnotationStore) (id : ResultId) (part : Part) : Note :=
  ((store.record? id).bind (·.find? part)).getD default

def flags (store : AnnotationStore) (id : ResultId) (part : Part) : FlagSet :=
  (store.read id part).decorations.flags

/-- Changes one part of a record. A refusal names the bound of the module. -/
def annotate (store : AnnotationStore) (bound : Nat) (id : ResultId) (part : Part) (edit : Note.Edit) :
    Except Fault AnnotationStore :=
  if id.index < store.size then
    .ok ⟨store.records.modify id.index (·.modify part (·.apply edit))⟩
  else .error (.outOfBounds id bound)

/-- The records that differ from an unwritten one, by ascending id. -/
def entries (store : AnnotationStore) : List (ResultId × Annotations) :=
  store.records.toList.zipIdx.filterMap fun (record, index) =>
    if record = default then none else some (.ofIndex index, record)

end AnnotationStore

end Shader
