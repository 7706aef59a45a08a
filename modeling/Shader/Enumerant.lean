import Shader.ResultId

/-! The numbered vocabularies of the module format. A family keeps numbers of
different vocabularies apart; only the members that carry a meaning of their
own are named, and every other number passes through unchanged. -/

namespace Shader

inductive Family where
  | decoration | executionMode | capability | executionModel
  | storageClass | opcode | sourceLanguage
  deriving DecidableEq, Repr

structure Enumerant (family : Family) where
  code : Word
  deriving DecidableEq, Repr

namespace Enumerant

variable {family : Family}

instance : Ord (Enumerant family) := ⟨compareOn code⟩

instance : Std.TransOrd (Enumerant family) :=
  inferInstanceAs (Std.TransCmp (compareOn code))

instance : Std.LawfulEqOrd (Enumerant family) where
  eq_of_compare {a b} same := by
    cases a; cases b
    exact congrArg Enumerant.mk (Std.LawfulEqOrd.eq_of_compare same)

end Enumerant

abbrev Decoration := Enumerant .decoration
abbrev ExecutionMode := Enumerant .executionMode
abbrev Capability := Enumerant .capability
abbrev ExecutionModel := Enumerant .executionModel
abbrev StorageClass := Enumerant .storageClass
abbrev Opcode := Enumerant .opcode
abbrev SourceLanguage := Enumerant .sourceLanguage

namespace ExecutionMode

def invocations : ExecutionMode := ⟨0⟩
def localSize : ExecutionMode := ⟨17⟩
def outputVertices : ExecutionMode := ⟨26⟩
def localSizeId : ExecutionMode := ⟨38⟩

end ExecutionMode

namespace SourceLanguage

def essl : SourceLanguage := ⟨1⟩
def glsl : SourceLanguage := ⟨2⟩
def hlsl : SourceLanguage := ⟨5⟩

end SourceLanguage

def StorageClass.generic : StorageClass := ⟨8⟩
def Opcode.nop : Opcode := ⟨0⟩

end Shader
