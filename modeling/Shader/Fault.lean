import Shader.Entity

/-! Why an operation is refused, and what it leaves behind. A fault is a cause with
the ids involved; the wording is given once, by `message`. A refused operation has
a state too, because a walk over several entities may stop after it has changed some. -/

namespace Shader

inductive Fault where
  | outOfBounds (id : ResultId) (bound : Nat)
  | wrongKind (id : ResultId) (expected found : Option Kind)
  | kindChange (id : ResultId) (found requested : Option Kind)
  | notAStruct (id : ResultId)
  | unlistedContinue (block : ResultId)
  | unlistedHeader (block header : ResultId)
  | mergeOverlap (block : ResultId)
  | unequalStores (entities annotations : Nat)
  | unknownDefault (id : ResultId)
  | truncatedHeader (words : Nat)
  | badMagic (found : Word)
  | idsExhausted (bound : Nat) (count : Word)
  | argumentCycle (id : ResultId)
  | typeCycle (id : ResultId)
  deriving DecidableEq, Repr

/-- Eight lower-case hexadecimal digits after `0x`. -/
def hexadecimal (word : Word) : String :=
  "0x" ++ String.ofList (List.leftpad 8 '0' (Nat.toDigits 16 word.toNat))

namespace Fault

def message : Fault → String
  | outOfBounds id bound => s!"id {id} is out of bounds (bound is {bound})"
  | wrongKind id expected found =>
    s!"id {id} holds {Kind.describe found}, but was accessed as {Kind.describe expected}"
  | kindChange id found requested =>
    s!"id {id} holds {Kind.describe found} and cannot be reassigned as {Kind.describe requested}"
  | notAStruct id => s!"type {id} of a buffer block variable is not a struct"
  | unlistedContinue block =>
    s!"continue block {block} is mapped to a loop header but is not a registered continue block"
  | unlistedHeader block header =>
    s!"continue block {block} maps to {header}, which is not a registered loop header"
  | mergeOverlap block => s!"block {block} is registered in more than one merge category"
  | unequalStores entities annotations =>
    s!"variant store has {entities} slots but meta store has {annotations}"
  | unknownDefault id => s!"default entry point {id} is not a registered entry point"
  | truncatedHeader words => s!"module is {words} words long; a SPIR-V header needs 5"
  | badMagic found => s!"bad magic number {hexadecimal found}"
  | idsExhausted bound count => s!"id bound overflow: {bound} + {count} exceeds u32"
  | argumentCycle id => s!"the arguments of constant op {id} lead back to themselves"
  | typeCycle id => s!"type {id} leads back to itself"

/-- Header faults blame the words that were read; all others blame the caller. -/
def isHeaderFault : Fault → Bool
  | truncatedHeader _ | badMagic _ => true
  | _ => false

end Fault

/-! ### Outcomes -/

structure Outcome (σ : Type) where
  state : σ
  fault? : Option Fault := none
  deriving DecidableEq

namespace Outcome

variable {σ τ : Type}

def done (state : σ) : Outcome σ := { state }

/-- An operation that checks before it writes: refused, it leaves `before`. -/
def ofExcept (before : σ) : Except Fault σ → Outcome σ
  | .ok state => { state }
  | .error fault => { state := before, fault? := some fault }

def map (f : σ → τ) (outcome : Outcome σ) : Outcome τ where
  state := f outcome.state
  fault? := outcome.fault?

end Outcome

end Shader
