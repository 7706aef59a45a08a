import Shader.Fault

/-! What a module says of itself as a whole: the five words that open a binary, the
language it was compiled from, and the lists that are kept in declaration order,
repetitions included. -/

namespace Shader

/-- The fields that follow the magic number. -/
structure Header where
  version : Word
  generator : Word
  /-- One past the largest id of the module. -/
  bound : Word
  schema : Word
  deriving DecidableEq, Repr

namespace Header

def magic : Word := 0x07230203

def length : Nat := 5

def toWords (header : Header) : List Word :=
  [magic, header.version, header.generator, header.bound, header.schema]

/-- Reads the header in front of `words`. Too short an input is reported as such
whatever its first word is. -/
def parse : (words : List Word) → Except Fault Header
  | first :: version :: generator :: bound :: schema :: _ =>
    if first = magic then .ok { version, generator, bound, schema }
    else .error (.badMagic first)
  | words => .error (.truncatedHeader words.length)

/-- Major and minor version: the two middle bytes of the version word. -/
def versionPair (header : Header) : UInt8 × UInt8 :=
  ((header.version >>> 16).toUInt8, (header.version >>> 8).toUInt8)

end Header

/-! ### The source language, as far as output depends on it -/

structure Source where
  version : Word := 0
  /-- The embedded profile of the language. -/
  es : Bool := false
  known : Bool := false
  hlsl : Bool := false
  deriving DecidableEq, Repr

namespace Source

instance : Inhabited Source := ⟨{}⟩

/-- HLSL is treated as version 450 of GLSL, whatever version it declares. -/
def ofLanguage (language : SourceLanguage) (version : Word) : Source :=
  if language = .essl then { version, es := true, known := true }
  else if language = .glsl then { version, known := true }
  else if language = .hlsl then { version := 450, known := true, hlsl := true }
  else {}

end Source

/-! ### Declarations -/

structure Declarations where
  capabilities : List Capability := []
  extensions : List String := []
  globalVariables : List ResultId := []
  /-- Variables that share the storage of another object. -/
  aliasedVariables : List ResultId := []
  deriving DecidableEq, Repr

inductive Declaration where
  | capability (capability : Capability)
  | extension (name : String)
  | globalVariable (id : ResultId)
  | aliasedVariable (id : ResultId)
  deriving DecidableEq, Repr

namespace Declarations

instance : Inhabited Declarations := ⟨{}⟩

def add (declarations : Declarations) : Declaration → Declarations
  | .capability capability =>
    { declarations with capabilities := declarations.capabilities ++ [capability] }
  | .extension name => { declarations with extensions := declarations.extensions ++ [name] }
  | .globalVariable id =>
    { declarations with globalVariables := declarations.globalVariables ++ [id] }
  | .aliasedVariable id =>
    { declarations with aliasedVariables := declarations.aliasedVariables ++ [id] }

def hasCapability (declarations : Declarations) (capability : Capability) : Bool :=
  declarations.capabilities.contains capability

end Declarations

end Shader
