import Shader.Fault

/-! What the merge instructions of a module say about its blocks: which block
plays which role, and to which loop a continue target belongs. -/

namespace Shader

inductive Role where
  | loopHeader | continueTarget | loopMerge | selectionMerge | switchMerge
  deriving DecidableEq, Repr

namespace Role

/-- In the order of their bits. -/
def all : List Role := [.loopHeader, .continueTarget, .loopMerge, .selectionMerge, .switchMerge]

def bit : Role → Nat
  | .loopHeader => 0
  | .continueTarget => 1
  | .loopMerge => 2
  | .selectionMerge => 3
  | .switchMerge => 4

def label : Role → String
  | .loopHeader => "LOOP_HEADER"
  | .continueTarget => "CONTINUE"
  | .loopMerge => "LOOP_MERGE"
  | .selectionMerge => "SELECTION_MERGE"
  | .switchMerge => "MULTISELECT_MERGE"

theorem mem_all (role : Role) : role ∈ all := by
  cases role <;> decide

end Role

structure Roles where
  bits : BitVec 5
  deriving DecidableEq, Repr

namespace Roles

instance : EmptyCollection Roles := ⟨⟨0⟩⟩
instance : Union Roles := ⟨fun a b => ⟨a.bits ||| b.bits⟩⟩
instance : Inter Roles := ⟨fun a b => ⟨a.bits &&& b.bits⟩⟩
instance : SDiff Roles := ⟨fun a b => ⟨a.bits &&& ~~~ b.bits⟩⟩
instance : XorOp Roles := ⟨fun a b => ⟨a.bits ^^^ b.bits⟩⟩
instance : Complement Roles := ⟨fun a => ⟨~~~ a.bits⟩⟩
instance : HasSubset Roles := ⟨fun a b => a ∩ b = a⟩

instance (a b : Roles) : Decidable (a ⊆ b) := inferInstanceAs (Decidable (a ∩ b = a))

def select (holds : Role → Bool) : Roles := ⟨.ofBoolListLE
  [holds .loopHeader, holds .continueTarget, holds .loopMerge, holds .selectionMerge,
    holds .switchMerge]⟩

def full : Roles := ⟨.allOnes 5⟩

/-- The roles of a block that some construct ends at. -/
def anyMerge : Roles :=
  select fun role => role matches .loopMerge | .selectionMerge | .switchMerge

/-- Refuses bits that name no role. -/
def ofBits? (bits : Nat) : Option Roles := if bits < 32 then some ⟨.ofNat 5 bits⟩ else none

/-- Drops bits that name no role. -/
def truncate (bits : Nat) : Roles := ⟨.ofNat 5 bits⟩

def contains (roles : Roles) (role : Role) : Bool := roles.bits.getLsbD role.bit

def toList (roles : Roles) : List Role := Role.all.filter roles.contains

def size (roles : Roles) : Nat := roles.bits.cpop.toNat

@[simp] theorem contains_select (holds : Role → Bool) (role : Role) :
    (select holds).contains role = holds role := by
  cases role <;> exact BitVec.getLsbD_ofBoolListLE

end Roles

/-! ### The roles of all blocks -/

structure ControlFlow where
  loopHeaders : IdSet := ∅
  continueTargets : IdSet := ∅
  loopMerges : IdSet := ∅
  selectionMerges : IdSet := ∅
  switchMerges : IdSet := ∅
  /-- The loop header of each continue target that has been linked. -/
  headerOf : IdMap ResultId := ∅
  deriving DecidableEq

namespace ControlFlow

instance : Inhabited ControlFlow := ⟨{}⟩

def blocks (flow : ControlFlow) : Role → IdSet
  | .loopHeader => flow.loopHeaders
  | .continueTarget => flow.continueTargets
  | .loopMerge => flow.loopMerges
  | .selectionMerge => flow.selectionMerges
  | .switchMerge => flow.switchMerges

def roles (flow : ControlFlow) (block : ResultId) : Roles :=
  .select fun role => (flow.blocks role).contains block

/-- The blocks of all roles together, as often as they play one. -/
def ids (flow : ControlFlow) : List ResultId :=
  Role.all.flatMap fun role => (flow.blocks role).toList

def insert (flow : ControlFlow) (block : ResultId) : Role → ControlFlow
  | .loopHeader => { flow with loopHeaders := flow.loopHeaders.insert block }
  | .continueTarget => { flow with continueTargets := flow.continueTargets.insert block }
  | .loopMerge => { flow with loopMerges := flow.loopMerges.insert block }
  | .selectionMerge => { flow with selectionMerges := flow.selectionMerges.insert block }
  | .switchMerge => { flow with switchMerges := flow.switchMerges.insert block }

inductive Edit where
  | insert (role : Role) (block : ResultId)
  | link (target header : ResultId)
  /-- A loop merge in `header`. -/
  | loop (header merge target : ResultId)
  /-- The merge of a two-way branch. -/
  | selection (merge : ResultId)
  | switch (merge : ResultId)
  deriving DecidableEq, Repr

/-- Links a continue target to its loop. Both have to be known in their roles. -/
def link (flow : ControlFlow) (target header : ResultId) : Except Fault ControlFlow :=
  if target ∉ flow.continueTargets then .error (.unlistedContinue target)
  else if header ∉ flow.loopHeaders then .error (.unlistedHeader target header)
  else .ok { flow with headerOf := flow.headerOf.insert target header }

/-- A header that is its own continue target gets no continue entry: a branch
back to it enters the loop and does not continue it. -/
def addLoop (flow : ControlFlow) (header merge target : ResultId) : ControlFlow :=
  let flow := (flow.insert header .loopHeader).insert merge .loopMerge
  if target = header then flow
  else
    { flow.insert target .continueTarget with headerOf := flow.headerOf.insert target header }

/-- A switch is announced by a selection merge, which it takes over. -/
def addSwitch (flow : ControlFlow) (merge : ResultId) : ControlFlow :=
  { flow.insert merge .switchMerge with
    selectionMerges := flow.selectionMerges.erase merge }

def apply (flow : ControlFlow) : Edit → Except Fault ControlFlow
  | .insert role block => .ok (flow.insert block role)
  | .link target header => flow.link target header
  | .loop header merge target => .ok (flow.addLoop header merge target)
  | .selection merge => .ok (flow.insert merge .selectionMerge)
  | .switch merge => .ok (flow.addSwitch merge)

/-! ### Soundness

Links lead from continue targets to loop headers, and no block is a merge of two
sorts. Faults are looked for by ascending id, so the one reported does not depend
on how the flow was built. -/

def linkFault? (flow : ControlFlow) : Option Fault :=
  flow.headerOf.toList.findSome? fun (target, header) =>
    if target ∉ flow.continueTargets then some (.unlistedContinue target)
    else if header ∉ flow.loopHeaders then some (.unlistedHeader target header)
    else none

/-- A block with two merge roles is a loop merge or a selection merge, so the
switch merges need no visit of their own. -/
def overlap? (flow : ControlFlow) : Option ResultId :=
  (flow.loopMerges ∪ flow.selectionMerges).toList.find? fun block =>
    1 < (flow.roles block ∩ .anyMerge).size

def fault? (flow : ControlFlow) : Option Fault :=
  flow.linkFault?.or (flow.overlap?.map .mergeOverlap)

/-- The least block that is not below the bound. -/
def stray? (flow : ControlFlow) (bound : Nat) : Option ResultId :=
  (Std.ExtTreeSet.ofList flow.ids).toList.find? fun block => bound ≤ block.index

end ControlFlow

end Shader
