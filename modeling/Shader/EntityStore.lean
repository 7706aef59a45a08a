import Shader.Fault

/-! The entities of a module, one slot per id. A slot takes any kind while it is
empty; afterwards its payload may change but its kind may not. -/

namespace Shader

structure EntityStore where
  slots : Array Slot := #[]
  deriving DecidableEq

namespace EntityStore

instance : Inhabited EntityStore := ⟨{}⟩

def size (store : EntityStore) : Nat := store.slots.size

def growTo (store : EntityStore) (size : Nat) : EntityStore := ⟨grow store.slots size⟩

def slot (store : EntityStore) (id : ResultId) : Except Fault Slot :=
  match store.slots[id.index]? with
  | some slot => .ok slot
  | none => .error (.outOfBounds id store.size)

/-- The kind at `id`: none where the slot is empty or missing. -/
def kind? (store : EntityStore) (id : ResultId) : Option Kind :=
  store.slots[id.index]?.bind Slot.kind?

/-- The payload at `id`, which has to be of the kind asked for. -/
def fetch (store : EntityStore) (id : ResultId) (kind : Kind) : Except Fault kind.Payload :=
  match store.slot id with
  | .error fault => .error fault
  | .ok slot =>
    match slot.as? kind with
    | some payload => .ok payload
    | none => .error (.wrongKind id kind slot.kind?)

def find? (store : EntityStore) (id : ResultId) (kind : Kind) : Option kind.Payload :=
  store.slots[id.index]?.bind (Slot.as? kind)

def write (store : EntityStore) (id : ResultId) (entity : Entity) : EntityStore :=
  ⟨store.slots.setIfInBounds id.index (some entity)⟩

/-- Stores a payload where the slot is empty or of the same kind. -/
def put (store : EntityStore) (id : ResultId) (kind : Kind) (payload : kind.Payload) :
    Except Fault EntityStore :=
  match store.slot id with
  | .error fault => .error fault
  | .ok slot =>
    if slot.all (·.kind = kind) then .ok (store.write id ⟨kind, payload⟩)
    else .error (.kindChange id slot.kind? kind)

def modify (store : EntityStore) (id : ResultId) (kind : Kind)
    (change : kind.Payload → kind.Payload) : Except Fault EntityStore :=
  match store.slot id with
  | .error fault => .error fault
  | .ok slot =>
    match slot.modify? kind change with
    | some entity => .ok (store.write id entity)
    | none => .error (.wrongKind id kind slot.kind?)

def entries (store : EntityStore) : List (ResultId × Entity) :=
  store.slots.toList.zipIdx.filterMap fun (slot, index) => slot.map (.ofIndex index, ·)

/-- The payloads of one kind, by ascending id. -/
def ofKind (store : EntityStore) (kind : Kind) : List (ResultId × kind.Payload) :=
  store.slots.toList.zipIdx.filterMap fun (slot, index) =>
    (slot.as? kind).map (.ofIndex index, ·)

def foldKind {σ : Type} (store : EntityStore) (kind : Kind) (visit : σ → ResultId → kind.Payload → σ)
    (start : σ) : σ :=
  (store.ofKind kind).foldl (fun state (id, payload) => visit state id payload) start

/-! ### Array lengths

Marking the constants an array length is computed from. The walk keeps the
ids still to visit, the next one first; an operation is replaced by its
arguments, the last one first. It stops at the first id that cannot supply a
length, and the marks set until then remain. -/

/-- One visit: what to visit because of it, and the store with its mark. -/
def visit (store : EntityStore) (id : ResultId) : Except Fault (List ResultId × EntityStore) :=
  match store.slot id with
  | .error fault => .error fault
  | .ok (some ⟨.constant, constant⟩) =>
    .ok ([], store.write id ⟨.constant, { constant with isArrayLength := true }⟩)
  | .ok (some ⟨.constantOp, op⟩) => .ok (op.arguments.reverse, store)
  | .ok (some ⟨.undef, _⟩) => .ok ([], store)
  | .ok slot => .error (.wrongKind id (some .constant) slot.kind?)

/-- Visits the pending ids; none if that takes more than `visits` visits. -/
def drain (store : EntityStore) : (visits : Nat) → (pending : List ResultId) →
    Option (Outcome EntityStore)
  | _, [] => some (.done store)
  | 0, _ :: _ => none
  | visits + 1, id :: rest =>
    match store.visit id with
    | .error fault => some { state := store, fault? := some fault }
    | .ok (next, store) => store.drain visits (next ++ rest)

/-- Enough visits for every walk that ends: it descends at most once through
each operation, into at most as many arguments as the widest one has. -/
def visitLimit (store : EntityStore) : Nat :=
  let widths := (store.ofKind .constantOp).map fun (_, op) => op.arguments.length
  (widths.foldl max 0 + 1).pow widths.length

def markArrayLength (store : EntityStore) (id : ResultId) : Outcome EntityStore :=
  (store.drain store.visitLimit [id]).getD { state := store, fault? := some (.argumentCycle id) }

def arrayLengths (store : EntityStore) : List ResultId :=
  (store.ofKind .constant).filterMap fun (id, constant) =>
    if constant.isArrayLength then some id else none

/-! ### The type behind a variable

Pointers and arrays are followed to what they are made of. -/

/-- The first type from `id` on that is neither pointer nor array; none if
finding it takes more than `reads` reads. -/
def resolve (store : EntityStore) : (reads : Nat) → (id : ResultId) →
    Option (Except Fault ResultId)
  | 0, _ => none
  | reads + 1, id =>
    match store.fetch id .type with
    | .error fault => some (.error fault)
    | .ok type => if type.isIndirect then store.resolve reads type.parent else some (.ok id)

/-- A chain that does not close reads each slot at most once, and then at most
one id that is out of bounds. -/
def blockType (store : EntityStore) (var : Variable) : Except Fault ResultId :=
  (store.resolve (store.size + 1) var.type).getD (.error (.typeCycle var.type))

/-! ### Edits -/

inductive Edit where
  | put (id : ResultId) (kind : Kind) (payload : kind.Payload)
  | modify (id : ResultId) (kind : Kind) (change : kind.Payload → kind.Payload)
  | markArrayLength (id : ResultId)

def perform (store : EntityStore) : Edit → Outcome EntityStore
  | .put id kind payload => .ofExcept store (store.put id kind payload)
  | .modify id kind change => .ofExcept store (store.modify id kind change)
  | .markArrayLength id => store.markArrayLength id

end EntityStore

end Shader
