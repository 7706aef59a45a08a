import Std.Data.ExtTreeMap
import Std.Data.ExtTreeSet

/-! Result ids: the numbers by which the entities of one module refer to each
other. They are ordered by their word, so sets and maps of ids list ascending.
What is recorded per id stands in arrays that only grow. -/

namespace Shader

/-- A word of a binary module. -/
abbrev Word := UInt32

structure ResultId where
  word : Word
  deriving DecidableEq, Repr

namespace ResultId

/-- No module defines id 0; it stands where an id is missing. -/
def null : ResultId := ⟨0⟩

instance : Inhabited ResultId := ⟨null⟩

def isNull (id : ResultId) : Bool := id == null

/-- The slot an id addresses. -/
def index (id : ResultId) : Nat := id.word.toNat

/-- The id of a slot. Slots are numbered below `UInt32.size`. -/
def ofIndex (index : Nat) : ResultId := ⟨UInt32.ofNat index⟩

@[simp] theorem ofIndex_index (id : ResultId) : ofIndex id.index = id := by
  simp [ofIndex, index]

theorem index_ofIndex {index : Nat} (small : index < UInt32.size) : (ofIndex index).index = index :=
  UInt32.toNat_ofNat'.trans (Nat.mod_eq_of_lt small)

theorem index_inj {a b : ResultId} : a.index = b.index ↔ a = b := by
  refine ⟨fun same => ?_, congrArg index⟩
  rw [← ofIndex_index a, same, ofIndex_index]

instance : ToString ResultId := ⟨fun id => s!"%{id.index}"⟩

/-- The diagnostic form, which names the type. -/
def inspect (id : ResultId) : String := s!"Id({id.index})"

instance : Ord ResultId := ⟨compareOn word⟩

instance : Std.TransOrd ResultId :=
  inferInstanceAs (Std.TransCmp (compareOn word))

instance : Std.LawfulEqOrd ResultId where
  eq_of_compare {a b} same := by
    cases a; cases b
    exact congrArg ResultId.mk (Std.LawfulEqOrd.eq_of_compare same)

instance : LT ResultId := ⟨fun a b => a.word < b.word⟩

instance (a b : ResultId) : Decidable (a < b) := inferInstanceAs (Decidable (a.word < b.word))

theorem lt_iff_index {a b : ResultId} : a < b ↔ a.index < b.index := UInt32.lt_iff_toNat_lt

theorem compare_eq_lt {a b : ResultId} : compare a b = .lt ↔ a < b :=
  Std.compare_eq_lt (a := a.word) (b := b.word)

end ResultId

abbrev IdSet := Std.ExtTreeSet ResultId
abbrev IdMap (α : Type) := Std.ExtTreeMap ResultId α

/-! ### Growth

What is already there stays in place, and a request for fewer entries than there
are changes nothing. -/

variable {α : Type} [Inhabited α]

def grow (items : Array α) (size : Nat) : Array α :=
  items ++ Array.replicate (size - items.size) default

@[simp] theorem size_grow (items : Array α) (size : Nat) :
    (grow items size).size = max items.size size := by
  simp [grow]; omega

theorem getElem?_grow (items : Array α) (size index : Nat) :
    (grow items size)[index]? =
      if index < items.size then items[index]? else if index < size then some default else none := by
  simp only [grow, Array.getElem?_append, Array.getElem?_replicate]
  split
  · rfl
  · congr 1
    apply propext
    omega

end Shader
