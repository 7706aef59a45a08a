import Shader.Enumerant

/-! Sets of flag bits. Bits below 64 share one machine word, and the few larger
ones, which vendor enumerants use, live in a sorted set. A bit has one place
only, so sets with the same members are equal. -/

namespace Shader

structure FlagSet where
  low : BitVec 64 := 0
  high : Std.ExtTreeSet Word := ∅
  deriving DecidableEq

namespace FlagSet

instance : EmptyCollection FlagSet := ⟨{}⟩
instance : Inhabited FlagSet := ⟨∅⟩

/-- No bit of the low word is repeated in the sorted part. -/
def Split (set : FlagSet) : Prop := ∀ bit ∈ set.high, 64 ≤ bit.toNat

def ofLow (low : BitVec 64) : FlagSet := { low }

def contains (set : FlagSet) (bit : Word) : Bool :=
  if bit.toNat < 64 then set.low.getLsbD bit.toNat else set.high.contains bit

instance : Membership Word FlagSet := ⟨fun set bit => set.contains bit⟩

instance (bit : Word) (set : FlagSet) : Decidable (bit ∈ set) :=
  inferInstanceAs (Decidable (set.contains bit = true))

def insert (set : FlagSet) (bit : Word) : FlagSet :=
  if bit.toNat < 64 then { set with low := set.low ||| .twoPow 64 bit.toNat }
  else { set with high := set.high.insert bit }

def erase (set : FlagSet) (bit : Word) : FlagSet :=
  if bit.toNat < 64 then { set with low := set.low &&& ~~~ .twoPow 64 bit.toNat }
  else { set with high := set.high.erase bit }

/-- The set with the bit in it or without. -/
def put (set : FlagSet) (bit : Word) (present : Bool) : FlagSet :=
  if present then set.insert bit else set.erase bit

instance : Union FlagSet := ⟨fun a b => ⟨a.low ||| b.low, a.high ∪ b.high⟩⟩
instance : Inter FlagSet := ⟨fun a b => ⟨a.low &&& b.low, a.high ∩ b.high⟩⟩

def ofList (bits : List Word) : FlagSet := bits.foldl insert ∅

/-- The bits in all of the sets; none where there is no set. -/
def common : List FlagSet → FlagSet
  | [] => ∅
  | set :: rest => rest.foldl (· ∩ ·) set

def isEmpty (set : FlagSet) : Bool := set.low == 0 && set.high.isEmpty

def size (set : FlagSet) : Nat := set.low.cpop.toNat + set.high.size

def toList (set : FlagSet) : List Word :=
  ((List.range 64).filter (set.low.getLsbD ·)).map UInt32.ofNat ++ set.high.toList

/-- Passes each bit to `visit`, ascending. -/
def foldl {σ : Type} (set : FlagSet) (visit : σ → Word → σ) (start : σ) : σ :=
  set.toList.foldl visit start

variable {set other : FlagSet} {bit flag : Word}

theorem mem_iff : bit ∈ set ↔ set.contains bit = true := Iff.rfl

@[simp] theorem low_empty : (∅ : FlagSet).low = 0 := rfl
@[simp] theorem high_empty : (∅ : FlagSet).high = ∅ := rfl
@[simp] theorem low_union : (set ∪ other).low = set.low ||| other.low := rfl
@[simp] theorem high_union : (set ∪ other).high = set.high ∪ other.high := rfl
@[simp] theorem low_inter : (set ∩ other).low = set.low &&& other.low := rfl
@[simp] theorem high_inter : (set ∩ other).high = set.high ∩ other.high := rfl

@[simp] theorem not_mem_empty : bit ∉ (∅ : FlagSet) := by
  simp [mem_iff, contains]

theorem mem_put (present : Bool) :
    bit ∈ set.put flag present ↔ if bit = flag then present = true else bit ∈ set := by
  by_cases same : bit = flag
  · subst same
    by_cases small : bit.toNat < 64 <;> cases present <;> simp [mem_iff, contains, put, insert, erase, small]
  · have apart : bit.toNat ≠ flag.toNat := fun equal => same (UInt32.toNat_inj.mp equal)
    by_cases small : bit.toNat < 64 <;> by_cases low : flag.toNat < 64 <;> cases present <;>
      simp [mem_iff, contains, put, insert, erase, small, low, same, Ne.symm same, apart]

@[simp] theorem mem_insert : bit ∈ set.insert flag ↔ bit = flag ∨ bit ∈ set := by
  refine (mem_put true).trans ?_
  by_cases same : bit = flag <;> simp [same]

@[simp] theorem mem_erase : bit ∈ set.erase flag ↔ bit ≠ flag ∧ bit ∈ set := by
  refine (mem_put false).trans ?_
  by_cases same : bit = flag <;> simp [same]

@[simp] theorem mem_union : bit ∈ set ∪ other ↔ bit ∈ set ∨ bit ∈ other := by
  by_cases small : bit.toNat < 64 <;> simp [mem_iff, contains, small]

@[simp] theorem mem_inter : bit ∈ set ∩ other ↔ bit ∈ set ∧ bit ∈ other := by
  by_cases small : bit.toNat < 64 <;> simp [mem_iff, contains, small]

end FlagSet

end Shader
