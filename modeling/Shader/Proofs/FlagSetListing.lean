import Mathlib.Data.Finset.Card
import Shader.FlagSet

/-! The listing of a flag set: each of its bits once, in ascending order. It rests on
the layout that every operation keeps, since a small bit in the sorted part would be
listed and counted but never found. -/

namespace Shader.FlagSet

variable {set other : FlagSet} {bit : Word} {bits : List Word}

/-! ### Layout -/

theorem split_empty : (∅ : FlagSet).Split :=
  fun _ member => (Std.ExtTreeSet.not_mem_empty member).elim

theorem split_ofLow (low : BitVec 64) : (ofLow low).Split :=
  fun _ member => (Std.ExtTreeSet.not_mem_empty member).elim

namespace Split

theorem insert (split : set.Split) (bit : Word) : (set.insert bit).Split := by
  rw [FlagSet.insert]
  split
  · exact split
  next large =>
    intro member listed
    rcases Std.ExtTreeSet.mem_insert.mp listed with same | known
    · rw [← Std.LawfulEqOrd.eq_of_compare same]
      exact Nat.not_lt.mp large
    · exact split member known

theorem erase (split : set.Split) (bit : Word) : (set.erase bit).Split := by
  rw [FlagSet.erase]
  split
  · exact split
  · exact fun member listed => split member (Std.ExtTreeSet.mem_of_mem_erase listed)

theorem union (split : set.Split) (also : other.Split) : (set ∪ other).Split := by
  intro member listed
  rw [high_union, Std.ExtTreeSet.mem_union_iff] at listed
  exact listed.elim (split member) (also member)

theorem inter (split : set.Split) (other : FlagSet) : (set ∩ other).Split := by
  intro member listed
  rw [high_inter, Std.ExtTreeSet.mem_inter_iff] at listed
  exact split member listed.1

private theorem foldl_insert (split : set.Split) (bits : List Word) :
    (bits.foldl FlagSet.insert set).Split := by
  induction bits generalizing set with
  | nil => exact split
  | cons bit bits ih => exact ih (split.insert bit)

end Split

theorem split_ofList (bits : List Word) : (ofList bits).Split := split_empty.foldl_insert bits

/-! ### Members -/

theorem mem_ofLow {low : BitVec 64} : bit ∈ ofLow low ↔ bit.toNat < 64 ∧ low.getLsbD bit.toNat = true := by
  by_cases small : bit.toNat < 64 <;> simp [mem_iff, contains, ofLow, small]

private theorem mem_foldl_insert : bit ∈ bits.foldl insert set ↔ bit ∈ bits ∨ bit ∈ set := by
  induction bits generalizing set with
  | nil => simp
  | cons first bits ih => rw [List.foldl_cons, ih, mem_insert, List.mem_cons, or_left_comm, or_assoc]

theorem mem_ofList : bit ∈ ofList bits ↔ bit ∈ bits := by
  simp [ofList, mem_foldl_insert]

theorem mem_iff_low (small : bit.toNat < 64) : bit ∈ set ↔ set.low.getLsbD bit.toNat = true := by
  rw [mem_iff, contains, if_pos small]

private theorem mem_iff_high (large : 64 ≤ bit.toNat) : bit ∈ set ↔ bit ∈ set.high := by
  rw [mem_iff, contains, if_neg (Nat.not_lt.mpr large), Std.ExtTreeSet.contains_iff_mem]

/-! ### Listing -/

/-- The part of the listing that is read off the low word. -/
def lowList (set : FlagSet) : List Word :=
  ((List.range 64).filter (set.low.getLsbD ·)).map UInt32.ofNat

private theorem toList_eq (set : FlagSet) : set.toList = set.lowList ++ set.high.toList := rfl

theorem toNat_ofNat_of_lt {index : Nat} (small : index < 64) : (UInt32.ofNat index).toNat = index :=
  UInt32.toNat_ofNat_of_lt' (Nat.lt_trans small (by decide))

/-- The bits of the low word, as the indices that name them. -/
theorem exists_index_iff {low : BitVec 64} :
    (∃ index, (index < 64 ∧ low.getLsbD index = true) ∧ UInt32.ofNat index = bit) ↔
      bit.toNat < 64 ∧ low.getLsbD bit.toNat = true := by
  constructor
  · rintro ⟨index, ⟨small, holds⟩, rfl⟩
    rw [toNat_ofNat_of_lt small]
    exact ⟨small, holds⟩
  · exact fun holds => ⟨bit.toNat, holds, UInt32.ofNat_toNat⟩

private theorem mem_lowList : bit ∈ set.lowList ↔ bit.toNat < 64 ∧ set.low.getLsbD bit.toNat = true := by
  simp only [lowList, List.mem_map, List.mem_filter, List.mem_range, exists_index_iff]

theorem mem_toList (split : set.Split) : bit ∈ set.toList ↔ bit ∈ set := by
  rw [toList_eq, List.mem_append, mem_lowList, Std.ExtTreeSet.mem_toList]
  by_cases small : bit.toNat < 64
  · have absent : bit ∉ set.high := fun listed => Nat.not_lt.mpr (split bit listed) small
    simp only [small, true_and, absent, or_false, mem_iff_low small]
  · simp only [small, false_and, false_or, mem_iff_high (Nat.not_lt.mp small)]

private theorem lowList_ascending (set : FlagSet) : set.lowList.Pairwise (· < ·) := by
  refine List.pairwise_map.mpr ?_
  refine (List.pairwise_lt_range.filter _).imp_of_mem ?_
  intro first second early late before
  have small : ∀ {index}, index ∈ (List.range 64).filter (set.low.getLsbD ·) → index < 64 :=
    fun member => List.mem_range.mp (List.mem_filter.mp member).1
  rwa [UInt32.lt_iff_toNat_lt, toNat_ofNat_of_lt (small early), toNat_ofNat_of_lt (small late)]

theorem toList_ascending (split : set.Split) : set.toList.Pairwise (· < ·) := by
  refine List.pairwise_append.mpr ⟨lowList_ascending set, ?_, ?_⟩
  · exact Std.ExtTreeSet.ordered_toList.imp fun before => Std.compare_eq_lt.mp before
  · intro first early second late
    have small := (mem_lowList.mp early).1
    have large := split second (Std.ExtTreeSet.mem_toList.mp late)
    exact UInt32.lt_iff_toNat_lt.mpr (Nat.lt_of_lt_of_le small large)

theorem nodup_toList (split : set.Split) : set.toList.Nodup :=
  (toList_ascending split).imp fun before => UInt32.ne_of_lt before

theorem toNat_cpop_eq_countP {width : Nat} (word : BitVec width) :
    word.cpop.toNat = (List.range width).countP (word.getLsbD ·) := by
  have upTo : ∀ count, word.cpopNatRec count 0 = (List.range count).countP (word.getLsbD ·) := by
    intro count
    induction count with
    | zero => rfl
    | succ count ih =>
      rw [BitVec.cpopNatRec_succ, BitVec.cpopNatRec_add, ih, List.range_succ, List.countP_append,
        List.countP_singleton]
      cases word.getLsbD count <;> rfl
  rw [BitVec.toNat_cpop, upTo]

/-- The size is counted without listing. -/
theorem length_toList (set : FlagSet) : set.toList.length = set.size := by
  rw [toList_eq, List.length_append, lowList, List.length_map, ← List.countP_eq_length_filter,
    Std.ExtTreeSet.length_toList, size, toNat_cpop_eq_countP]

/-! ### Equality -/

/-- A bit has one place only, so the members decide both parts. -/
theorem Split.eq_of_mem_iff (split : set.Split) (also : other.Split)
    (same : ∀ bit, bit ∈ set ↔ bit ∈ other) : set = other := by
  have low : set.low = other.low := by
    refine BitVec.eq_of_getLsbD_eq fun index small => Bool.eq_iff_iff.mpr ?_
    have place := toNat_ofNat_of_lt small
    have inside : (UInt32.ofNat index).toNat < 64 := by rwa [place]
    have agree := same (UInt32.ofNat index)
    rwa [mem_iff_low inside, mem_iff_low inside, place] at agree
  have high : set.high = other.high := by
    refine Std.ExtTreeSet.ext_mem fun bit => ?_
    by_cases small : bit.toNat < 64
    · exact iff_of_false (fun listed => Nat.not_lt.mpr (split bit listed) small)
        fun listed => Nat.not_lt.mpr (also bit listed) small
    · rw [← mem_iff_high (Nat.not_lt.mp small), same, mem_iff_high (Nat.not_lt.mp small)]
  cases set
  cases other
  cases low
  cases high
  rfl

theorem isEmpty_iff_eq_empty : set.isEmpty = true ↔ set = ∅ := by
  rw [isEmpty, Bool.and_eq_true, beq_iff_eq, Std.ExtTreeSet.isEmpty_iff]
  constructor
  · intro empty
    cases set
    cases empty.1
    cases empty.2
    rfl
  · rintro rfl
    exact ⟨rfl, rfl⟩

theorem isEmpty_iff_forall (split : set.Split) : set.isEmpty = true ↔ ∀ bit, bit ∉ set := by
  rw [isEmpty_iff_eq_empty]
  constructor
  · rintro rfl
    exact fun _ => not_mem_empty
  · exact fun none => split.eq_of_mem_iff split_empty fun bit => iff_of_false (none bit) not_mem_empty

end Shader.FlagSet
