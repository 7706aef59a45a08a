import Mathlib.Data.Finset.Lattice.Basic
import Mathlib.Data.Finset.Range
import Mathlib.Data.List.Dedup
import Mathlib.Data.List.Sort
import Shader.Proofs.FlagSetListing

/-! Any number of flag sets, changed alone and by one another. Each of them answers for
the finite set that the same changes give when they are made to finite sets of words.
Where the bits of a set are kept depends on which they are and not on how they got there,
so sets that answer alike are one set, however they were built. -/

namespace Shader.FlagSet

/-- A change to one set, in which others of the bank may take part. -/
inductive Change (ι : Type) where
  | new
  | ofLow (low : BitVec 64)
  | ofList (bits : List Word)
  | insert (bit : Word)
  | erase (bit : Word)
  | reset
  | union (other : ι)
  | inter (other : ι)
  | copy (source : ι)
  deriving DecidableEq, Repr

structure Edit (ι : Type) where
  target : ι
  change : Change ι
  deriving DecidableEq, Repr

section Bank

variable {ι : Type}

def change (bank : ι → FlagSet) (set : FlagSet) : Change ι → FlagSet
  | .new | .reset => ∅
  | .ofLow low => .ofLow low
  | .ofList bits => .ofList bits
  | .insert bit => set.insert bit
  | .erase bit => set.erase bit
  | .union other => set ∪ bank other
  | .inter other => set ∩ bank other
  | .copy source => bank source

def lowMembers (low : BitVec 64) : Finset Word :=
  ((Finset.range 64).filter fun index => low.getLsbD index = true).image UInt32.ofNat

def changeMembers (bank : ι → Finset Word) (members : Finset Word) : Change ι → Finset Word
  | .new | .reset => ∅
  | .ofLow low => lowMembers low
  | .ofList bits => bits.toFinset
  | .insert bit => Insert.insert bit members
  | .erase bit => members.erase bit
  | .union other => members ∪ bank other
  | .inter other => members ∩ bank other
  | .copy source => bank source

variable {σ : Type} [DecidableEq ι]

/-- An edit to a bank of sets of either sort, one set for each name. -/
def editBank (change : (ι → σ) → σ → Change ι → σ) (bank : ι → σ) (edit : Edit ι) : ι → σ :=
  Function.update bank edit.target (change bank (bank edit.target) edit.change)

def runBank (change : (ι → σ) → σ → Change ι → σ) (bank : ι → σ) (edits : List (Edit ι)) : ι → σ :=
  edits.foldl (editBank change) bank

end Bank

structure Represents (set : FlagSet) (members : Finset Word) : Prop where
  split : set.Split
  mem : ∀ bit, bit ∈ set ↔ bit ∈ members

private theorem mem_lowMembers {low : BitVec 64} {bit : Word} :
    bit ∈ lowMembers low ↔ bit.toNat < 64 ∧ low.getLsbD bit.toNat = true := by
  simp only [lowMembers, Finset.mem_image, Finset.mem_filter, Finset.mem_range, exists_index_iff]

namespace Represents

variable {ι : Type} {sets : ι → FlagSet} {finite : ι → Finset Word} {set : FlagSet} {members : Finset Word}

private theorem empty : Represents ∅ ∅ where
  split := split_empty
  mem bit := by simp

private theorem change (bank : ∀ name, Represents (sets name) (finite name))
    (represents : Represents set members)
    (change : Change ι) : Represents (FlagSet.change sets set change) (changeMembers finite members change) := by
  cases change with
  | new | reset => exact empty
  | ofLow low => exact ⟨split_ofLow low, fun bit => mem_ofLow.trans mem_lowMembers.symm⟩
  | ofList bits => exact ⟨split_ofList bits, fun bit => mem_ofList.trans List.mem_toFinset.symm⟩
  | insert flag =>
    refine ⟨represents.split.insert flag, fun bit => ?_⟩
    rw [FlagSet.change, changeMembers, mem_insert, Finset.mem_insert, represents.mem]
  | erase flag =>
    refine ⟨represents.split.erase flag, fun bit => ?_⟩
    rw [FlagSet.change, changeMembers, mem_erase, Finset.mem_erase, represents.mem]
  | union other =>
    refine ⟨represents.split.union (bank other).split, fun bit => ?_⟩
    rw [FlagSet.change, changeMembers, mem_union, Finset.mem_union, represents.mem, (bank other).mem]
  | inter other =>
    refine ⟨represents.split.inter _, fun bit => ?_⟩
    rw [FlagSet.change, changeMembers, mem_inter, Finset.mem_inter, represents.mem, (bank other).mem]
  | copy source => exact bank source

private theorem edit [DecidableEq ι] (bank : ∀ name, Represents (sets name) (finite name)) (edit : Edit ι)
    (name : ι) : Represents (editBank FlagSet.change sets edit name) (editBank changeMembers finite edit name) := by
  rw [editBank, editBank]
  by_cases target : name = edit.target
  · subst target
    rw [Function.update_self, Function.update_self]
    exact (bank edit.target).change bank edit.change
  · rw [Function.update_of_ne target, Function.update_of_ne target]
    exact bank name

theorem run [DecidableEq ι] (bank : ∀ name, Represents (sets name) (finite name)) (edits : List (Edit ι)) :
    ∀ name, Represents (runBank FlagSet.change sets edits name) (runBank changeMembers finite edits name) := by
  induction edits generalizing sets finite with
  | nil => exact bank
  | cons edit edits ih => exact ih (Represents.edit bank edit)

end Represents

structure Answers (set : FlagSet) (members : Finset Word) : Prop where
  split : ∀ bit ∈ set.high, 64 ≤ bit.toNat
  contains : ∀ bit, set.contains bit = decide (bit ∈ members)
  size : set.size = members.card
  isEmpty : set.isEmpty = decide (members = ∅)
  low : ∀ index < 64, set.low.getLsbD index = decide (UInt32.ofNat index ∈ members)
  ascending : set.toList.Pairwise (· < ·)
  listed : ∀ bit, bit ∈ set.toList ↔ bit ∈ members
  visited : set.foldl (fun seen bit => seen ++ [bit]) [] = set.toList

theorem Represents.answers {set : FlagSet} {members : Finset Word} (represents : Represents set members) :
    Answers set members where
  split := represents.split
  contains bit := Bool.eq_iff_iff.mpr ((represents.mem bit).trans decide_eq_true_iff.symm)
  size := by
    have same : set.toList.toFinset = members := by
      ext bit
      rw [List.mem_toFinset, mem_toList represents.split, represents.mem]
    rw [← same, List.toFinset_card_of_nodup (nodup_toList represents.split), length_toList]
  isEmpty := by
    refine Bool.eq_iff_iff.mpr ((isEmpty_iff_forall represents.split).trans ?_)
    simp only [represents.mem, decide_eq_true_iff, Finset.eq_empty_iff_forall_notMem]
  low index small := by
    have place := toNat_ofNat_of_lt small
    have inside : (UInt32.ofNat index).toNat < 64 := by rwa [place]
    refine Bool.eq_iff_iff.mpr ?_
    rw [decide_eq_true_iff, ← represents.mem, mem_iff_low inside, place]
  ascending := toList_ascending represents.split
  listed bit := (mem_toList represents.split).trans (represents.mem bit)
  visited := by
    rw [foldl, List.foldl_append_eq_append, List.nil_append, ← List.flatMap_def, List.flatMap_singleton']

/-- Whichever changes were made to the sets of a bank, each answers for the finite set
that the same changes give. -/
theorem bank_answers {ι : Type} [DecidableEq ι] (edits : List (Edit ι)) (name : ι) :
    Answers (runBank change (fun _ => ∅) edits name) (runBank changeMembers (fun _ => ∅) edits name) :=
  (Represents.run (fun _ => .empty) edits name).answers

/-- Bits on both sides of the layout's border, taken over by a union and met by a copy. -/
example : (runBank change (fun _ => ∅) [⟨0, .ofLow 0x8000000000000001⟩, ⟨1, .ofList [64, 63, 64]⟩,
    ⟨0, .union 1⟩, ⟨0, .erase 0⟩, ⟨2, .copy 0⟩, ⟨2, .insert 5635⟩, ⟨1, .inter 2⟩] 2).toList =
      [63, 64, 5635] := by decide

/-! ### Equality -/

variable {set other : FlagSet} {bits more : List Word}

theorem Split.eq_iff_contains (split : set.Split) (also : other.Split) :
    set = other ↔ ∀ bit, set.contains bit = other.contains bit := by
  constructor
  · rintro rfl bit
    rfl
  · intro same
    refine split.eq_of_mem_iff also fun bit => ?_
    rw [mem_iff, mem_iff, same]

theorem Split.ofList_toList (split : set.Split) : ofList set.toList = set :=
  (split_ofList _).eq_of_mem_iff split fun _ => mem_ofList.trans (mem_toList split)

theorem ofList_eq_iff : ofList more = ofList bits ↔ ∀ bit, bit ∈ more ↔ bit ∈ bits := by
  constructor
  · intro same bit
    rw [← mem_ofList, same, mem_ofList]
  · intro same
    refine (split_ofList more).eq_of_mem_iff (split_ofList bits) fun bit => ?_
    rw [mem_ofList, mem_ofList, same]

theorem toList_ofList (bits : List Word) : (ofList bits).toList = bits.dedup.mergeSort (· ≤ ·) := by
  have split := split_ofList bits
  have ascending := (toList_ascending split).imp UInt32.le_of_lt
  have sorted : (bits.dedup.mergeSort (· ≤ ·)).Pairwise (· ≤ ·) := List.pairwise_mergeSort' _ _
  have once : (bits.dedup.mergeSort (· ≤ ·)).Nodup := List.nodup_mergeSort.mpr bits.nodup_dedup
  refine List.Perm.eq_of_pairwise' ascending sorted ?_
  refine (List.perm_ext_iff_of_nodup (nodup_toList split) once).mpr fun bit => ?_
  rw [mem_toList split, mem_ofList, List.mem_mergeSort, List.mem_dedup]

/-- The set of one name after edits to a bank of empty sets. -/
def built {ι : Type} [DecidableEq ι] (edits : List (Edit ι)) (name : ι) : FlagSet :=
  runBank change (fun _ => ∅) edits name

theorem split_built {ι : Type} [DecidableEq ι] (edits : List (Edit ι)) (name : ι) :
    (built edits name).Split :=
  (Represents.run (fun _ => .empty) edits name).split

/-- Sets that were built in any two ways are equal if they answer alike for every bit. Each
is what its listing collects to, and a list collects to the set of its bits, which
lists them in order. -/
theorem built_canonical {ι κ : Type} [DecidableEq ι] [DecidableEq κ] (edits : List (Edit ι)) (name : ι)
    (others : List (Edit κ)) (other : κ) (bits : List Word) :
    (built edits name = built others other ↔
      ∀ bit, (built edits name).contains bit = (built others other).contains bit) ∧
    ofList (built edits name).toList = built edits name ∧
    (∀ more, ofList more = ofList bits ↔ ∀ bit, bit ∈ more ↔ bit ∈ bits) ∧
    (ofList bits).toList = bits.dedup.mergeSort (· ≤ ·) :=
  ⟨(split_built edits name).eq_iff_contains (split_built others other),
    (split_built edits name).ofList_toList, fun _ => ofList_eq_iff, toList_ofList bits⟩

end Shader.FlagSet
