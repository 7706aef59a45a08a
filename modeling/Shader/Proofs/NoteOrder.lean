import Shader.Proofs.NoteHistory
import Shader.Proofs.StoreGrowth

/-! How far a note depends on the order of its edits. An edit is about the name or about one
decoration, and works on what is kept for that and on nothing else. So edits about different
things commute, and an edit made twice in a row has done its work the first time. Records are
compared as they are laid out, flag words and operand maps included. -/

namespace Shader

namespace FlagSet

variable {set other : FlagSet} {bit flag : Word}

private theorem getLsbD_low_put (present : Bool) {index : Nat} (small : index < 64) :
    (set.put bit present).low.getLsbD index =
      if bit.toNat = index then present else set.low.getLsbD index := by
  by_cases same : bit.toNat = index
  · subst same
    cases present <;> simp [put, insert, erase, small]
  · by_cases low : bit.toNat < 64 <;> cases present <;>
      simp [put, insert, erase, low, small, same, Ne.symm same]

private theorem mem_high_put (present : Bool) : flag ∈ (set.put bit present).high ↔
    if bit = flag ∧ 64 ≤ bit.toNat then present = true else flag ∈ set.high := by
  by_cases low : bit.toNat < 64
  · have few : ¬ (bit = flag ∧ 64 ≤ bit.toNat) := fun large => Nat.not_lt.mpr large.2 low
    cases present <;> simp [put, insert, erase, low, few]
  · by_cases same : bit = flag
    · subst same
      cases present <;> simp [put, insert, erase, low, Nat.not_lt.mp low]
    · cases present <;> simp [put, insert, erase, low, same]

/-- Sets are equal if their words agree in every place. -/
private theorem ext_places (low : ∀ index < 64, set.low.getLsbD index = other.low.getLsbD index)
    (high : ∀ flag, flag ∈ set.high ↔ flag ∈ other.high) : set = other := by
  cases set
  cases other
  cases BitVec.eq_of_getLsbD_eq low
  cases Std.ExtTreeSet.ext_mem high
  rfl

theorem put_comm (apart : bit ≠ flag) (one two : Bool) :
    (set.put bit one).put flag two = (set.put flag two).put bit one := by
  refine ext_places (fun index small => ?_) fun other => ?_
  · have places : ¬ (bit.toNat = index ∧ flag.toNat = index) :=
      fun both => apart (UInt32.toNat_inj.mp (both.1.trans both.2.symm))
    simp only [getLsbD_low_put _ small]
    grind
  · simp only [mem_high_put]
    grind

theorem put_put (present : Bool) : (set.put bit present).put bit present = set.put bit present := by
  refine ext_places (fun index small => ?_) fun other => ?_
  · simp only [getLsbD_low_put _ small]
    grind
  · simp only [mem_high_put]
    grind

end FlagSet

namespace Decorations

/-- Whether the decoration is present afterwards. -/
def Edit.present : Edit → Bool
  | .unset _ => false
  | _ => true

variable {decorations other : Decorations} {first second : Edit}

theorem ext_cells (flags : decorations.flags = other.flags)
    (stored : ∀ (form : Form) (decoration : Decoration),
      (decorations.stored form)[decoration]? = (other.stored form)[decoration]?) : decorations = other := by
  have operands : decorations.operands = other.operands := Std.ExtTreeMap.ext_getElem? fun _ => stored .word _
  have texts : decorations.texts = other.texts := Std.ExtTreeMap.ext_getElem? fun _ => stored .text _
  cases decorations
  cases other
  cases flags
  cases operands
  cases texts
  rfl

private theorem flags_apply (edit : Edit) :
    (decorations.apply edit).flags = decorations.flags.put edit.decoration.code edit.present := by
  cases edit <;> rfl

theorem apply_comm (decorations : Decorations) (apart : first.decoration ≠ second.decoration) :
    (decorations.apply first).apply second = (decorations.apply second).apply first := by
  have codes : first.decoration.code ≠ second.decoration.code := mt Enumerant.code_inj.mp apart
  refine ext_cells ?_ fun form decoration => ?_
  · simp only [flags_apply, FlagSet.put_comm codes]
  · simp only [getElem?_stored_apply]
    grind

theorem apply_apply (decorations : Decorations) (edit : Edit) :
    (decorations.apply edit).apply edit = decorations.apply edit := by
  refine ext_cells ?_ fun form decoration => ?_
  · simp only [flags_apply, FlagSet.put_put]
  · simp only [getElem?_stored_apply]
    cases edit.written? form with
    | none => simp only [Option.getD_none, ite_self]
    | some kept => split <;> rfl

end Decorations

namespace Note

/-- What an edit to a note is about. -/
inductive Topic where
  | name
  | decoration (decoration : Decoration)
  deriving DecidableEq, Repr

def Edit.topic : Edit → Topic
  | .rename _ => .name
  | .decorate edit => .decoration edit.decoration

theorem apply_comm (note : Note) {first second : Edit} (apart : first.topic ≠ second.topic) :
    (note.apply first).apply second = (note.apply second).apply first := by
  cases first with
  | rename name =>
    cases second with
    | rename other => exact absurd rfl apart
    | decorate edit => rfl
  | decorate edit =>
    cases second with
    | rename name => rfl
    | decorate other =>
      have decorations := note.decorations.apply_comm (mt (congrArg Topic.decoration) apart)
      simp only [apply, decorations]

theorem apply_apply (note : Note) (edit : Edit) : (note.apply edit).apply edit = note.apply edit := by
  cases edit with
  | rename name => rfl
  | decorate edit => simp only [apply, Decorations.apply_apply]

end Note

end Shader
