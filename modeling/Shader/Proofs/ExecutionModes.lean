import Shader.EntryPoint
import Shader.Proofs.FlagSetBank
import Shader.Proofs.NoteHistory
import Shader.Proofs.Runs

/-! An entry point after any calls that set execution modes. Every mode that was called is
flagged. The sizes of a workgroup are those of the last call that gave all three of them, while
a count is that of the last call, which resets it if it gave none. No field takes operands of
two modes, so calls of different modes do not get in each other's way. -/

namespace Shader

namespace FlagSet

variable {set other : FlagSet}

theorem union_empty (set : FlagSet) : set ∪ ∅ = set := by
  obtain ⟨low, high⟩ := set
  have low : low ||| 0 = low := BitVec.or_zero
  have high : high ∪ ∅ = high := Std.ExtTreeSet.ext_mem fun bit => by simp
  exact congr (congrArg mk low) high

theorem insert_union (bit : Word) : (set ∪ other).insert bit = set ∪ other.insert bit := by
  rw [insert, insert]
  split
  · exact congrArg (mk · _) (BitVec.or_assoc _ _ _)
  · refine congrArg (mk _) (Std.ExtTreeSet.ext_mem fun flag => ?_)
    simp only [high_union, Std.ExtTreeSet.mem_insert, Std.ExtTreeSet.mem_union_iff, or_left_comm]

theorem foldl_insert_eq (set : FlagSet) (bits : List Word) : bits.foldl insert set = set ∪ ofList bits := by
  induction bits using List.reverseRecOn with
  | nil => exact (union_empty set).symm
  | append_singleton bits last ih =>
    rw [List.foldl_concat, ih, insert_union, ofList, ofList, List.foldl_concat]

end FlagSet

namespace EntryPoint

structure ModeCall where
  mode : ExecutionMode
  operands : List Word
  deriving DecidableEq, Repr

namespace ModeCall

/-- The sizes that a call of the mode gives, if it gives all three. -/
def sizes? (mode : ExecutionMode) (call : ModeCall) : Option (Word × Word × Word) :=
  if call.mode = mode then
    match call.operands with
    | x :: y :: z :: _ => some (x, y, z)
    | _ => none
  else none

/-- The count that a call of the mode gives, which is 0 without operands. -/
def count? (mode : ExecutionMode) (call : ModeCall) : Option Word :=
  if call.mode = mode then some (call.operands.headD 0) else none

end ModeCall

def setModes (entry : EntryPoint) (calls : List ModeCall) : EntryPoint :=
  calls.foldl (fun entry call => entry.setMode call.mode call.operands) entry

def sizes (entry : EntryPoint) : Word × Word × Word :=
  (entry.workgroup.x, entry.workgroup.y, entry.workgroup.z)

def sizeIds (entry : EntryPoint) : Word × Word × Word :=
  (entry.workgroup.idX.word, entry.workgroup.idY.word, entry.workgroup.idZ.word)

/-- The entry point without what calls that set modes can fill. -/
def withoutModes (entry : EntryPoint) : EntryPoint :=
  { entry with modes := ∅, workgroup := {}, invocations := 0, outputVertices := 0 }

def ofMode (mode : ExecutionMode) (calls : List ModeCall) : List ModeCall := calls.filter (·.mode = mode)

variable {entry : EntryPoint} {calls others : List ModeCall}

/-! ### One call -/

private theorem modes_setMode (mode : ExecutionMode) (operands : List Word) :
    (entry.setMode mode operands).modes = entry.modes.insert mode.code := by
  fun_cases setMode <;> rfl

theorem withoutModes_setMode (mode : ExecutionMode) (operands : List Word) :
    (entry.setMode mode operands).withoutModes = entry.withoutModes := by
  fun_cases setMode <;> rfl

/-- The cell that a mode has for its operands: only calls of the mode write to it. -/
structure Fills {β : Type} (mode : ExecutionMode) (write : ModeCall → Option β) (cell : EntryPoint → β) : Prop where
  silent : ∀ call, call.mode ≠ mode → write call = none
  own : ∀ entry operands, cell (entry.setMode mode operands) = (write ⟨mode, operands⟩).getD (cell entry)
  frame : ∀ entry given operands, given ≠ mode → cell (entry.setMode given operands) = cell entry

theorem fills_sizes : Fills .localSize (·.sizes? .localSize) sizes where
  silent _ other := if_neg other
  own entry operands := by rcases operands with _ | ⟨x, _ | ⟨y, _ | ⟨z, rest⟩⟩⟩ <;> rfl
  frame entry given operands other := by fun_cases setMode <;> first | rfl | contradiction

theorem fills_sizeIds : Fills .localSizeId (·.sizes? .localSizeId) sizeIds where
  silent _ other := if_neg other
  own entry operands := by rcases operands with _ | ⟨x, _ | ⟨y, _ | ⟨z, rest⟩⟩⟩ <;> rfl
  frame entry given operands other := by fun_cases setMode <;> first | rfl | contradiction

theorem fills_invocations : Fills .invocations (·.count? .invocations) EntryPoint.invocations where
  silent _ other := if_neg other
  own _ _ := rfl
  frame entry given operands other := by fun_cases setMode <;> first | rfl | contradiction

theorem fills_outputVertices : Fills .outputVertices (·.count? .outputVertices) EntryPoint.outputVertices where
  silent _ other := if_neg other
  own _ _ := rfl
  frame entry given operands other := by fun_cases setMode <;> first | rfl | contradiction

/-! ### Runs -/

structure SetBy (calls : List ModeCall) (entry after : EntryPoint) : Prop where
  modes : after.modes = entry.modes ∪ .ofList (calls.map (·.mode.code))
  hasMode : ∀ mode, after.hasMode mode = true ↔ entry.hasMode mode = true ∨ ∃ call ∈ calls, call.mode = mode
  sizes : after.sizes = (calls.filterMap (·.sizes? .localSize)).getLast?.getD entry.sizes
  sizeIds : after.sizeIds = (calls.filterMap (·.sizes? .localSizeId)).getLast?.getD entry.sizeIds
  invocations : after.invocations = (calls.filterMap (·.count? .invocations)).getLast?.getD entry.invocations
  outputVertices : after.outputVertices =
    (calls.filterMap (·.count? .outputVertices)).getLast?.getD entry.outputVertices
  kept : after = { entry with
    modes := after.modes
    workgroup := after.workgroup
    invocations := after.invocations
    outputVertices := after.outputVertices }

namespace Fills

variable {β : Type} {mode : ExecutionMode} {write : ModeCall → Option β} {cell : EntryPoint → β}

private theorem step (fills : Fills mode write cell) (entry : EntryPoint) (call : ModeCall) :
    cell (entry.setMode call.mode call.operands) = (write call).getD (cell entry) := by
  by_cases given : call.mode = mode
  · subst given
    exact fills.own entry call.operands
  · rw [fills.frame entry call.mode call.operands given, fills.silent call given]
    rfl

theorem setModes (fills : Fills mode write cell) (entry : EntryPoint) (calls : List ModeCall) :
    cell (entry.setModes calls) = (calls.filterMap write).getLast?.getD (cell entry) :=
  cell_foldl cell fills.step calls entry

private theorem congr (fills : Fills mode write cell) (same : ofMode mode calls = ofMode mode others) :
    cell (entry.setModes calls) = cell (entry.setModes others) := by
  have own : ∀ calls, (ofMode mode calls).filterMap write = calls.filterMap write := fun calls =>
    filterMap_filter_of_silent fun call other => fills.silent call fun given => other (decide_eq_true given)
  rw [fills.setModes, fills.setModes, ← own calls, same, own]

end Fills

private theorem mem_ofMode {call : ModeCall} {mode : ExecutionMode} :
    call ∈ ofMode mode calls ↔ call ∈ calls ∧ call.mode = mode := by
  rw [ofMode, List.mem_filter, decide_eq_true_iff]

theorem modes_setModes (entry : EntryPoint) (calls : List ModeCall) :
    (entry.setModes calls).modes = entry.modes ∪ .ofList (calls.map (·.mode.code)) := by
  rw [← FlagSet.foldl_insert_eq, List.foldl_map]
  refine (List.foldl_hom EntryPoint.modes fun entry call => ?_).symm
  exact (modes_setMode (ModeCall.mode call) call.operands).symm

theorem hasMode_setModes {mode : ExecutionMode} : (entry.setModes calls).hasMode mode = true ↔
    entry.hasMode mode = true ∨ ∃ call ∈ calls, call.mode = mode := by
  rw [hasMode, hasMode, modes_setModes, ← FlagSet.mem_iff, ← FlagSet.mem_iff, FlagSet.mem_union, FlagSet.mem_ofList]
  simp only [List.mem_map, Enumerant.code_inj]

theorem withoutModes_setModes (entry : EntryPoint) (calls : List ModeCall) :
    (entry.setModes calls).withoutModes = entry.withoutModes := by
  rw [setModes]
  induction calls using List.reverseRecOn with
  | nil => rfl
  | append_singleton calls last ih => rw [List.foldl_concat, withoutModes_setMode, ih]

private theorem eq_of_withoutModes {after : EntryPoint} (same : after.withoutModes = entry.withoutModes) :
    after = { entry with
      modes := after.modes
      workgroup := after.workgroup
      invocations := after.invocations
      outputVertices := after.outputVertices } := by
  cases after
  cases entry
  simp only [withoutModes, mk.injEq] at same
  simp only [same]

private theorem workgroup_eq_of_sizes {after : EntryPoint} (sizes : after.sizes = entry.sizes)
    (sizeIds : after.sizeIds = entry.sizeIds) : after.workgroup = entry.workgroup := by
  calc after.workgroup
    _ = ⟨after.sizes.1, after.sizes.2.1, after.sizes.2.2,
          ⟨after.sizeIds.1⟩, ⟨after.sizeIds.2.1⟩, ⟨after.sizeIds.2.2⟩⟩ := rfl
    _ = entry.workgroup := by rw [sizes, sizeIds]; rfl

private theorem setModes_congr (entry : EntryPoint) (same : ∀ mode, ofMode mode calls = ofMode mode others) :
    entry.setModes calls = entry.setModes others := by
  have listed : ∀ call : ModeCall, call ∈ calls ↔ call ∈ others := by
    intro call
    -- a call is among those of its own mode
    have own : call ∈ ofMode call.mode calls ↔ call ∈ ofMode call.mode others := by rw [same]
    simpa only [mem_ofMode, and_true] using own
  have modes : (entry.setModes calls).modes = (entry.setModes others).modes := by
    rw [modes_setModes, modes_setModes]
    refine congrArg (entry.modes ∪ ·) (FlagSet.ofList_eq_iff.mpr fun bit => ?_)
    simp only [List.mem_map, listed]
  have workgroup : (entry.setModes calls).workgroup = (entry.setModes others).workgroup :=
    workgroup_eq_of_sizes (fills_sizes.congr (same _)) (fills_sizeIds.congr (same _))
  rw [eq_of_withoutModes (withoutModes_setModes entry calls), eq_of_withoutModes (withoutModes_setModes entry others),
    modes, workgroup, fills_invocations.congr (same _), fills_outputVertices.congr (same _)]

/-! ### Calls of one mode -/

/-- What an entry point holds of a mode. Only some modes have sizes or a count of their own. -/
structure ModeRecord where
  flagged : Bool
  sizes : Option (Word × Word × Word)
  count : Option Word
  deriving DecidableEq, Repr

def recorded (entry : EntryPoint) (mode : ExecutionMode) : ModeRecord where
  flagged := entry.hasMode mode
  sizes :=
    if mode = .localSize then some entry.sizes
    else if mode = .localSizeId then some entry.sizeIds
    else none
  count :=
    if mode = .invocations then some entry.invocations
    else if mode = .outputVertices then some entry.outputVertices
    else none

private theorem recorded_congr {mode : ExecutionMode} (same : ofMode mode calls = ofMode mode others) :
    (entry.setModes calls).recorded mode = (entry.setModes others).recorded mode := by
  rw [recorded, recorded, ModeRecord.mk.injEq]
  refine ⟨?_, ?_, ?_⟩
  · rw [Bool.eq_iff_iff, hasMode_setModes, hasMode_setModes]
    simp only [← mem_ofMode, same]
  · split
    next given => exact congrArg some (fills_sizes.congr (given ▸ same))
    next =>
      split
      next given => exact congrArg some (fills_sizeIds.congr (given ▸ same))
      next => rfl
  · split
    next given => exact congrArg some (fills_invocations.congr (given ▸ same))
    next =>
      split
      next given => exact congrArg some (fills_outputVertices.congr (given ▸ same))
      next => rfl

private theorem ofMode_ofMode (mode : ExecutionMode) (calls : List ModeCall) :
    ofMode mode (ofMode mode calls) = ofMode mode calls := by
  rw [ofMode, ofMode, List.filter_filter]
  simp only [Bool.and_self]

private theorem ofMode_swap (mode : ExecutionMode) {first second : ModeCall} (apart : first.mode ≠ second.mode)
    (earlier later : List ModeCall) :
    ofMode mode (earlier ++ first :: second :: later) = ofMode mode (earlier ++ second :: first :: later) := by
  by_cases given : first.mode = mode
  · have other : ¬ second.mode = mode := fun same => apart (given.trans same.symm)
    simp [ofMode, List.filter_cons, other]
  · simp [ofMode, List.filter_cons, given]

structure Apart (calls : List ModeCall) (entry : EntryPoint) : Prop where
  swapped : ∀ earlier first second later, calls = earlier ++ first :: second :: later → first.mode ≠ second.mode →
    entry.setModes (earlier ++ second :: first :: later) = entry.setModes calls
  /-- The calls in any order that keeps those of each mode in theirs. -/
  reordered : ∀ others, (∀ mode, ofMode mode others = ofMode mode calls) → entry.setModes others = entry.setModes calls
  alone : ∀ mode, (entry.setModes (ofMode mode calls)).recorded mode = (entry.setModes calls).recorded mode

theorem setBy_setModes (entry : EntryPoint) (calls : List ModeCall) : SetBy calls entry (entry.setModes calls) where
  modes := modes_setModes entry calls
  hasMode _ := hasMode_setModes
  sizes := fills_sizes.setModes entry calls
  sizeIds := fills_sizeIds.setModes entry calls
  invocations := fills_invocations.setModes entry calls
  outputVertices := fills_outputVertices.setModes entry calls
  kept := eq_of_withoutModes (withoutModes_setModes entry calls)

theorem apart_setModes (entry : EntryPoint) (calls : List ModeCall) : Apart calls entry where
  swapped earlier first second later listed apart := by
    rw [listed]
    exact (setModes_congr entry fun mode => ofMode_swap mode apart earlier later).symm
  reordered _ same := setModes_congr entry same
  alone mode := recorded_congr (ofMode_ofMode mode calls)

/-- Any calls flag their modes and fill the fields of each from its last call that gives them,
and the calls of other modes have no part in that. -/
theorem setModes_modewise (entry : EntryPoint) (calls : List ModeCall) :
    SetBy calls entry (entry.setModes calls) ∧ Apart calls entry :=
  ⟨setBy_setModes entry calls, apart_setModes entry calls⟩

/-- Too few sizes are ignored, while no count is 0. -/
example : (declare ⟨4⟩ "main" ⟨5⟩).setModes [⟨.localSize, [8, 4, 1]⟩, ⟨.invocations, [2]⟩, ⟨.localSize, [16]⟩,
    ⟨.invocations, []⟩, ⟨.localSizeId, [6, 7, 9, 11]⟩] =
    { declare ⟨4⟩ "main" ⟨5⟩ with
      modes := .ofList [0, 17, 38], workgroup := ⟨8, 4, 1, ⟨6⟩, ⟨7⟩, ⟨9⟩⟩, invocations := 0 } := by decide

end EntryPoint

end Shader
