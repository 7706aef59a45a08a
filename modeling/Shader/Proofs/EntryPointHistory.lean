import Shader.Proofs.DefaultEntryPoint
import Shader.Proofs.ExecutionModes
import Shader.Proofs.IdMinting

/-! The entry points of a module after any run. An id has one once it was added, and the
one recorded is the last that was added under the id, with the changes made to it since
then. Changes that were made before, or to other ids, leave no trace in it. -/

namespace Shader

namespace EntryPoint

variable {entry : EntryPoint}

private theorem apply_kept (entry : EntryPoint) (edit : Edit) :
    (entry.apply edit).id = entry.id ∧ (entry.apply edit).declaredName = entry.declaredName := by
  cases edit with
  | setMode mode operands =>
    have same : (entry.setMode mode operands).withoutModes = entry.withoutModes := withoutModes_setMode mode operands
    obtain ⟨id, _, declaredName, _⟩ := mk.inj same
    exact ⟨id, declaredName⟩
  | rename | addInterface => exact ⟨rfl, rfl⟩

def change (entry : EntryPoint) (changes : List (EntryPoint → EntryPoint)) : EntryPoint :=
  changes.foldl (fun entry change => change entry) entry

private theorem change_concat (changes : List (EntryPoint → EntryPoint)) (last : EntryPoint → EntryPoint) :
    entry.change (changes ++ [last]) = last (entry.change changes) :=
  List.foldl_concat _ _ _ _

private theorem change_kept {changes : List (EntryPoint → EntryPoint)}
    (edited : ∀ change ∈ changes, ∃ edit : Edit, change = (·.apply edit)) :
    (entry.change changes).id = entry.id ∧ (entry.change changes).declaredName = entry.declaredName := by
  induction changes generalizing entry with
  | nil => exact ⟨rfl, rfl⟩
  | cons change rest ih =>
    obtain ⟨edit, rfl⟩ := edited change List.mem_cons_self
    obtain ⟨id, name⟩ := entry.apply_kept edit
    rw [← id, ← name]
    exact ih fun later member => edited later (List.mem_cons_of_mem _ member)

end EntryPoint

namespace EntryPointTable

namespace Edit

def addition? (id : ResultId) : Edit → Option EntryPoint
  | .add entry => if entry.id = id then some entry else none
  | .modify _ _ | .choose _ => none

def change? (id : ResultId) : Edit → Option (EntryPoint → EntryPoint)
  | .modify named change => if named = id then some change else none
  | .add _ | .choose _ => none

/-- What the edit makes of the record of the id. -/
def record (id : ResultId) (recorded : Option EntryPoint) : Edit → Option EntryPoint
  | .add entry => if entry.id = id then some entry else recorded
  | .modify named change => if named = id then recorded.map change else recorded
  | .choose _ => recorded

end Edit

def lastAdded? (id : ResultId) (edits : List Edit) : Option EntryPoint :=
  (edits.filterMap (Edit.addition? id)).getLast?

/-- The changes to the entry of the id since it was last added. -/
def changesSince (id : ResultId) (edits : List Edit) : List (EntryPoint → EntryPoint) :=
  (edits.rtakeWhile fun edit => (edit.addition? id).isNone).filterMap (Edit.change? id)

variable {table next last : EntryPointTable} {edits : List Edit} {edit : Edit} {bound : Nat}
  {id : ResultId} {entry : EntryPoint}

private theorem lastAdded?_concat :
    lastAdded? id (edits ++ [edit]) = (edit.addition? id).or (lastAdded? id edits) := by
  rw [lastAdded?, List.filterMap_append]
  cases added : edit.addition? id <;> simp [lastAdded?, added]

private theorem changesSince_concat : changesSince id (edits ++ [edit]) =
    if (edit.addition? id).isNone then changesSince id edits ++ (edit.change? id).toList else [] := by
  rw [changesSince, List.rtakeWhile_concat]
  split
  · rw [List.filterMap_append]
    cases changed : edit.change? id <;> simp [changesSince, changed]
  · rfl

theorem foldl_record (id : ResultId) (edits : List Edit) : edits.foldl (Edit.record id) none =
    (lastAdded? id edits).map (·.change (changesSince id edits)) := by
  induction edits using List.reverseRecOn with
  | nil => rfl
  | append_singleton edits last ih =>
    rw [List.foldl_concat, ih, lastAdded?_concat, changesSince_concat]
    cases last with
    | add entry =>
      by_cases same : entry.id = id
      · simp [Edit.record, Edit.addition?, same, EntryPoint.change]
      · simp [Edit.record, Edit.addition?, Edit.change?, same]
    | modify named change =>
      by_cases same : named = id
      · simp [Edit.record, Edit.addition?, Edit.change?, same, EntryPoint.change_concat, Function.comp_def]
      · simp [Edit.record, Edit.addition?, Edit.change?, same]
    | choose named => simp [Edit.record, Edit.addition?, Edit.change?]

private theorem Edit.addition?_eq_some :
    edit.addition? id = some entry ↔ edit = .add entry ∧ entry.id = id := by
  cases edit with
  | add given =>
    by_cases same : given.id = id
    · simp only [addition?, if_pos same, Option.some.injEq, add.injEq]
      exact ⟨fun equal => ⟨equal, equal ▸ same⟩, And.left⟩
    · simp only [addition?, if_neg same, reduceCtorEq, add.injEq, false_iff]
      rintro ⟨rfl, equal⟩
      exact same equal
  | modify | choose => simp [addition?]

private theorem isSome_lastAdded? :
    (lastAdded? id edits).isSome ↔ ∃ entry, .add entry ∈ edits ∧ entry.id = id := by
  rw [lastAdded?, List.getLast?_isSome, ne_eq, ← List.isEmpty_iff, Bool.not_eq_true,
    List.isEmpty_eq_false_iff_exists_mem]
  simp only [List.mem_filterMap, Edit.addition?_eq_some]
  constructor
  · rintro ⟨entry, _, listed, rfl, same⟩
    exact ⟨entry, listed, same⟩
  · rintro ⟨entry, listed, same⟩
    exact ⟨entry, _, listed, rfl, same⟩

private theorem lastAdded?_id (found : lastAdded? id edits = some entry) : entry.id = id := by
  obtain ⟨edit, _, added⟩ := List.mem_filterMap.mp (List.mem_of_getLast? found)
  exact (Edit.addition?_eq_some.mp added).2

private theorem mem_of_mem_changesSince {change : EntryPoint → EntryPoint}
    (member : change ∈ changesSince id edits) : .modify id change ∈ edits := by
  obtain ⟨edit, since, made⟩ := List.mem_filterMap.mp member
  have listed := (List.rtakeWhile_suffix _ _).mem since
  cases edit with
  | modify named other =>
    by_cases same : named = id
    · simp only [Edit.change?, if_pos same, Option.some.injEq] at made
      rwa [← same, ← made]
    · simp [Edit.change?, same] at made
  | add | choose => cases made

private theorem Applies.find?_eq (applied : table.Applies bound edit next) :
    next.find? id = edit.record id (table.find? id) := by
  cases applied with
  | add inside => simp [find?, Edit.record, Std.ExtTreeMap.getElem?_insert]
  | modify named change =>
    simp only [find?, Edit.record, Std.ExtTreeMap.getElem?_modify, Std.compare_eq_iff_eq]
    split
    next same => rw [same]
    next => rfl
  | choose listed => rfl

end EntryPointTable

namespace Module

open EntryPointTable (lastAdded? changesSince)

variable {m : Module} {edits : List Edit}

private theorem mem_of_mem_entryPointEdits {edit : EntryPointTable.Edit}
    (member : edit ∈ m.entryPointEdits edits) : .entryPoint edit ∈ edits := by
  obtain ⟨made, accepted, same⟩ := List.mem_filterMap.mp member
  cases made with
  | entryPoint other =>
    cases same
    exact (accepted_sublist m edits).mem accepted
  | _ => cases same

theorem find?_run (m : Module) (edits : List Edit) (id : ResultId) : (m.run edits).entryPoints.find? id =
    (m.entryPointEdits edits).foldl (EntryPointTable.Edit.record id) (m.entryPoints.find? id) := by
  rw [entryPointEdits, List.foldl_filterMap]
  refine view_run (·.entryPoints.find? id) _ ?_ (fun _ _ => rfl) m edits
  intro m edit next accepted
  cases accepted with
  | entryPoint applied => exact (EntryPointTable.applies_of_ok applied).find?_eq
  | growTo | mint | entity | annotate | controlFlow | setSource | declare => rfl

theorem find?_run_of_unregistered (unregistered : m.entryPoints = {}) (edits : List Edit) (id : ResultId) :
    (m.run edits).entryPoints.find? id =
      (lastAdded? id (m.entryPointEdits edits)).map (·.change (changesSince id (m.entryPointEdits edits))) := by
  rw [find?_run, unregistered, ← EntryPointTable.foldl_record]
  rfl

private theorem chooses_iff {id : ResultId} :
    (m.perform (.entryPoint (.choose id))).fault? = none ↔ id ∈ m.entryPoints.entries := by
  rw [perform, EntryPointTable.apply, EntryPointTable.choose]
  by_cases listed : id ∈ m.entryPoints.entries <;> simp [listed, Outcome.ofExcept, Except.map]

/-- The entry points of a module, read off the edits of its table that were accepted. -/
structure Registers (m : Module) (edits : List EntryPointTable.Edit) : Prop where
  keys : ∀ id, id ∈ m.entryPoints.entries ↔ ∃ entry, .add entry ∈ edits ∧ entry.id = id
  bounded : ∀ id ∈ m.entryPoints.entries, id.index < m.bound
  /-- The last entry that was added under the id, with the changes made to it since then. -/
  entries : ∀ id, m.entryPoints.find? id =
    (lastAdded? id edits).map fun entry => entry.change (changesSince id edits)
  ids : ∀ id entry, m.entryPoints.find? id = some entry → entry.id = id
  declaredNames : ∀ id entry given, m.entryPoints.find? id = some entry → lastAdded? id edits = some given →
    entry.declaredName = given.declaredName
  chosen : m.entryPoints.defaultId = .null ∨ m.entryPoints.defaultId ∈ m.entryPoints.entries
  chooses : ∀ id, (m.perform (.entryPoint (.choose id))).fault? = none ↔ id ∈ m.entryPoints.entries

/-- After any run in which entry points are only changed by edits of their own, the table
records under each id the last entry point added there, as those edits have left it. -/
theorem registers_run (m : Module) (reached : m.Reachable) (unregistered : m.entryPoints = {}) (edits : List Edit)
    (edited : ∀ id change, .entryPoint (.modify id change) ∈ edits → ∃ edit : EntryPoint.Edit, change = (·.apply edit)) :
    (m.run edits).Registers (m.entryPointEdits edits) := by
  have found := find?_run_of_unregistered unregistered edits
  have kept : ∀ id (entry : EntryPoint), (entry.change (changesSince id (m.entryPointEdits edits))).id = entry.id ∧
      (entry.change (changesSince id (m.entryPointEdits edits))).declaredName = entry.declaredName := by
    intro id entry
    refine EntryPoint.change_kept fun change member => edited id change ?_
    exact mem_of_mem_entryPointEdits (EntryPointTable.mem_of_mem_changesSince member)
  refine ⟨?_, (reached.run edits).bounded.keys, found, ?_, ?_, (reached.run edits).coherent.chosen, ?_⟩
  · intro id
    rw [Std.ExtTreeMap.mem_iff_isSome_getElem?, ← EntryPointTable.isSome_lastAdded?, ← EntryPointTable.find?, found,
      Option.isSome_map]
  · intro id entry recorded
    rw [found, Option.map_eq_some_iff] at recorded
    obtain ⟨given, added, rfl⟩ := recorded
    rw [(kept id given).1, EntryPointTable.lastAdded?_id added]
  · intro id entry given recorded added
    rw [found, added, Option.map_some, Option.some.injEq] at recorded
    rw [← recorded, (kept id given).2]
  · exact fun id => chooses_iff

def eightIds : Module := (ofWords [Header.magic, 0x10500, 0, 8, 0]).growTo 8

/-- Two entry points that are changed in turn, the first of them added anew in between,
after a change that came too early and one added past the bound. -/
def declareAgain : List Edit := [
  .entryPoint (.modify ⟨4⟩ (·.apply (.rename "early"))),
  .entryPoint (.add (.declare ⟨4⟩ "main" ⟨0⟩)), .entryPoint (.add (.declare ⟨9⟩ "stray" ⟨0⟩)),
  .entryPoint (.modify ⟨4⟩ (·.apply (.setMode .localSize [1, 2, 3]))),
  .entryPoint (.add (.declare ⟨5⟩ "other" ⟨4⟩)), .entryPoint (.choose ⟨5⟩),
  .entryPoint (.add (.declare ⟨4⟩ "again" ⟨5⟩)), .growTo 10,
  .entryPoint (.modify ⟨5⟩ (·.apply (.addInterface [⟨6⟩]))),
  .entryPoint (.modify ⟨4⟩ (·.apply (.setMode .invocations [7]))),
  .entryPoint (.modify ⟨4⟩ (·.apply (.rename "main_1")))]

theorem registers_run_declareAgain : eightIds.Reachable ∧ eightIds.entryPoints = {} ∧
    (eightIds.run declareAgain).Registers (eightIds.entryPointEdits declareAgain) ∧
    (eightIds.run declareAgain).entryPoints.find? ⟨4⟩ = some
      { EntryPoint.declare ⟨4⟩ "again" ⟨5⟩ with name := "main_1", modes := .ofList [0], invocations := 7 } := by
  have decoded : ofBinary [Header.magic, 0x10500, 0, 8, 0] = .ok eightIds := rfl
  have edited : ∀ id change, .entryPoint (.modify id change) ∈ declareAgain →
      ∃ edit : EntryPoint.Edit, change = (·.apply edit) := by
    intro id change member
    simp only [declareAgain, List.mem_cons, Edit.entryPoint.injEq, EntryPointTable.Edit.modify.injEq, reduceCtorEq,
      List.not_mem_nil, or_false, false_or] at member
    rcases member with ⟨_, rfl⟩ | ⟨_, rfl⟩ | ⟨_, rfl⟩ | ⟨_, rfl⟩ | ⟨_, rfl⟩ <;> exact ⟨_, rfl⟩
  have laws := registers_run eightIds (.binary decoded) rfl declareAgain edited
  exact ⟨.binary decoded, rfl, laws, (laws.entries ⟨4⟩).trans (by decide)⟩

end Module

end Shader
