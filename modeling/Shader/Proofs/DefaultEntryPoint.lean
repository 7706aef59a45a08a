import Mathlib.Data.List.DropRight
import Mathlib.Data.List.Induction
import Shader.Proofs.ModuleEdits

/-! Which entry point is the default after a run. It is the one chosen last, or the
first one added where none was chosen, as long as id 0 stays out of it. An entry point
can be added under id 0 and even be chosen, but the table cannot tell that default from
none, so the next one that is added takes its place. -/

namespace Shader

namespace ResultId

variable {id : ResultId} {ids : List ResultId}

theorem isNull_iff : id.isNull = true ↔ id = .null := beq_iff_eq

/-- Null where there is no other. -/
def firstNonNull (ids : List ResultId) : ResultId := (ids.find? (!·.isNull)).getD .null

private theorem firstNonNull_cons :
    firstNonNull (id :: ids) = if id.isNull then firstNonNull ids else id := by
  cases null : id.isNull <;> simp [firstNonNull, null]

private theorem firstNonNull_singleton : firstNonNull [id] = id := by
  rw [firstNonNull_cons]
  split
  next null => exact (isNull_iff.mp null).symm
  next => rfl

private theorem firstNonNull_concat :
    firstNonNull (ids ++ [id]) = if (firstNonNull ids).isNull then id else firstNonNull ids := by
  induction ids with
  | nil => exact firstNonNull_singleton
  | cons first rest ih =>
    rw [List.cons_append, firstNonNull_cons, firstNonNull_cons, ih]
    cases null : first.isNull with
    | true => rfl
    | false => simp [null]

end ResultId

namespace EntryPointTable

open ResultId (firstNonNull firstNonNull_cons firstNonNull_singleton firstNonNull_concat)

namespace Edit

def added? : Edit → Option ResultId
  | .add entry => some entry.id
  | .modify _ _ | .choose _ => none

def chosen? : Edit → Option ResultId
  | .choose id => some id
  | .add _ | .modify _ _ => none

/-- The default that the edit makes of the current one. -/
def settle (current : ResultId) : Edit → ResultId
  | .add entry => if current.isNull then entry.id else current
  | .modify _ _ => current
  | .choose id => id

end Edit

def added (edits : List Edit) : List ResultId := edits.filterMap Edit.added?

def chosen (edits : List Edit) : List ResultId := edits.filterMap Edit.chosen?

def sinceChoice (edits : List Edit) : List Edit := edits.rtakeWhile (·.chosen?.isNone)

variable {table next : EntryPointTable} {edits : List Edit} {edit : Edit} {bound : Nat} {id : ResultId}

private theorem added_concat : added (edits ++ [edit]) = added edits ++ edit.added?.toList := by
  rw [added, List.filterMap_append]
  cases edit <;> rfl

private theorem chosen_concat : chosen (edits ++ [edit]) = chosen edits ++ edit.chosen?.toList := by
  rw [chosen, List.filterMap_append]
  cases edit <;> rfl

private theorem sinceChoice_choose : sinceChoice (edits ++ [.choose id]) = [] := by
  simp [sinceChoice, Edit.chosen?]

private theorem sinceChoice_concat (unchosen : edit.chosen? = none) :
    sinceChoice (edits ++ [edit]) = sinceChoice edits ++ [edit] := by
  simp [sinceChoice, unchosen]

private theorem sinceChoice_eq_self (unchosen : chosen edits = []) : sinceChoice edits = edits := by
  refine List.rtakeWhile_eq_self_iff.mpr fun edit member => ?_
  rw [List.filterMap_eq_nil_iff.mp unchosen edit member, Option.isNone_none]

private theorem foldl_settle (current : ResultId) (edits : List Edit) : edits.foldl Edit.settle current =
    firstNonNull ((chosen edits).getLast?.getD current :: added (sinceChoice edits)) := by
  -- an id that is not null stays until the next choice, and a null one gives way
  induction edits using List.reverseRecOn with
  | nil => exact firstNonNull_singleton.symm
  | append_singleton edits last ih =>
    rw [List.foldl_concat, ih, chosen_concat]
    cases last with
    | add entry =>
      rw [sinceChoice_concat rfl, added_concat, Edit.settle, ← firstNonNull_concat]
      simp only [Edit.chosen?, Edit.added?, Option.toList_none, Option.toList_some, List.append_nil, List.cons_append]
    | modify id change =>
      rw [sinceChoice_concat rfl, added_concat, Edit.settle]
      simp only [Edit.chosen?, Edit.added?, Option.toList_none, List.append_nil]
    | choose id =>
      rw [sinceChoice_choose, Edit.settle, Edit.chosen?, Option.toList_some, List.getLast?_concat]
      exact firstNonNull_singleton.symm

/-- Edits of a table that were all accepted, each under the bound of its time. -/
inductive History : EntryPointTable → List Edit → EntryPointTable → Prop where
  | nil (table : EntryPointTable) : History table [] table
  | cons {table next last : EntryPointTable} {bound : Nat} {edit : Edit} {edits : List Edit}
      (applied : table.Applies bound edit next) (later : History next edits last) :
      History table (edit :: edits) last

namespace History

variable {last : EntryPointTable}

theorem defaultId_eq (history : table.History edits last) :
    last.defaultId = edits.foldl Edit.settle table.defaultId := by
  induction history with
  | nil => rfl
  | cons applied later ih =>
    rw [ih, List.foldl_cons]
    cases applied <;> rfl

private theorem listed_of_chosen (history : table.History edits last) (member : id ∈ chosen edits) :
    id ∈ table.entries ∨ id ∈ added edits := by
  induction history with
  | nil => cases member
  | cons applied later ih =>
    cases applied with
    | @add entry inside =>
      have known := ih member
      rw [Std.ExtTreeMap.mem_insert, Std.LawfulEqOrd.compare_eq_iff_eq] at known
      rcases known with (rfl | known) | known
      · exact .inr List.mem_cons_self
      · exact .inl known
      · exact .inr (List.mem_cons_of_mem _ known)
    | modify named change => exact (ih member).imp_left Std.ExtTreeMap.mem_modify.mp
    | @choose named listed =>
      rcases List.mem_cons.mp member with rfl | member
      · exact .inl listed
      · exact ih member

theorem defaultId_of_unnamed (history : History {} edits last) (unnamed : .null ∉ added edits) :
    last.defaultId = ((chosen edits).getLast?.or (added edits).head?).getD .null := by
  rw [history.defaultId_eq, foldl_settle]
  cases choice : (chosen edits).getLast? with
  | some id =>
    have known := history.listed_of_chosen (List.mem_of_getLast? choice)
    have named : id ≠ .null := by
      rintro rfl
      exact unnamed (known.resolve_left Std.ExtTreeMap.not_mem_empty)
    rw [Option.getD_some, firstNonNull_cons, if_neg (mt ResultId.isNull_iff.mp named)]
    rfl
  | none =>
    rw [sinceChoice_eq_self (List.getLast?_eq_none_iff.mp choice), Option.none_or]
    cases first : added edits with
    | nil => rfl
    | cons id later =>
      have named : id ≠ .null := by
        rintro rfl
        exact unnamed (first ▸ List.mem_cons_self)
      rw [firstNonNull_cons, firstNonNull_cons, if_neg (mt ResultId.isNull_iff.mp named)]
      rfl

end History

end EntryPointTable

namespace Module

open EntryPointTable (added chosen sinceChoice History)

def Edit.entryPoint? : Edit → Option EntryPointTable.Edit
  | .entryPoint edit => some edit
  | _ => none

def entryPointEdits (m : Module) (edits : List Edit) : List EntryPointTable.Edit :=
  (m.accepted edits).filterMap Edit.entryPoint?

theorem history_run (m : Module) (edits : List Edit) :
    m.entryPoints.History (m.entryPointEdits edits) (m.run edits).entryPoints := by
  induction edits generalizing m with
  | nil => exact .nil m.entryPoints
  | cons edit edits ih =>
    have later := ih (m.perform edit).state
    rw [run_cons, entryPointEdits, accepted]
    cases outcome : (m.perform edit).fault? with
    | none =>
      rw [if_pos rfl]
      have step := accepts_of_done outcome
      generalize (m.perform edit).state = next at step later ⊢
      cases step with
      | entryPoint applied => exact .cons (EntryPointTable.applies_of_ok applied) later
      | growTo | mint | entity | annotate | controlFlow | setSource | declare => exact later
    | some fault =>
      obtain ⟨ids, state⟩ := exists_mark_of_refused outcome
      rw [if_neg (Option.some_ne_none fault)]
      have same : (m.perform edit).state.entryPoints = m.entryPoints := by rw [state]
      exact same ▸ later

/-- The default after a run is the last choice, or the first id added where none was
chosen. Id 0 is passed over in that: while it is the default, the next id added is. -/
theorem defaultEntryPoint_run (m : Module) (edits : List Edit) :
    (m.run edits).entryPoints.defaultId =
      .firstNonNull ((chosen (m.entryPointEdits edits)).getLast?.getD m.entryPoints.defaultId ::
        added (sinceChoice (m.entryPointEdits edits))) ∧
    (m.entryPoints = {} → .null ∉ added (m.entryPointEdits edits) →
      (m.run edits).entryPoints.defaultId =
        ((chosen (m.entryPointEdits edits)).getLast?.or (added (m.entryPointEdits edits)).head?).getD .null) := by
  have history := m.history_run edits
  refine ⟨by rw [history.defaultId_eq, EntryPointTable.foldl_settle], fun fresh unnamed => ?_⟩
  rw [fresh] at history
  exact history.defaultId_of_unnamed unnamed

/-- Two entry points, the first of them declared twice, and one past the bound before them. -/
def declareTwice : List Edit := [.growTo 8,
  .entryPoint (.add (.declare ⟨9⟩ "stray" ⟨0⟩)), .entryPoint (.add (.declare ⟨4⟩ "main" ⟨0⟩)),
  .entryPoint (.add (.declare ⟨5⟩ "other" ⟨4⟩)), .entryPoint (.add (.declare ⟨4⟩ "again" ⟨0⟩))]

theorem defaultEntryPoint_run_declareTwice :
    added ((ofWords []).entryPointEdits declareTwice) = [⟨4⟩, ⟨5⟩, ⟨4⟩] ∧
    ((ofWords []).run declareTwice).entryPoints.defaultId = ⟨4⟩ := by
  have ids : added ((ofWords []).entryPointEdits declareTwice) = [⟨4⟩, ⟨5⟩, ⟨4⟩] := by decide
  have law := (defaultEntryPoint_run (ofWords []) declareTwice).2 rfl (ids ▸ by decide)
  exact ⟨ids, law.trans (by decide)⟩

def declareNull : List Edit := [.growTo 8,
  .entryPoint (.add (.declare ⟨0⟩ "first" ⟨0⟩)), .entryPoint (.add (.declare ⟨5⟩ "second" ⟨4⟩))]

/-- Id 0 is below the bound and is added first, and still it is not the default. -/
theorem defaultEntryPoint_declareNull :
    added ((ofWords []).entryPointEdits declareNull) = [⟨0⟩, ⟨5⟩] ∧
    chosen ((ofWords []).entryPointEdits declareNull) = [] ∧
    ((ofWords []).run declareNull).entryPoints.defaultId = ⟨5⟩ := by decide

end Module

end Shader
