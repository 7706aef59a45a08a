import Shader.Proofs.ModuleInvariant

/-! Ids are handed out once. The bound only grows, every mint takes the ids from the
old bound to the new one, and nothing is ever recorded under an id past the bound, so
what a mint hands out is unused and no later mint hands it out again. -/

namespace Shader

structure IdRange where
  first : ResultId
  count : Word
  deriving DecidableEq, Repr

namespace IdRange

instance : Membership ResultId IdRange where
  mem range id := range.first.index ≤ id.index ∧ id.index < range.first.index + range.count.toNat

def Disjoint (range other : IdRange) : Prop := ∀ id ∈ range, id ∉ other

private theorem disjoint_of_le {range other : IdRange}
    (before : range.first.index + range.count.toNat ≤ other.first.index) : range.Disjoint other := by
  rintro id ⟨_, inside⟩ ⟨again, _⟩
  omega

end IdRange

private theorem EntryPointTable.mem_entries_apply {table next : EntryPointTable} {bound : Nat} {edit : Edit}
    {id : ResultId} (applied : table.apply bound edit = .ok next) (listed : id ∈ next.entries) :
    id.index < bound ∨ id ∈ table.entries := by
  cases applies_of_ok applied with
  | add inside =>
    rcases Std.ExtTreeMap.mem_insert.mp listed with same | known
    · rw [← Std.LawfulEqOrd.eq_of_compare same]
      exact .inl inside
    · exact .inr known
  | modify => exact .inr (Std.ExtTreeMap.mem_modify.mp listed)
  | choose => exact .inr listed

namespace Module

variable {m next : Module} {edit : Edit} {edits : List Edit}

theorem bound_growTo (bound : Nat) : (m.growTo bound).bound = max m.bound bound :=
  EntityStore.size_growTo bound

private theorem bound_growTo_add (count : Nat) : (m.growTo (m.bound + count)).bound = m.bound + count := by
  rw [bound_growTo]
  omega

def Edit.raise (bound : Nat) : Edit → Nat
  | .growTo wanted => max bound wanted.toNat
  | .mint count => bound + count.toNat
  | _ => bound

theorem Accepts.bound_eq (accepted : m.Accepts edit next) : next.bound = edit.raise m.bound := by
  cases accepted with
  | growTo bound => exact bound_growTo _
  | mint fits => exact bound_growTo_add _
  | @entity edit entities performed =>
    have kept := m.entities.size_perform edit
    rwa [performed] at kept
  | annotate | controlFlow | entryPoint | setSource | declare => rfl

theorem bound_run (m : Module) (edits : List Edit) :
    (m.run edits).bound = (m.accepted edits).foldl Edit.raise m.bound :=
  view_run bound Edit.raise (fun _ _ _ accepted => accepted.bound_eq)
    (fun _ ids => EntityStore.size_mark ids) m edits

private theorem Edit.le_raise (bound : Nat) (edit : Edit) : bound ≤ edit.raise bound := by
  cases edit with
  | growTo wanted => exact Nat.le_max_left _ _
  | mint count => exact Nat.le_add_right _ _
  | entity | annotate | controlFlow | entryPoint | setSource | declare => exact Nat.le_refl _

theorem bound_le_run (m : Module) (edits : List Edit) : m.bound ≤ (m.run edits).bound := by
  rw [bound_run]
  generalize m.bound = bound
  induction m.accepted edits generalizing bound with
  | nil => exact Nat.le_refl _
  | cons edit edits ih => exact Nat.le_trans (edit.le_raise bound) (ih _)

theorem mint_eq_ok {count : Word} {first : ResultId} : m.mint count = .ok (first, next) ↔
    m.bound + count.toNat < UInt32.size ∧ first = .ofIndex m.bound ∧
      next = m.growTo (m.bound + count.toNat) := by
  by_cases fits : m.bound + count.toNat < UInt32.size <;> simp [mint, fits, eq_comm]

theorem perform_mint_refused {count : Word} (exceeds : UInt32.size ≤ m.bound + count.toNat) :
    m.perform (.mint count) = { state := m, fault? := some (.idsExhausted m.bound count) } := by
  rw [perform, mint, if_neg (Nat.not_lt.mpr exceeds)]
  rfl

theorem perform_mint_accepted {count : Word} :
    (m.perform (.mint count)).fault? = none ↔ m.bound + count.toNat < UInt32.size := by
  by_cases fits : m.bound + count.toNat < UInt32.size
  · simp only [(Accepts.mint fits).perform, Outcome.done, fits]
  · simp only [perform_mint_refused (Nat.not_lt.mp fits), fits, Option.some_ne_none]

/-- The ids an edit hands out. -/
def handsOut? (m : Module) : Edit → Option IdRange
  | .mint count => (m.mint count).toOption.map fun (first, _) => { first, count }
  | _ => none

/-- The ids that a run hands out, a range for each of its accepted mints. -/
def minted (m : Module) : List Edit → List IdRange
  | [] => []
  | edit :: edits => (m.handsOut? edit).toList ++ (m.perform edit).state.minted edits

private theorem mint_of_handsOut? {range : IdRange} (handed : m.handsOut? edit = some range) :
    edit = .mint range.count ∧ ∃ next, m.mint range.count = .ok (range.first, next) := by
  cases edit with
  | mint count =>
    obtain ⟨⟨first, next⟩, granted, rfl⟩ := Option.map_eq_some_iff.mp handed
    cases result : m.mint count with
    | error fault => simp [result, Except.toOption] at granted
    | ok value =>
      rw [result] at granted
      cases granted
      exact ⟨rfl, next, rfl⟩
  | growTo | entity | annotate | controlFlow | entryPoint | setSource | declare => cases handed

private theorem index_first_of_mint {count : Word} {first : ResultId}
    (granted : m.mint count = .ok (first, next)) : first.index = m.bound := by
  obtain ⟨fits, rfl, _⟩ := mint_eq_ok.mp granted
  exact ResultId.index_ofIndex (by omega)

private theorem bound_of_mint {count : Word} {first : ResultId} (granted : m.mint count = .ok (first, next)) :
    next.bound = first.index + count.toNat := by
  rw [index_first_of_mint granted]
  obtain ⟨_, _, rfl⟩ := mint_eq_ok.mp granted
  exact bound_growTo_add _

private theorem perform_mint {count : Word} {first : ResultId} (granted : m.mint count = .ok (first, next)) :
    m.perform (.mint count) = .done next := by
  rw [perform, granted]
  rfl

private theorem bound_le_minted (m : Module) (edits : List Edit) :
    ∀ range ∈ m.minted edits, m.bound ≤ range.first.index := by
  induction edits generalizing m with
  | nil => exact fun _ member => (List.not_mem_nil member).elim
  | cons edit edits ih =>
    intro range member
    rcases List.mem_append.mp member with now | later
    · obtain ⟨_, next, granted⟩ := mint_of_handsOut? (Option.mem_toList.mp now)
      exact Nat.le_of_eq (index_first_of_mint granted).symm
    · exact Nat.le_trans (bound_le_run m [edit]) (ih _ range later)

/-- A mint takes its ids from between the bounds before and after it, so later mints
of the run start past them. -/
theorem minted_pairwise (m : Module) (edits : List Edit) :
    (m.minted edits).Pairwise IdRange.Disjoint := by
  induction edits generalizing m with
  | nil => exact .nil
  | cons edit edits ih =>
    refine List.pairwise_append.mpr ⟨?_, ih _, ?_⟩
    · cases m.handsOut? edit with
      | none => exact .nil
      | some range => exact List.pairwise_singleton _ _
    · intro range now other later
      obtain ⟨rfl, next, granted⟩ := mint_of_handsOut? (Option.mem_toList.mp now)
      apply IdRange.disjoint_of_le
      rw [← bound_of_mint granted]
      rw [perform_mint granted] at later
      exact bound_le_minted next edits other later

/-! ### What is recorded below the bound -/

/-- Every bound is a word, and entry points are recorded under ids below it. -/
structure Bounded (m : Module) : Prop where
  word : m.bound < UInt32.size
  keys : ∀ id ∈ m.entryPoints.entries, id.index < m.bound

namespace Bounded

private theorem growTo (bounded : m.Bounded) {bound : Nat} (word : bound < UInt32.size) :
    (m.growTo bound).Bounded where
  word := by
    rw [bound_growTo]
    exact Nat.max_lt.mpr ⟨bounded.word, word⟩
  keys id listed := by
    have inside := bounded.keys id listed
    rw [bound_growTo]
    omega

private theorem accepts (bounded : m.Bounded) (accepted : m.Accepts edit next) : next.Bounded := by
  have raised := accepted.bound_eq
  cases accepted with
  | growTo bound => exact bounded.growTo bound.toNat_lt
  | mint fits => exact bounded.growTo fits
  | entity performed => exact ⟨raised ▸ bounded.word, raised ▸ bounded.keys⟩
  | entryPoint applied =>
    refine ⟨bounded.word, fun id listed => ?_⟩
    exact (EntryPointTable.mem_entries_apply applied listed).elim (fun inside => inside) (bounded.keys id)
  | annotate | controlFlow | setSource | declare => exact ⟨bounded.word, bounded.keys⟩

end Bounded

theorem Reachable.bounded (reached : m.Reachable) : m.Bounded := by
  refine reached.invariant ?_ (fun bounded accepted => bounded.accepts accepted) ?_
  · exact fun _ => ⟨Nat.zero_lt_succ _, fun _ listed => (Std.ExtTreeMap.not_mem_empty listed).elim⟩
  · intro m ids bounded
    have same : ({ m with entities := m.entities.mark ids } : Module).bound = m.bound :=
      EntityStore.size_mark ids
    exact ⟨same.symm ▸ bounded.word, same.symm ▸ bounded.keys⟩

/-- Unused ids that a mint has put in place. -/
structure Fresh (before after : Module) (range : IdRange) : Prop where
  past : ∀ id ∈ range, before.bound ≤ id.index
  valid : ∀ id ∈ range, id.index < after.bound
  empty : ∀ id ∈ range, after.entities.slot id = .ok none ∧ after.entities.kind? id = none
  blank : ∀ id ∈ range, after.annotations.record? id = some default
  unlisted : ∀ id ∈ range, id ∉ after.entryPoints.entries

/-- What was recorded in the two stores under an id below the bound still is. -/
structure Extends (before after : Module) : Prop where
  slots : ∀ index < before.bound, after.entities.slots[index]? = before.entities.slots[index]?
  records : ∀ index < before.bound, after.annotations.records[index]? = before.annotations.records[index]?

private theorem extends_growTo (sizes : m.entities.size = m.annotations.size) (bound : Nat) :
    Extends m (m.growTo bound) where
  slots _ inside := getElem?_grow_of_lt inside bound
  records _ inside := getElem?_grow_of_lt (Nat.lt_of_lt_of_eq inside sizes) bound

private theorem fresh_of_mint {count : Word} {first : ResultId} (coherent : m.Coherent) (bounded : m.Bounded)
    (granted : m.mint count = .ok (first, next)) : Fresh m next { first, count } := by
  have start := index_first_of_mint granted
  have stop := bound_of_mint granted
  obtain ⟨_, _, rfl⟩ := mint_eq_ok.mp granted
  have past : ∀ id ∈ ({ first, count } : IdRange), m.bound ≤ id.index :=
    fun id inside => start ▸ inside.1
  have below : ∀ id ∈ ({ first, count } : IdRange), id.index < m.bound + count.toNat :=
    fun id inside => start ▸ inside.2
  have slots : ∀ id ∈ ({ first, count } : IdRange),
      (m.growTo (m.bound + count.toNat)).entities.slots[id.index]? = some none :=
    fun id inside => getElem?_grow_of_le (past id inside) (below id inside)
  refine ⟨past, fun id inside => stop ▸ inside.2, ?_, ?_, ?_⟩
  · intro id inside
    refine ⟨EntityStore.slot_eq_ok.mpr (slots id inside), ?_⟩
    rw [EntityStore.kind?, slots id inside]
    rfl
  · intro id inside
    have missing : m.annotations.size ≤ id.index := coherent.sizes ▸ past id inside
    exact getElem?_grow_of_le missing (below id inside)
  · intro id inside listed
    exact Nat.not_lt.mpr (past id inside) (bounded.keys id listed)

/-- How a module hands out ids, from now on through any run. -/
structure MintsOnce (m : Module) : Prop where
  entities : m.entities.size = m.bound
  annotations : m.annotations.size = m.bound
  word : m.bound ≤ UInt32.size - 1
  grows : ∀ edits, m.bound ≤ (m.run edits).bound
  raised : ∀ edits, (m.run edits).bound = (m.accepted edits).foldl Edit.raise m.bound
  refuses : ∀ count, (m.perform (.mint count)).fault? ≠ none ↔
    UInt32.size - 1 < m.bound + count.toNat
  refused : ∀ count fault, (m.perform (.mint count)).fault? = some fault →
    fault = .idsExhausted m.bound count ∧ (m.perform (.mint count)).state = m
  fresh : ∀ count first next, m.mint count = .ok (first, next) → Fresh m next { first, count }
  disjoint : ∀ edits, (m.minted edits).Pairwise IdRange.Disjoint
  extends_growTo : ∀ bound, Extends m (m.perform (.growTo bound)).state
  extends_mint : ∀ count, Extends m (m.perform (.mint count)).state

theorem mintsOnce (m : Module) (reached : m.Reachable) : m.MintsOnce where
  entities := rfl
  annotations := reached.coherent.sizes.symm
  word := Nat.le_sub_one_of_lt reached.bounded.word
  grows := bound_le_run m
  raised := bound_run m
  refuses count := by
    have positive : 0 < UInt32.size := Nat.zero_lt_succ _
    rw [ne_eq, perform_mint_accepted]
    omega
  refused count fault refused := by
    by_cases fits : m.bound + count.toNat < UInt32.size
    · rw [(Accepts.mint fits).perform] at refused
      cases refused
    · rw [perform_mint_refused (Nat.not_lt.mp fits)] at refused ⊢
      cases refused
      exact ⟨rfl, rfl⟩
  fresh _ _ _ := fresh_of_mint reached.coherent reached.bounded
  disjoint := minted_pairwise m
  extends_growTo bound := extends_growTo reached.coherent.sizes bound.toNat
  extends_mint count := by
    by_cases fits : m.bound + count.toNat < UInt32.size
    · rw [(Accepts.mint fits).perform]
      exact extends_growTo reached.coherent.sizes _
    · rw [perform_mint_refused (Nat.not_lt.mp fits)]
      exact ⟨fun _ _ => rfl, fun _ _ => rfl⟩

/-- Ids from a header's bound and from a mint, with an entry point on the last of them. -/
def lastListed : Module := (ofWords []).run
  [.growTo 3, .mint 2, .entryPoint (.add (.declare ⟨4⟩ "main" ⟨0⟩)), .mint 0xFFFFFFFF]

theorem mintsOnce_lastListed : lastListed.Reachable ∧
    lastListed.minted [.mint 2, .growTo 9, .mint 0xFFFFFFFF, .mint 1] = [⟨⟨5⟩, 2⟩, ⟨⟨9⟩, 1⟩] ∧
    (⟨⟨5⟩, 2⟩ : IdRange).Disjoint ⟨⟨9⟩, 1⟩ ∧ Fresh lastListed (lastListed.growTo 7) ⟨⟨5⟩, 2⟩ := by
  have reached : lastListed.Reachable := (Reachable.words []).run _
  have laws := mintsOnce lastListed reached
  have handed : lastListed.minted [.mint 2, .growTo 9, .mint 0xFFFFFFFF, .mint 1] =
      [⟨⟨5⟩, 2⟩, ⟨⟨9⟩, 1⟩] := by decide
  have apart := laws.disjoint [.mint 2, .growTo 9, .mint 0xFFFFFFFF, .mint 1]
  rw [handed, List.pairwise_pair] at apart
  exact ⟨reached, handed, apart, laws.fresh 2 ⟨5⟩ _ (mint_eq_ok.mpr (by decide))⟩

end Module

end Shader
