import Mathlib.Combinatorics.Pigeonhole
import Shader.EntityStore
import Shader.Module
import Shader.Proofs.EntityWrites

/-! The chain of types behind a variable. Parents may point anywhere, so nothing about
an id says how far the chain goes on; but the types along it are slots of the store, and
one that is longer than the store has met some id twice and goes round from there. -/

namespace Shader

theorem TypeDecl.isIndirect_iff {type : TypeDecl} :
    type.isIndirect = true ↔ type.pointer = true ∨ type.array ≠ [] := by
  simp [isIndirect, isArray]

namespace EntityStore

variable {store : EntityStore} {start id parent : ResultId} {reads steps more : Nat}
  {answer other : Except Fault ResultId}

/-- What the type at the id points to or is an array of; none where the type is neither
pointer nor array, or where there is no type. -/
def parent? (store : EntityStore) (id : ResultId) : Option ResultId :=
  (store.find? id .type).bind fun type =>
    if type.pointer = true ∨ type.array ≠ [] then some type.parent else none

/-- The id so many steps along the chain, as far as the chain goes. -/
def chain (store : EntityStore) (start : ResultId) : (steps : Nat) → Option ResultId
  | 0 => some start
  | steps + 1 => (store.chain start steps).bind store.parent?

/-- How the chain can end at an id. -/
inductive Ends (store : EntityStore) (id : ResultId) : Except Fault ResultId → Prop where
  | direct {type : TypeDecl} (held : store.find? id .type = some type)
      (direct : type.pointer = false ∧ type.array = []) : Ends store id (.ok id)
  | outOfBounds (outside : ¬ id.index < store.size) :
      Ends store id (.error (.outOfBounds id store.size))
  | otherKind (inside : id.index < store.size) (other : store.kind? id ≠ some .type) :
      Ends store id (.error (.wrongKind id (some .type) (store.kind? id)))

/-- The chain ends within so many reads, with the answer of its last id. -/
def EndsWithin (store : EntityStore) (start : ResultId) (reads : Nat) (answer : Except Fault ResultId) : Prop :=
  ∃ steps < reads, ∃ id, store.chain start steps = some id ∧ store.Ends id answer

def Revisits (store : EntityStore) (start : ResultId) : Prop :=
  ∃ first second id, first < second ∧ store.chain start first = some id ∧
    store.chain start second = some id

/-! ### One read -/

theorem parent?_eq_some : store.parent? id = some parent ↔ ∃ type, store.find? id .type = some type ∧
    (type.pointer = true ∨ type.array ≠ []) ∧ type.parent = parent := by
  simp [parent?, Option.bind_eq_some_iff]

private theorem lt_size_of_parent? (found : store.parent? id = some parent) : id.index < store.size := by
  obtain ⟨type, held, _⟩ := parent?_eq_some.mp found
  exact lt_size_of_fetch (fetch_eq_ok.mpr held)

private theorem resolve_of_parent? (found : store.parent? id = some parent) :
    store.resolve (reads + 1) id = store.resolve reads parent := by
  obtain ⟨type, held, indirect, rfl⟩ := parent?_eq_some.mp found
  rw [resolve, fetch_eq_ok.mpr held]
  exact if_pos (TypeDecl.isIndirect_iff.mpr indirect)

theorem Ends.resolve_eq (ends : store.Ends id answer) : store.resolve (reads + 1) id = some answer := by
  rw [resolve]
  cases ends with
  | direct held direct =>
    rw [fetch_eq_ok.mpr held]
    exact if_neg (by simp [TypeDecl.isIndirect_iff, direct])
  | outOfBounds outside => rw [fetch_eq_error.mpr (.inl ⟨outside, rfl⟩)]
  | otherKind inside different => rw [fetch_eq_error.mpr (.inr ⟨inside, different, rfl⟩)]

theorem Ends.unique (ends : store.Ends id answer) (also : store.Ends id other) : answer = other := by
  have read : store.resolve 1 id = some answer := ends.resolve_eq
  exact Option.some.inj (read.symm.trans also.resolve_eq)

private theorem Ends.parent?_eq_none (ends : store.Ends id answer) : store.parent? id = none := by
  refine Option.eq_none_iff_forall_ne_some.mpr fun parent found => ?_
  obtain ⟨type, held, indirect, _⟩ := parent?_eq_some.mp found
  cases ends with
  | direct read direct =>
    cases held.symm.trans read
    simp [direct] at indirect
  | outOfBounds outside => exact outside (lt_size_of_parent? found)
  | otherKind _ different => exact different (kind?_of_find? held)

private theorem exists_ends (last : store.parent? id = none) : ∃ answer, store.Ends id answer := by
  cases fetched : store.fetch id .type with
  | ok type =>
    have held := fetch_eq_ok.mp fetched
    refine ⟨_, .direct held ?_⟩
    simpa [parent?, held] using last
  | error fault =>
    rcases fetch_eq_error.mp fetched with ⟨outside, _⟩ | ⟨inside, different, _⟩
    · exact ⟨_, .outOfBounds outside⟩
    · exact ⟨_, .otherKind inside different⟩

/-! ### The chain -/

theorem chain_add (steps more : Nat) :
    store.chain start (steps + more) = (store.chain start steps).bind (store.chain · more) := by
  induction more with
  | zero => simp only [Nat.add_zero, chain, Option.bind_fun_some]
  | succ more ih =>
    rw [← Nat.add_assoc, chain, ih, Option.bind_assoc]
    rfl

private theorem chain_succ (steps : Nat) :
    store.chain start (steps + 1) = (store.parent? start).bind (store.chain · steps) := by
  rw [Nat.add_comm, chain_add]
  rfl

theorem isSome_chain_of_le (shorter : steps ≤ more) (long : (store.chain start more).isSome = true) :
    (store.chain start steps).isSome = true := by
  obtain ⟨rest, rfl⟩ := Nat.exists_eq_add_of_le shorter
  rw [chain_add] at long
  exact Option.isSome_of_isSome_bind long

private theorem endsWithin_of_parent? (found : store.parent? start = some parent) :
    store.EndsWithin start (reads + 1) answer ↔ store.EndsWithin parent reads answer := by
  constructor
  · rintro ⟨steps, enough, id, reached, ends⟩
    cases steps with
    | zero =>
      cases reached
      rw [ends.parent?_eq_none] at found
      cases found
    | succ steps =>
      rw [chain_succ, found, Option.bind_some] at reached
      exact ⟨steps, Nat.lt_of_succ_lt_succ enough, id, reached, ends⟩
  · rintro ⟨steps, enough, id, reached, ends⟩
    refine ⟨steps + 1, Nat.succ_lt_succ enough, id, ?_, ends⟩
    rw [chain_succ, found, Option.bind_some, reached]

theorem Ends.endsWithin_iff (here : store.Ends start other) :
    store.EndsWithin start (reads + 1) answer ↔ other = answer := by
  constructor
  · rintro ⟨steps, _, id, reached, ends⟩
    cases steps with
    | zero =>
      cases reached
      exact here.unique ends
    | succ steps =>
      rw [chain_succ, here.parent?_eq_none] at reached
      cases reached
  · rintro rfl
    exact ⟨0, Nat.succ_pos reads, start, rfl, here⟩

theorem resolve_eq_some : store.resolve reads start = some answer ↔ store.EndsWithin start reads answer := by
  induction reads generalizing start with
  | zero => simp [resolve, EndsWithin]
  | succ reads ih =>
    cases found : store.parent? start with
    | some parent => rw [resolve_of_parent? found, endsWithin_of_parent? found, ih]
    | none =>
      obtain ⟨only, here⟩ := exists_ends found
      rw [here.resolve_eq, Option.some.injEq, here.endsWithin_iff]

/-! ### Chains that go round -/

private theorem exists_inside_of_next (next : (store.chain start (steps + 1)).isSome = true) :
    ∃ id, store.chain start steps = some id ∧ id.index < store.size := by
  obtain ⟨id, here⟩ := Option.isSome_iff_exists.mp (isSome_chain_of_le (Nat.le_succ steps) next)
  rw [chain, here, Option.bind_some] at next
  obtain ⟨parent, found⟩ := Option.isSome_iff_exists.mp next
  exact ⟨id, here, lt_size_of_parent? found⟩

/-- A chain of more steps than there are slots starts two of them from the same slot. -/
private theorem revisits_of_long (long : (store.chain start (store.size + 1)).isSome = true) :
    store.Revisits start := by
  have reached : ∀ steps ∈ Finset.range (store.size + 1),
      ∃ id, store.chain start steps = some id ∧ id.index < store.size := by
    intro steps member
    exact exists_inside_of_next (isSome_chain_of_le (Nat.succ_le_of_lt (Finset.mem_range.mp member)) long)
  let place (steps : Nat) : Nat := ((store.chain start steps).getD default).index
  have inside : ∀ steps ∈ Finset.range (store.size + 1), place steps ∈ Finset.range store.size := by
    intro steps member
    obtain ⟨id, here, below⟩ := reached steps member
    rw [Finset.mem_range]
    simpa only [place, here, Option.getD_some] using below
  have more : (Finset.range store.size).card < (Finset.range (store.size + 1)).card := by
    rw [Finset.card_range, Finset.card_range]
    exact Nat.lt_succ_self _
  obtain ⟨first, early, second, late, apart, same⟩ :=
    Finset.exists_ne_map_eq_of_card_lt_of_maps_to more inside
  obtain ⟨one, atFirst, _⟩ := reached first early
  obtain ⟨two, atSecond, _⟩ := reached second late
  simp only [place, atFirst, atSecond, Option.getD_some, ResultId.index_inj] at same
  subst same
  rcases Nat.lt_or_gt_of_ne apart with before | after
  · exact ⟨first, second, one, before, atFirst, atSecond⟩
  · exact ⟨second, first, one, after, atSecond, atFirst⟩

theorem Revisits.isSome_chain (revisits : store.Revisits start) (steps : Nat) :
    (store.chain start steps).isSome = true := by
  obtain ⟨first, second, id, before, atFirst, atSecond⟩ := revisits
  induction steps using Nat.strongRecOn with
  | ind steps ih =>
    by_cases early : steps ≤ second
    · exact isSome_chain_of_le early (Option.isSome_of_eq_some atSecond)
    · -- Past the second meeting, the chain is where it was one round before.
      obtain ⟨rest, rfl⟩ := Nat.exists_eq_add_of_le (Nat.le_of_not_le early)
      have again : store.chain start (second + rest) = store.chain start (first + rest) := by
        rw [chain_add, chain_add, atFirst, atSecond]
      rw [again]
      exact ih (first + rest) (Nat.add_lt_add_right before rest)

theorem Revisits.resolve_eq_none (revisits : store.Revisits start) (reads : Nat) :
    store.resolve reads start = none := by
  refine Option.eq_none_iff_forall_ne_some.mpr fun answer found => ?_
  obtain ⟨steps, _, id, reached, ends⟩ := resolve_eq_some.mp found
  have next := revisits.isSome_chain (steps + 1)
  rw [chain, reached, Option.bind_some, ends.parent?_eq_none] at next
  cases next

private theorem exists_end_of_stopped (stopped : store.chain start reads = none) :
    ∃ answer, store.EndsWithin start reads answer := by
  induction reads with
  | zero => cases stopped
  | succ steps ih =>
    cases reached : store.chain start steps with
    | none =>
      obtain ⟨answer, earlier, before, ends⟩ := ih reached
      exact ⟨answer, earlier, Nat.lt_succ_of_lt before, ends⟩
    | some id =>
      rw [chain, reached, Option.bind_some] at stopped
      obtain ⟨answer, ends⟩ := exists_ends stopped
      exact ⟨answer, steps, Nat.lt_succ_self steps, id, reached, ends⟩

theorem resolve_blockType {var : Variable} (straight : ¬ store.Revisits var.type) :
    store.resolve (store.size + 1) var.type = some (store.blockType var) := by
  have stopped : store.chain var.type (store.size + 1) = none :=
    Option.not_isSome_iff_eq_none.mp (mt revisits_of_long straight)
  obtain ⟨answer, ends⟩ := exists_end_of_stopped stopped
  rw [blockType, resolve_eq_some.mpr ends, Option.getD_some]

theorem endsWithin_of_blockType {var : Variable} (resolved : store.blockType var = .ok id) :
    store.EndsWithin var.type (store.size + 1) (.ok id) := by
  rw [blockType] at resolved
  cases found : store.resolve (store.size + 1) var.type with
  | none =>
    rw [found] at resolved
    cases resolved
  | some answer =>
    rw [found, Option.getD_some] at resolved
    exact resolve_eq_some.mp (resolved ▸ found)

theorem exists_end_of_blockType {var : Variable} (resolved : store.blockType var = .ok id) :
    store.Ends id (.ok id) := by
  obtain ⟨_, _, last, _, ends⟩ := endsWithin_of_blockType resolved
  cases ends with
  | direct held direct => exact .direct held direct

end EntityStore

namespace Module

structure FollowsChain (m : Module) (var : Variable) : Prop where
  reads : ∀ reads answer, m.entities.resolve reads var.type = some answer ↔
    m.entities.EndsWithin var.type reads answer
  ends : ¬ m.entities.Revisits var.type →
    m.entities.resolve (m.bound + 1) var.type = some (m.entities.blockType var)
  circles : m.entities.Revisits var.type → ∀ reads, m.entities.resolve reads var.type = none

/-- The loop gives the answer of the id that the chain ends at. It takes at most one read
more than there are ids, unless the chain meets an id twice, and then it never ends. -/
theorem follows_chain (m : Module) (var : Variable) : m.FollowsChain var where
  reads _ _ := EntityStore.resolve_eq_some
  ends := EntityStore.resolve_blockType
  circles := EntityStore.Revisits.resolve_eq_none

/-- A struct behind pointers and arrays declared in no order, two pointers to one another,
and pointers to a constant and past the bound. -/
def typeChains : Module :=
  (ofWords []).run [.growTo 9, .entity (.put ⟨3⟩ .type (.ofMembers [])),
    .entity (.put ⟨1⟩ .type { pointer := true, parent := ⟨5⟩ }),
    .entity (.put ⟨5⟩ .type { array := [4], parent := ⟨2⟩ }),
    .entity (.put ⟨2⟩ .type { array := [0], parent := ⟨3⟩ }),
    .entity (.put ⟨6⟩ .type { pointer := true, parent := ⟨7⟩ }),
    .entity (.put ⟨7⟩ .type { pointer := true, parent := ⟨6⟩ }),
    .entity (.put ⟨4⟩ .constant (.scalar .null 1)),
    .entity (.put ⟨8⟩ .type { pointer := true, parent := ⟨4⟩ }),
    .entity (.put ⟨0⟩ .type { pointer := true, parent := ⟨9⟩ })]

theorem follows_chain_typeChains :
    (typeChains.entities.resolve 4 ⟨1⟩ = some (.ok ⟨3⟩) ∧ ¬ typeChains.entities.Revisits ⟨1⟩ ∧
      typeChains.entities.resolve 10 ⟨1⟩ = some (typeChains.entities.blockType { type := ⟨1⟩ })) ∧
    typeChains.entities.resolve 2 ⟨8⟩ = some (.error (.wrongKind ⟨4⟩ (some .type) (some .constant))) ∧
    typeChains.entities.resolve 2 ⟨0⟩ = some (.error (.outOfBounds ⟨9⟩ 9)) ∧
    typeChains.entities.Revisits ⟨6⟩ ∧ ∀ reads, typeChains.entities.resolve reads ⟨6⟩ = none := by
  have behind := follows_chain typeChains { type := ⟨1⟩ }
  have held : typeChains.entities.find? ⟨3⟩ .type = some (.ofMembers []) := by decide
  have resolved : typeChains.entities.resolve 4 ⟨1⟩ = some (.ok ⟨3⟩) :=
    (behind.reads _ _).mpr ⟨3, by decide, ⟨3⟩, by decide, .direct held (by decide)⟩
  have straight : ¬ typeChains.entities.Revisits ⟨1⟩ := by
    intro round
    cases (behind.circles round 4).symm.trans resolved
  have round : typeChains.entities.Revisits ⟨6⟩ := ⟨0, 2, ⟨6⟩, by decide, by decide, by decide⟩
  refine ⟨⟨resolved, straight, behind.ends straight⟩, ?_, ?_, round,
    (follows_chain typeChains { type := ⟨6⟩ }).circles round⟩
  · refine ((follows_chain typeChains { type := ⟨8⟩ }).reads _ _).mpr ⟨1, by decide, ⟨4⟩, by decide, ?_⟩
    exact .otherKind (by decide) (by decide)
  · refine ((follows_chain typeChains { type := ⟨0⟩ }).reads _ _).mpr ⟨1, by decide, ⟨9⟩, by decide, ?_⟩
    exact .outOfBounds (by decide)

end Module

end Shader
