import Mathlib.Data.List.Nodup
import Shader.Proofs.EntityWrites
import Shader.Proofs.IdMinting

/-! The ways to a payload: looking whether it is there, asking for it, changing it, and
going through all payloads of its kind. They find the same one, or the ones that insist
on it give the same reason. The listings number the slots with words, which takes the bound
to be a word. -/

namespace Shader

namespace EntityStore

variable {store : EntityStore} {id : ResultId} {kind : Kind}

theorem foldKind_append : store.foldKind kind (fun entries id payload => entries ++ [(id, payload)]) [] =
    store.ofKind kind := by
  rw [foldKind, List.foldl_append_eq_append (f := fun entry => [entry]), List.nil_append,
    ← List.flatMap_def, List.flatMap_singleton']

theorem exists_find?_of_kind? (known : store.kind? id = some kind) : ∃ payload, store.find? id kind = some payload := by
  obtain ⟨slot, held, same⟩ := Option.bind_eq_some_iff.mp known
  obtain ⟨⟨_, payload⟩, rfl, rfl⟩ := Option.map_eq_some_iff.mp same
  exact ⟨payload, find?_eq_some.mpr held⟩

private theorem lt_size_of_kind? (taken : store.kind? id ≠ none) : id.index < store.size := by
  obtain ⟨kind, known⟩ := Option.ne_none_iff_exists'.mp taken
  obtain ⟨payload, found⟩ := exists_find?_of_kind? known
  exact lt_size_of_fetch (fetch_eq_ok.mpr found)

/-- The ids of all entities, kind by kind. -/
def ids (store : EntityStore) : List ResultId :=
  Kind.all.flatMap fun kind => (store.ofKind kind).map (·.1)

section Numbered

variable (word : store.size < UInt32.size)
include word

theorem mem_ofKind_iff {payload : kind.Payload} :
    (id, payload) ∈ store.ofKind kind ↔ store.find? id kind = some payload := by
  refine ⟨fun listed => ?_, mem_ofKind⟩
  obtain ⟨⟨slot, index⟩, numbered, read⟩ := List.mem_filterMap.mp listed
  obtain ⟨_, stored, same⟩ := Option.map_eq_some_iff.mp read
  cases same
  have held : store.slots[index]? = some slot := by
    rw [← Array.getElem?_toList]
    exact List.mk_mem_zipIdx_iff_getElem?.mp numbered
  have inside : index < store.size := (Array.getElem?_eq_some_iff.mp held).1
  rw [find?, ResultId.index_ofIndex (Nat.lt_trans inside word), held]
  exact stored

theorem pairwise_ofKind (kind : Kind) : (store.ofKind kind).Pairwise fun entry next => entry.1 < next.1 := by
  rw [ofKind, List.pairwise_filterMap, List.pairwise_iff_getElem]
  intro first second _ inside before entry read next also
  rw [List.length_zipIdx, Array.length_toList] at inside
  rw [List.getElem_zipIdx] at read also
  obtain ⟨_, _, rfl⟩ := Option.map_eq_some_iff.mp read
  obtain ⟨_, _, rfl⟩ := Option.map_eq_some_iff.mp also
  have small : second < UInt32.size := Nat.lt_trans inside word
  simp only [Nat.zero_add, ResultId.lt_iff_index]
  rw [ResultId.index_ofIndex (Nat.lt_trans before small), ResultId.index_ofIndex small]
  exact before

private theorem mem_map_ofKind : id ∈ (store.ofKind kind).map (·.1) ↔ store.kind? id = some kind := by
  constructor
  · intro listed
    obtain ⟨⟨_, payload⟩, member, rfl⟩ := List.mem_map.mp listed
    exact kind?_of_find? ((mem_ofKind_iff word).mp member)
  · intro known
    obtain ⟨payload, found⟩ := exists_find?_of_kind? known
    exact List.mem_map.mpr ⟨(id, payload), mem_ofKind found, rfl⟩

theorem mem_ids : id ∈ store.ids ↔ store.kind? id ≠ none := by
  rw [ids, List.mem_flatMap, ← Option.isSome_iff_ne_none, Option.isSome_iff_exists]
  constructor
  · rintro ⟨kind, _, listed⟩
    exact ⟨kind, (mem_map_ofKind word).mp listed⟩
  · rintro ⟨kind, known⟩
    exact ⟨kind, kind.mem_all, (mem_map_ofKind word).mpr known⟩

theorem nodup_ids : store.ids.Nodup := by
  refine List.nodup_flatMap.mpr ⟨fun kind _ => ?_, Kind.nodup_all.imp fun other => ?_⟩
  · refine List.Pairwise.map _ (fun entry next before same => ?_) (pairwise_ofKind word kind)
    rw [ResultId.lt_iff_index, same] at before
    exact Nat.lt_irrefl _ before
  · intro id here there
    rw [mem_map_ofKind word] at here there
    exact other (Option.some.inj (here.symm.trans there))

theorem count_ids (id : ResultId) : store.ids.count id = if store.kind? id ≠ none then 1 else 0 := by
  rw [(nodup_ids word).count]
  exact if_congr (mem_ids word) rfl rfl

end Numbered

end EntityStore

namespace Module

variable {m : Module} {id : ResultId} {kind : Kind} {payload : kind.Payload}

/-- Why there is no payload of the kind under the id. -/
def lacks (m : Module) (id : ResultId) (kind : Kind) : Fault :=
  if id.index < m.bound then .wrongKind id kind (m.entities.kind? id) else .outOfBounds id m.bound

theorem fetch_of_absent (absent : m.entities.find? id kind = none) :
    m.entities.fetch id kind = .error (m.lacks id kind) := by
  rw [EntityStore.fetch_eq_error, lacks, bound]
  by_cases inside : id.index < m.entities.size
  · refine .inr ⟨inside, fun known => ?_, if_pos inside⟩
    obtain ⟨payload, found⟩ := EntityStore.exists_find?_of_kind? known
    cases absent.symm.trans found
  · exact .inl ⟨inside, if_neg inside⟩

private theorem perform_modify_of_absent (absent : m.entities.find? id kind = none)
    (change : kind.Payload → kind.Payload) : m.perform (.entity (.modify id kind change)) =
      { state := m, fault? := some (m.lacks id kind) } := by
  rw [perform, EntityStore.perform, EntityStore.modify_eq_map_fetch, fetch_of_absent absent]
  rfl

private theorem perform_modify_of_found (found : m.entities.find? id kind = some payload)
    (change : kind.Payload → kind.Payload) : m.perform (.entity (.modify id kind change)) =
      .done { m with entities := m.entities.write id ⟨kind, change payload⟩ } := by
  rw [perform, EntityStore.perform, EntityStore.modify_eq_map_fetch, EntityStore.fetch_eq_ok.mpr found]
  rfl

/-- What a change is given can be read off what it leaves, so one that keeps the payload
is enough to tell. -/
private theorem found_of_perform_modify (changed : m.perform (.entity (.modify id kind fun held => held)) =
    .done { m with entities := m.entities.write id ⟨kind, payload⟩ }) :
    m.entities.find? id kind = some payload := by
  cases found : m.entities.find? id kind with
  | none =>
    rw [perform_modify_of_absent found] at changed
    cases congrArg Outcome.fault? changed
  | some held =>
    have inside := EntityStore.lt_size_of_fetch (EntityStore.fetch_eq_ok.mpr found)
    rw [perform_modify_of_found found] at changed
    have same : m.entities.write id ⟨kind, held⟩ = m.entities.write id ⟨kind, payload⟩ :=
      congrArg (·.state.entities) changed
    have read := congrArg (·.slots[id.index]?) same
    simp only [EntityStore.getElem?_write_self inside, Option.some.injEq, Entity.mk.injEq, heq_eq_eq,
      true_and] at read
    rw [read]

/-- The ways to the payload of kind `kind` under an id. -/
structure TypedAccess (m : Module) (id : ResultId) (kind : Kind) : Prop where
  fetched : ∀ payload, m.entities.fetch id kind = .ok payload ↔ m.entities.find? id kind = some payload
  given : ∀ payload, (∀ change, m.perform (.entity (.modify id kind change)) =
    .done { m with entities := m.entities.write id ⟨kind, change payload⟩ }) ↔
      m.entities.find? id kind = some payload
  listed : ∀ payload, (id, payload) ∈ m.entities.ofKind kind ↔ m.entities.find? id kind = some payload
  known : ∀ payload, m.entities.find? id kind = some payload → m.entities.kind? id = some kind
  refused : m.entities.find? id kind = none → m.entities.fetch id kind = .error (m.lacks id kind) ∧
    ∀ change, m.perform (.entity (.modify id kind change)) = { state := m, fault? := some (m.lacks id kind) }

structure TypedListings (m : Module) : Prop where
  visited : ∀ kind, m.entities.foldKind kind (fun entries id payload => entries ++ [(id, payload)]) [] =
    m.entities.ofKind kind
  ascending : ∀ kind, (m.entities.ofKind kind).Pairwise fun entry next => entry.1 < next.1
  once : ∀ id, m.entities.ids.count id = if id.index < m.bound ∧ m.entities.kind? id ≠ none then 1 else 0

/-- All ways to a payload agree on whether it is there and what it is. Those that insist on
it are refused alike, by the bound before the kind. The listings are ascending and name
each id that is taken once. -/
theorem typed_access (m : Module) (reached : m.Reachable) :
    (∀ id kind, m.TypedAccess id kind) ∧ m.TypedListings := by
  have word := reached.bounded.word
  refine ⟨fun id kind => ⟨?_, ?_, ?_, ?_, ?_⟩, fun kind => ?_, ?_, fun id => ?_⟩
  · exact fun _ => EntityStore.fetch_eq_ok
  · exact fun _ => ⟨fun changed => found_of_perform_modify (changed _), perform_modify_of_found⟩
  · exact fun _ => EntityStore.mem_ofKind_iff word
  · exact fun _ => EntityStore.kind?_of_find?
  · exact fun absent => ⟨fetch_of_absent absent, perform_modify_of_absent absent⟩
  · exact EntityStore.foldKind_append
  · exact EntityStore.pairwise_ofKind word
  · rw [EntityStore.count_ids word]
    refine if_congr (iff_and_self.mpr fun taken => ?_) rfl rfl
    exact EntityStore.lt_size_of_kind? taken

def scattered : Module := (ofWords []).run [.growTo 5, .entity (.put ⟨4⟩ .type (.ofMembers [⟨2⟩])),
  .entity (.put ⟨3⟩ .constant (.scalar .null 7)), .entity (.put ⟨2⟩ .type {})]

theorem typed_access_scattered : scattered.Reachable ∧
    ((⟨3⟩, .scalar .null 7) ∈ scattered.entities.ofKind .constant ∧
      scattered.entities.kind? ⟨3⟩ = some .constant) ∧
    (∀ change, scattered.perform (.entity (.modify ⟨3⟩ .type change)) =
      { state := scattered, fault? := some (.wrongKind ⟨3⟩ (some .type) (some .constant)) }) ∧
    scattered.entities.fetch ⟨5⟩ .type = .error (.outOfBounds ⟨5⟩ 5) ∧
    (scattered.entities.ofKind .type).map (·.1) = [⟨2⟩, ⟨4⟩] ∧ scattered.entities.ids.count ⟨3⟩ = 1 ∧
    scattered.entities.ids.count ⟨1⟩ = 0 := by
  have reached : scattered.Reachable := (Reachable.words []).run _
  obtain ⟨paths, listings⟩ := typed_access scattered reached
  have found : scattered.entities.find? ⟨3⟩ .constant = some (.scalar .null 7) := by decide
  have mistyped : scattered.entities.find? ⟨3⟩ .type = none := by decide
  have beyond : scattered.entities.find? ⟨5⟩ .type = none := by decide
  have constant := paths ⟨3⟩ .constant
  refine ⟨reached, ⟨(constant.listed _).mpr found, constant.known _ found⟩, ?_, ?_, by decide, ?_, ?_⟩
  · exact ((paths ⟨3⟩ .type).refused mistyped).2
  · exact ((paths ⟨5⟩ .type).refused beyond).1
  · rw [listings.once]
    decide
  · rw [listings.once]
    decide

end Module

end Shader
