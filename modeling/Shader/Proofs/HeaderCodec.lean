import Mathlib.Data.List.Basic
import Shader.Proofs.IdMinting

/-! The header in front of a binary module. Words are read as a header if they are its own words
with anything after them, and are refused for their number before they are refused for the first
of them. A module is refused for nothing else, and starts out with every id that its header
declares, all of them empty. No later edit takes its words or any of these ids away. -/

namespace Shader

namespace Header

/-- What words are read as, by the shape they have. -/
inductive Reads : List Word → Except Fault Header → Prop where
  | header (header : Header) (tail : List Word) : Reads (header.toWords ++ tail) (.ok header)
  | badMagic {first : Word} (other : first ≠ magic) (version generator bound schema : Word) (tail : List Word) :
      Reads (first :: version :: generator :: bound :: schema :: tail) (.error (.badMagic first))
  | truncated {words : List Word} (short : words.length < length) :
      Reads words (.error (.truncatedHeader words.length))

/-- A version word, from its bytes. -/
def versionWord (top major minor bottom : UInt8) : Word :=
  top.toUInt32 * 0x1000000 + major.toUInt32 * 0x10000 + minor.toUInt32 * 0x100 + bottom.toUInt32

variable {words : List Word} {header : Header}

/-! ### Reading -/

private theorem parse_of_short (short : words.length < length) :
    parse words = .error (.truncatedHeader words.length) := by
  rw [parse]
  rintro first version generator bound schema tail rfl
  exact absurd short (Nat.not_lt.mpr (Nat.le_add_left length tail.length))

private theorem parse_toWords_append (header : Header) (tail : List Word) :
    parse (header.toWords ++ tail) = .ok header := by
  simp [toWords, parse]

theorem reads_parse (words : List Word) : Reads words (parse words) := by
  rcases words with _ | ⟨first, _ | ⟨version, _ | ⟨generator, _ | ⟨bound, _ | ⟨schema, tail⟩⟩⟩⟩⟩
  case cons.cons.cons.cons.cons =>
    by_cases same : first = magic
    · subst same
      exact .header { version, generator, bound, schema } tail
    · rw [parse, if_neg same]
      exact .badMagic same version generator bound schema tail
  all_goals exact .truncated (by simp [length])

theorem parse_eq_iff {result : Except Fault Header} : parse words = result ↔ Reads words result := by
  constructor
  · rintro rfl
    exact reads_parse words
  · intro reads
    cases reads with
    | header header tail => exact parse_toWords_append header tail
    | badMagic other => exact if_neg other
    | truncated short => exact parse_of_short short

private theorem take_eq_toWords (parsed : parse words = .ok header) : words.take length = header.toWords := by
  cases parse_eq_iff.mp parsed with
  | header header tail => rfl

/-! ### Versions -/

private theorem toNat_versionWord (top major minor bottom : UInt8) :
    (versionWord top major minor bottom).toNat =
    top.toNat * 0x1000000 + major.toNat * 0x10000 + minor.toNat * 0x100 + bottom.toNat := by
  have := top.toNat_lt
  have := major.toNat_lt
  have := minor.toNat_lt
  have := bottom.toNat_lt
  simp only [versionWord, UInt32.toNat_add, UInt32.toNat_mul, UInt8.toNat_toUInt32, UInt32.reduceToNat]
  omega

theorem versionPair_eq_iff {major minor : UInt8} : header.versionPair = (major, minor) ↔
    header.version.toNat / 0x10000 % 0x100 = major.toNat ∧ header.version.toNat / 0x100 % 0x100 = minor.toNat := by
  have high : (header.version >>> 16).toUInt8.toNat = header.version.toNat / 0x10000 % 0x100 := by
    rw [UInt32.toNat_toUInt8, UInt32.toNat_shiftRight, Nat.shiftRight_eq_div_pow]
    rfl
  have low : (header.version >>> 8).toUInt8.toNat = header.version.toNat / 0x100 % 0x100 := by
    rw [UInt32.toNat_toUInt8, UInt32.toNat_shiftRight, Nat.shiftRight_eq_div_pow]
    rfl
  rw [versionPair, Prod.mk.injEq, ← UInt8.toNat_inj, ← UInt8.toNat_inj, high, low]

theorem versionPair_eq_iff_bytes {major minor : UInt8} : header.versionPair = (major, minor) ↔
    ∃ top bottom : UInt8, header.version = versionWord top major minor bottom := by
  rw [versionPair_eq_iff]
  constructor
  · rintro ⟨high, low⟩
    refine ⟨.ofNat (header.version.toNat / 0x1000000), .ofNat header.version.toNat, UInt32.toNat_inj.mp ?_⟩
    have word := header.version.toNat_lt
    rw [toNat_versionWord, UInt8.toNat_ofNat', UInt8.toNat_ofNat']
    omega
  · rintro ⟨top, bottom, same⟩
    have := major.toNat_lt
    have := minor.toNat_lt
    have := bottom.toNat_lt
    rw [same, toNat_versionWord]
    omega

private theorem versionPair_of_middle {major minor : UInt8}
    (version : header.version = major.toUInt32 * 0x10000 + minor.toUInt32 * 0x100) :
    header.versionPair = (major, minor) :=
  versionPair_eq_iff_bytes.mpr ⟨0, 0, version.trans (by simp [versionWord])⟩

end Header

namespace Module

variable {words : List Word} {header : Header}

/-! ### Decoding -/

theorem ofBinary_eq_error {fault : Fault} : ofBinary words = .error fault ↔ Header.parse words = .error fault := by
  rw [ofBinary]
  cases Header.parse words <;> simp

private theorem ofBinary_of_parse (parsed : Header.parse words = .ok header) :
    ofBinary words = .ok ((ofWords words).growTo header.bound.toNat) := by
  rw [ofBinary, parsed]

private theorem words_run (m : Module) (edits : List Edit) : (m.run edits).words = m.words := by
  have kept := view_run Module.words (fun words _ => words) ?_ (fun _ _ => rfl) m edits
  · exact kept.trans (List.foldl_fixed _)
  · intro m edit next accepted
    cases accepted <;> rfl

private theorem fault?_growTo_ofWords (words : List Word) (bound : Nat) :
    ((ofWords words).growTo bound).fault? = none := by
  have coherent : ((ofWords words).growTo bound).Coherent := (Coherent.ofWords words).growTo bound
  rw [coherent.fault?_eq]
  rfl

/-- A module as its header declares it, and what no edit takes away from it. -/
structure Declared (words : List Word) (header : Header) (m : Module) : Prop where
  bound : m.bound = header.bound.toNat
  empty : ∀ id : ResultId, id.index < header.bound.toNat → m.entities.slot id = .ok none
  blank : ∀ id : ResultId, id.index < header.bound.toNat → m.annotations.record? id = some default
  sound : m.fault? = none
  retained : m.words = words
  later : ∀ edits, (m.run edits).words = words ∧ header.bound.toNat ≤ (m.run edits).bound

private theorem declared_growTo (words : List Word) (header : Header) :
    Declared words header ((ofWords words).growTo header.bound.toNat) where
  bound := by
    rw [bound_growTo]
    exact Nat.zero_max _
  empty id inside := EntityStore.slot_eq_ok.mpr (getElem?_grow_of_le (Nat.zero_le _) inside)
  blank id inside := getElem?_grow_of_le (Nat.zero_le _) inside
  sound := fault?_growTo_ofWords words header.bound.toNat
  retained := rfl
  later edits := by
    refine ⟨words_run _ edits, ?_⟩
    have grown := bound_le_run ((ofWords words).growTo header.bound.toNat) edits
    rw [bound_growTo] at grown
    exact Nat.le_trans (Nat.le_max_right _ _) grown

structure Decodes (words : List Word) : Prop where
  parses : ∀ result, Header.parse words = result ↔ Header.Reads words result
  encodes : ∀ header, Header.parse words = .ok header → words.take Header.length = header.toWords
  tailless : ∀ header tail, Header.parse words = .ok header →
    Header.parse (words.take Header.length ++ tail) = .ok header
  refuses : ∀ fault, ofBinary words = .error fault ↔ Header.parse words = .error fault
  declares : ∀ header, Header.parse words = .ok header → ∃ m, ofBinary words = .ok m ∧ Declared words header m

structure Versioned (header : Header) : Prop where
  iff_bytes : ∀ major minor, header.versionPair = (major, minor) ↔
    ∃ top bottom, header.version = Header.versionWord top major minor bottom
  of_middle : ∀ major minor : UInt8, header.version = major.toUInt32 * 0x10000 + minor.toUInt32 * 0x100 →
    header.versionPair = (major, minor)

/-- Any words are read by their shape, and a module starts out as their header declares it. -/
theorem decodes_words (words : List Word) : Decodes words ∧ ∀ header, Versioned header where
  left := {
    parses _ := Header.parse_eq_iff
    encodes _ := Header.take_eq_toWords
    tailless header tail parsed := by
      rw [Header.take_eq_toWords parsed, Header.parse_toWords_append]
    refuses _ := ofBinary_eq_error
    declares header parsed := ⟨_, ofBinary_of_parse parsed, declared_growTo words header⟩ }
  right _ := {
    iff_bytes _ _ := Header.versionPair_eq_iff_bytes
    of_middle _ _ := Header.versionPair_of_middle }

end Module

end Shader
