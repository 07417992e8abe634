import DistanceField.Proofs.Manifest.Entries

/-!
# Manifests give all their definitions or none

An entry gives a definition if its code stands in one place and can be read there and if each of
its defaults can be a literal. A manifest gives the definitions of all its entries, or what is wrong
with the first entry that gives none.
-/

namespace DistanceField
open Numeral
open List (Forall₂)

variable {read : FileReader Id} {base path : String} {definition : Definition}
  {definitions : List Definition}

theorem exists_forall₂_iff {α β : Type} {R : α → β → Prop} {xs : List α} :
    (∃ ys, Forall₂ R xs ys) ↔ ∀ x ∈ xs, ∃ y, R x y := by
  induction xs with
  | nil => exact iff_of_true ⟨[], .nil⟩ (by simp)
  | cons x xs ih =>
    rw [List.forall_mem_cons, ← ih]
    constructor
    · rintro ⟨_, related⟩
      cases related with
      | cons here others => exact ⟨⟨_, here⟩, _, others⟩
    · rintro ⟨⟨y, here⟩, ys, others⟩
      exact ⟨y :: ys, .cons here others⟩

theorem exists_first_cons_iff {α : Type} {P : α → Prop} {Q : α → Nat → Prop} {x : α}
    {xs : List α} :
    (∃ before y after, x :: xs = before ++ y :: after ∧ (∀ earlier ∈ before, P earlier) ∧
      Q y before.length) ↔
    Q x 0 ∨ P x ∧ ∃ before y after, xs = before ++ y :: after ∧ (∀ earlier ∈ before, P earlier) ∧
      Q y (before.length + 1) := by
  constructor
  · rintro ⟨_ | ⟨_, before⟩, y, after, same, holds, fails⟩
    · cases same
      exact .inl fails
    · cases same
      obtain ⟨here, others⟩ := List.forall_mem_cons.mp holds
      exact .inr ⟨here, before, y, after, rfl, others, fails⟩
  · rintro (fails | ⟨here, before, y, after, rfl, others, fails⟩)
    · exact ⟨[], x, xs, rfl, by simp, fails⟩
    · exact ⟨x :: before, y, after, rfl, List.forall_mem_cons.mpr ⟨here, others⟩, fails⟩

namespace DefaultValue

variable {value : DefaultValue} {literal : Literal}

def Fits : DefaultValue → Prop
  | scalar _ => True
  | vector values => 2 ≤ values.length ∧ values.length ≤ 4

/-- The literal of a default has the numbers of the default as its components. -/
inductive Denotes : DefaultValue → Literal → Prop
  | scalar (x : Binary32) : Denotes (scalar x) (.scalar x)
  | vec2 (x y : Binary32) : Denotes (vector [x, y]) (.vec2 x y)
  | vec3 (x y z : Binary32) : Denotes (vector [x, y, z]) (.vec3 x y z)
  | vec4 (x y z w : Binary32) : Denotes (vector [x, y, z, w]) (.vec4 x y z w)

theorem literal?_eq_some_iff : value.literal? = some literal ↔ value.Denotes literal := by
  constructor
  · intro given
    cases value with
    | scalar x =>
      cases given
      exact .scalar x
    | vector values =>
      rw [literal?] at given
      split at given
      · rename_i two
        unfold Literal.ofList? at given
        split at given <;> cases given
        · simp at two
        · exact .vec2 ..
        · exact .vec3 ..
        · exact .vec4 ..
      · cases given
  · rintro ⟨⟩ <;> rfl

theorem exists_denotes_iff : (∃ literal, value.Denotes literal) ↔ value.Fits := by
  constructor
  · rintro ⟨literal, denotes⟩
    cases denotes <;> simp [Fits]
  · intro fits
    cases value with
    | scalar x => exact ⟨_, .scalar x⟩
    | vector values =>
      match values, fits with
      | [x, y], _ => exact ⟨_, .vec2 x y⟩
      | [x, y, z], _ => exact ⟨_, .vec3 x y z⟩
      | [x, y, z, w], _ => exact ⟨_, .vec4 x y z w⟩
      | [], fits | [_], fits => exact absurd fits.1 (by simp)
      | _ :: _ :: _ :: _ :: _ :: values, fits =>
        have le : values.length + 5 ≤ 4 := fits.2
        omega

theorem literal?_eq_none_iff : value.literal? = none ↔ ¬ value.Fits := by
  rw [← exists_denotes_iff, Option.eq_none_iff_forall_ne_some, not_exists]
  simp only [ne_eq, literal?_eq_some_iff]

theorem exists_rel_denotes_iff {given : Option DefaultValue} :
    (∃ literal, Option.Rel Denotes given literal) ↔
      ∀ value, given = some value → value.Fits := by
  cases given with
  | none => exact iff_of_true ⟨none, .none⟩ (by simp)
  | some value =>
    simp only [Option.some.injEq, forall_eq', ← exists_denotes_iff]
    constructor
    · rintro ⟨_, ⟨denotes⟩⟩
      exact ⟨_, denotes⟩
    · rintro ⟨literal, denotes⟩
      exact ⟨some literal, .some denotes⟩

end DefaultValue

theorem textOf_eq (bytes : ByteArray) : textOf bytes =
    if valid : bytes.IsValidUTF8 then .ok (.fromUTF8 bytes valid) else .error .notText := by
  by_cases valid : bytes.IsValidUTF8 <;> simp [textOf, String.fromUTF8?, valid]

theorem textOf_eq_ok_iff {bytes : ByteArray} {text : String} :
    textOf bytes = .ok text ↔ bytes = text.toUTF8 := by
  rw [textOf_eq]
  split
  · constructor
    · rintro ⟨⟩
      rfl
    · rintro rfl
      rfl
  · rename_i invalid
    refine iff_of_false (fun done => by cases done) ?_
    rintro rfl
    exact invalid text.isValidUTF8

theorem textOf_eq_error_iff {bytes : ByteArray} {fault : FileFault} :
    textOf bytes = .error fault ↔ ¬ bytes.IsValidUTF8 ∧ fault = .notText := by
  rw [textOf_eq]
  split
  · rename_i valid
    exact iff_of_false (fun failed => by cases failed) (fun ⟨invalid, _⟩ => invalid valid)
  · rename_i invalid
    simp [invalid, eq_comm]

theorem run_readText_eq_ok_iff_toUTF8 {text : String} :
    (readText read path).run = .ok text ↔ read path = .ok text.toUTF8 := by
  simp only [run_readText_eq_ok_iff, textOf_eq_ok_iff, exists_eq_right]

namespace ManifestEntry
open DefaultValue

variable {entry : ManifestEntry} {defaults : List (Option DefaultValue)}
  {literals : List (Option Literal)} {fault : EntryError} {code : String} {index : Nat}

theorem literals_eq_ok_iff : ManifestEntry.literals index defaults = .ok literals ↔
    Forall₂ (Option.Rel Denotes) defaults literals := by
  induction defaults generalizing index literals with
  | nil => simp [ManifestEntry.literals, eq_comm]
  | cons given defaults ih =>
    rw [List.forall₂_cons_left_iff]
    cases given with
    | none =>
      rw [ManifestEntry.literals, map_eq_ok_iff]
      constructor
      · rintro ⟨others, rest, rfl⟩
        exact ⟨none, others, .none, ih.mp rest, rfl⟩
      · rintro ⟨_, others, ⟨⟩, rest, rfl⟩
        exact ⟨others, ih.mpr rest, rfl⟩
    | some value =>
      rw [ManifestEntry.literals]
      constructor
      · intro listed
        split at listed
        · cases listed
        · rename_i literal given
          obtain ⟨others, rest, rfl⟩ := map_eq_ok_iff.mp listed
          exact ⟨some literal, others, .some (literal?_eq_some_iff.mp given), ih.mp rest, rfl⟩
      · rintro ⟨_, others, ⟨denotes⟩, rest, rfl⟩
        rw [literal?_eq_some_iff.mpr denotes]
        exact map_eq_ok_iff.mpr ⟨others, ih.mpr rest, rfl⟩

theorem literals_eq_error_iff : ManifestEntry.literals index defaults = .error fault ↔
    ∃ before given after, defaults = before ++ given :: after ∧
      (∀ earlier ∈ before, ∀ value, earlier = some value → value.Fits) ∧
        (∃ value, given = some value ∧ ¬ value.Fits) ∧
          fault = .badDefault (index + before.length) := by
  induction defaults generalizing index with
  | nil => simp [ManifestEntry.literals]
  | cons given defaults ih =>
    have rest := @ih (index + 1)
    simp only [Nat.add_assoc, Nat.add_comm 1] at rest
    rw [exists_first_cons_iff (Q := fun given n =>
      (∃ value : DefaultValue, given = some value ∧ ¬ value.Fits) ∧
        fault = .badDefault (index + n)), ← rest]
    cases given with
    | none => simp [ManifestEntry.literals, map_eq_error_iff]
    | some value =>
      rw [ManifestEntry.literals]
      cases given : value.literal? with
      | none =>
        have wrong := literal?_eq_none_iff.mp given
        simp [wrong, eq_comm]
      | some literal =>
        have fits := exists_denotes_iff.mp ⟨literal, literal?_eq_some_iff.mp given⟩
        simp [fits, map_eq_error_iff]

/-- What an entry needs to give a definition: its code stands in the entry or in a file and not in
both, a file holds UTF-8, and all its defaults can be literals. -/
structure Resolvable (read : FileReader Id) (base : String) (entry : ManifestEntry) : Prop where
  single : entry.code = none ↔ entry.codeFile ≠ none
  readable : ∀ file, entry.codeFile = some file →
    ∃ text : String, read (codePath base file) = .ok text.toUTF8
  fitting : ∀ value, some value ∈ entry.defaults → value.Fits

/-- The definition of an entry has the types of the entry, the code that stands in the entry or in
its file, and the literals of the listed defaults. If none is listed, no input has one. -/
structure Defines (read : FileReader Id) (base : String) (entry : ManifestEntry)
    (definition : Definition) : Prop where
  inputs : definition.inputs = entry.inputs
  output : definition.output = entry.output
  code : (entry.code = some definition.code ∧ entry.codeFile = none) ∨
    ∃ file, entry.code = none ∧ entry.codeFile = some file ∧
      read (codePath base file) = .ok definition.code.toUTF8
  unlisted : entry.defaults = [] → definition.defaults = List.replicate entry.inputs.length none
  listed : entry.defaults ≠ [] →
    Forall₂ (Option.Rel Denotes) entry.defaults definition.defaults

/-- What is wrong with an entry. Its code comes before its defaults, and of these the first that
cannot be a literal counts. -/
inductive Faulty (read : FileReader Id) (base : String) (entry : ManifestEntry) :
    EntryError → Prop
  | bothCodes {code file : String} (inline : entry.code = some code)
    (named : entry.codeFile = some file) : Faulty read base entry .bothCodes
  | noCode (absent : entry.code = none) (unnamed : entry.codeFile = none) :
    Faulty read base entry .noCode
  | unreadable {file : String} {fault : FileFault} (absent : entry.code = none)
    (named : entry.codeFile = some file) (fails : read (codePath base file) = .error fault) :
    Faulty read base entry (.unreadable (codePath base file) fault)
  | notText {file : String} {bytes : ByteArray} (absent : entry.code = none)
    (named : entry.codeFile = some file) (holds : read (codePath base file) = .ok bytes)
    (invalid : ¬ bytes.IsValidUTF8) :
    Faulty read base entry (.unreadable (codePath base file) .notText)
  | badDefault {code : String} {before after : List (Option DefaultValue)} {value : DefaultValue}
    (held : entry.HoldsCode read base code)
    (listed : entry.defaults = before ++ some value :: after)
    (fit : ∀ earlier, some earlier ∈ before → earlier.Fits) (wrong : ¬ value.Fits) :
    Faulty read base entry (.badDefault before.length)

theorem holdsCode_iff : entry.HoldsCode read base code ↔
    (entry.code = some code ∧ entry.codeFile = none) ∨
      ∃ file, entry.code = none ∧ entry.codeFile = some file ∧
        read (codePath base file) = .ok code.toUTF8 := by
  simp only [HoldsCode, run_readText_eq_ok_iff_toUTF8]

theorem definedDefaults_eq_ok_iff : entry.definedDefaults = .ok literals ↔
      (entry.defaults = [] → literals = List.replicate entry.inputs.length none) ∧
        (entry.defaults ≠ [] → Forall₂ (Option.Rel Denotes) entry.defaults literals) := by
  rw [definedDefaults]
  split
  · rename_i unlisted
    simp [unlisted, eq_comm]
  · rename_i listed
    simp [listed, literals_eq_ok_iff]

theorem definedDefaults_eq_error_iff : entry.definedDefaults = .error fault ↔
    ∃ before given after, entry.defaults = before ++ given :: after ∧
      (∀ earlier ∈ before, ∀ value, earlier = some value → value.Fits) ∧
        (∃ value, given = some value ∧ ¬ value.Fits) ∧ fault = .badDefault before.length := by
  rw [definedDefaults]
  split
  · rename_i unlisted
    simp [unlisted]
  · rw [literals_eq_error_iff]
    simp only [Nat.zero_add]

theorem gives_iff_defines :
    entry.Gives read base definition ↔ entry.Defines read base definition := by
  constructor
  · rintro ⟨inputs, output, code, defaults⟩
    obtain ⟨unlisted, listed⟩ := definedDefaults_eq_ok_iff.mp defaults
    exact ⟨inputs, output, holdsCode_iff.mp code, unlisted, listed⟩
  · rintro ⟨inputs, output, code, unlisted, listed⟩
    exact ⟨inputs, output, holdsCode_iff.mpr code,
      definedDefaults_eq_ok_iff.mpr ⟨unlisted, listed⟩⟩

theorem run_resolve_eq_ok_iff_defines :
    (entry.resolve read base).run = .ok definition ↔ entry.Defines read base definition :=
  run_resolve_eq_ok_iff.trans gives_iff_defines

theorem run_readCode_eq_error_iff : (entry.readCode read base).run = .error fault ↔
    (∃ code file, entry.code = some code ∧ entry.codeFile = some file ∧ fault = .bothCodes) ∨
    (entry.code = none ∧ entry.codeFile = none ∧ fault = .noCode) ∨
    ∃ file cause, entry.code = none ∧ entry.codeFile = some file ∧
      (readText read (codePath base file)).run = .error cause ∧
        fault = .unreadable (codePath base file) cause := by
  unfold readCode
  cases entry.code with
  | none =>
    cases entry.codeFile with
    | none =>
      change Except.error _ = Except.error _ ↔ _
      simp [eq_comm]
    | some file =>
      dsimp only
      rw [run_adapt_eq_error_iff]
      simp
  | some code =>
    cases entry.codeFile with
    | none =>
      change Except.ok _ = Except.error _ ↔ _
      simp
    | some file =>
      change Except.error _ = Except.error _ ↔ _
      simp [eq_comm]

/-- A file has no text if it cannot be read or its bytes are no UTF-8. -/
theorem run_readText_eq_error_iff {cause : FileFault} :
    (readText read path).run = .error cause ↔ read path = .error cause ∨
      ∃ bytes, read path = .ok bytes ∧ ¬ bytes.IsValidUTF8 ∧ cause = .notText := by
  simp only [← textOf_eq_error_iff]
  exact bind_eq_error_iff

theorem run_resolve_eq_error_iff :
    (entry.resolve read base).run = .error fault ↔ entry.Faulty read base fault := by
  have defaults : (ExceptT.mk (pure entry.definedDefaults) : ExceptT EntryError Id _).run =
      .error fault ↔ entry.definedDefaults = .error fault := .rfl
  rw [resolve, run_bind_eq_error_iff, run_readCode_eq_error_iff]
  simp only [run_readCode_eq_ok_iff, run_readText_eq_error_iff, run_bind_pure_eq_error_iff,
    defaults, definedDefaults_eq_error_iff]
  constructor
  · rintro ((⟨code, file, inline, named, rfl⟩ | ⟨absent, unnamed, rfl⟩ |
      ⟨file, cause, absent, named, fails | ⟨bytes, holds, invalid, rfl⟩, rfl⟩) |
      ⟨code, held, before, _, after, listed, fit, ⟨value, rfl, wrong⟩, rfl⟩)
    · exact .bothCodes inline named
    · exact .noCode absent unnamed
    · exact .unreadable absent named fails
    · exact .notText absent named holds invalid
    · exact .badDefault held listed (fun earlier mem => fit _ mem earlier rfl) wrong
  · rintro (⟨inline, named⟩ | ⟨absent, unnamed⟩ | ⟨absent, named, fails⟩ |
      ⟨absent, named, holds, invalid⟩ | ⟨held, listed, fit, wrong⟩)
    · exact .inl (.inl ⟨_, _, inline, named, rfl⟩)
    · exact .inl (.inr (.inl ⟨absent, unnamed, rfl⟩))
    · exact .inl (.inr (.inr ⟨_, _, absent, named, .inl fails, rfl⟩))
    · exact .inl (.inr (.inr ⟨_, _, absent, named, .inr ⟨_, holds, invalid, rfl⟩, rfl⟩))
    · exact .inr ⟨_, held, _, _, _, listed, fun _ mem value same => fit value (same ▸ mem),
        ⟨_, rfl, wrong⟩, rfl⟩

theorem exists_definedDefaults_iff :
    (∃ literals, entry.definedDefaults = .ok literals) ↔
      ∀ value, some value ∈ entry.defaults → value.Fits := by
  by_cases unlisted : entry.defaults = []
  · simp [definedDefaults, unlisted]
  · simp only [definedDefaults, unlisted, if_false, literals_eq_ok_iff, exists_forall₂_iff,
      exists_rel_denotes_iff]
    constructor
    · exact fun fit value mem => fit _ mem value rfl
    · rintro fit _ mem value rfl
      exact fit value mem

theorem exists_holdsCode_iff : (∃ code, entry.HoldsCode read base code) ↔
    (entry.code = none ↔ entry.codeFile ≠ none) ∧ ∀ file, entry.codeFile = some file →
      ∃ text : String, read (codePath base file) = .ok text.toUTF8 := by
  simp only [holdsCode_iff]
  cases entry.code <;> cases entry.codeFile <;> simp

theorem exists_defines_iff_resolvable :
    (∃ definition, entry.Defines read base definition) ↔ entry.Resolvable read base := by
  simp only [← gives_iff_defines]
  constructor
  · rintro ⟨definition, -, -, code, defaults⟩
    obtain ⟨single, readable⟩ := exists_holdsCode_iff.mp ⟨_, code⟩
    exact ⟨single, readable, exists_definedDefaults_iff.mp ⟨_, defaults⟩⟩
  · rintro ⟨single, readable, fitting⟩
    obtain ⟨code, held⟩ := exists_holdsCode_iff.mpr ⟨single, readable⟩
    obtain ⟨defaults, given⟩ := exists_definedDefaults_iff.mpr fitting
    exact ⟨⟨entry.inputs, entry.output, code, defaults⟩, rfl, rfl, held, given⟩

end ManifestEntry

namespace Manifest
open ManifestEntry

variable {entries : List ManifestEntry} {error : ManifestError} {index : Nat}

/-- The entries before the first that is wrong have what they need. -/
theorem run_resolveFrom_eq_error_iff :
    (resolveFrom read base index entries).run = .error error ↔
      ∃ before entry after, entries = before ++ entry :: after ∧
        (∀ earlier ∈ before, earlier.Resolvable read base) ∧
          ∃ fault, entry.Faulty read base fault ∧
            error = .entry (index + before.length) fault := by
  induction entries generalizing index with
  | nil =>
    refine iff_of_false (fun failed => by cases failed) ?_
    simp
  | cons entry entries ih =>
    have rest := @ih (index + 1)
    simp only [Nat.add_assoc, Nat.add_comm 1] at rest
    rw [exists_first_cons_iff (Q := fun entry n =>
      ∃ fault, Faulty read base entry fault ∧ error = .entry (index + n) fault), ← rest,
      resolveFrom, run_bind_eq_error_iff, run_adapt_eq_error_iff]
    simp only [run_adapt_eq_ok_iff, run_resolve_eq_error_iff, run_resolve_eq_ok_iff_defines,
      run_bind_pure_eq_error_iff, exists_and_right, exists_defines_iff_resolvable, Nat.add_zero]

/-- The entries of a manifest are resolved if all of them have what they need, each to its own
definition. Otherwise the manifest gives nothing but what is wrong with the first entry that has
not, told behind the number of this entry. -/
theorem resolve_allOrFirst (read : FileReader Id) (base : String) (entries : List ManifestEntry) :
    ((∃ definitions, (resolve read base entries).run = .ok definitions) ↔
      ∀ entry ∈ entries, entry.Resolvable read base) ∧
    (∀ definitions, (resolve read base entries).run = .ok definitions ↔
      Forall₂ (Defines read base) entries definitions) ∧
    (∀ error, (resolve read base entries).run = .error error ↔
      ∃ before entry after fault, entries = before ++ entry :: after ∧
        (∀ earlier ∈ before, earlier.Resolvable read base) ∧ entry.Faulty read base fault ∧
          error = .entry before.length fault) ∧
    ∀ index fault, (ManifestError.entry index fault).report =
      .message s!"operator manifest entry {index}" :: fault.report := by
  have resolved (definitions : List Definition) :
      (resolve read base entries).run = .ok definitions ↔
        Forall₂ (Defines read base) entries definitions := by
    rw [resolve, run_resolveFrom_eq_ok_iff]
    exact ⟨.imp fun _ _ => gives_iff_defines.mp, .imp fun _ _ => gives_iff_defines.mpr⟩
  refine ⟨?_, resolved, fun error => ?_, fun _ _ => rfl⟩
  · simp only [resolved, exists_forall₂_iff, exists_defines_iff_resolvable]
  · rw [resolve, run_resolveFrom_eq_error_iff]
    simp only [Nat.zero_add, exists_and_left]

def shelf : FileReader Id := fun path =>
  if path = "lib/ball.glsl" then .ok "float ball(vec3 p, float r);".toUTF8 else .error .notFound

def fetched : ManifestEntry :=
  ⟨[.vec3, .scalar], .scalar, none, some "ball.glsl", [none, some (.scalar 1)]⟩

def narrow : ManifestEntry :=
  ⟨[.scalar], .scalar, some "float f(float a);", none, [some (.vector [1])]⟩

def empty : ManifestEntry := ⟨[], .scalar, none, none, []⟩

theorem resolve_narrow :
    (resolve shelf "lib" [fetched]).run = .ok [⟨[.vec3, .scalar], .scalar,
      "float ball(vec3 p, float r);", [none, some (.scalar 1)]⟩] ∧
    (resolve shelf "lib" [fetched, narrow, empty]).run = .error (.entry 1 (.badDefault 0)) := by
  have found : shelf (codePath "lib" "ball.glsl") = .ok "float ball(vec3 p, float r);".toUTF8 :=
    if_pos (by decide)
  have defined : fetched.Defines shelf "lib" ⟨[.vec3, .scalar], .scalar,
      "float ball(vec3 p, float r);", [none, some (.scalar 1)]⟩ := by
    refine ⟨rfl, rfl, .inr ⟨_, rfl, rfl, found⟩, (fun unlisted => by cases unlisted), fun _ => ?_⟩
    exact .cons .none (.cons (.some (.scalar 1)) .nil)
  obtain ⟨-, resolved, -⟩ := resolve_allOrFirst shelf "lib" [fetched]
  obtain ⟨-, -, failed, -⟩ := resolve_allOrFirst shelf "lib" [fetched, narrow, empty]
  refine ⟨(resolved _).mpr (.cons defined .nil), (failed _).mpr ?_⟩
  refine ⟨[fetched], narrow, [empty], .badDefault 0, rfl, ?_, ?_, rfl⟩
  · simpa using exists_defines_iff_resolvable.mp ⟨_, defined⟩
  · exact @Faulty.badDefault _ _ _ _ [] [] (.vector [1]) (.inl ⟨rfl, rfl⟩) rfl (by simp)
      (by simp [DefaultValue.Fits])

end Manifest

end DistanceField
