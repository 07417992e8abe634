import DistanceField.Proofs.Config.Accepted
import DistanceField.Proofs.Glsl.Numbers
import DistanceField.Proofs.Shader.Surroundings
import DistanceField.Proofs.Text.Lines
import Mathlib.Tactic.IntervalCases

/-!
# The constants in the header

The constants of an accepted configuration are written as numbers that the shader can read, and from
what is written the configuration can be read back. So two accepted configurations with one header
are the same.
-/

namespace DistanceField.Shader
open Glsl Numeral
open List (Forall₂)

variable {config other : Config} {tokens rest : List Token}

theorem head?_lines_ofLines {line : String} (free : '\n' ∉ line.toList)
    (ends : line.toList.getLast? ≠ some '\r') (lines : List String) :
    (Text.lines (ofLines (line :: lines))).head? = some line := by
  have cut : (ofLines (line :: lines)).toList = line.toList ++ '\n' :: (ofLines lines).toList := by
    simp [ofLines]
  rw [Text.lines, cut, Text.linesFrom_line free, Text.dropReturn, List.reverse_nil, List.nil_append,
    if_neg ends]
  simp

/-- What some tokens declare as constants: the tokens behind each `const` up to the semicolon. -/
def declarations : List Token → List (List Token)
  | [] => []
  | token :: rest =>
    if token = .identifier "const" then rest.takeWhile (· ≠ .punctuation ';') :: declarations rest
    else declarations rest

theorem declarations_append_of_free (free : .identifier "const" ∉ tokens) :
    declarations (tokens ++ rest) = declarations rest := by
  induction tokens with
  | nil => rfl
  | cons token tokens ih =>
    rw [List.mem_cons, not_or] at free
    rw [List.cons_append, declarations, if_neg (Ne.symm free.1), ih free.2]

theorem declarations_const (free : .identifier "const" ∉ tokens)
    (unended : .punctuation ';' ∉ tokens) :
    declarations (.identifier "const" :: (tokens ++ [Token.punctuation ';'] ++ rest)) =
      tokens :: declarations rest := by
  have ends : (tokens ++ [Token.punctuation ';'] ++ rest).takeWhile (· ≠ Token.punctuation ';') =
      tokens := by
    rw [List.append_assoc, List.singleton_append, Text.takeWhile_append_of_free unended]
  have onward : Token.identifier "const" ∉ tokens ++ [.punctuation ';'] := by simp [free]
  rw [declarations, if_pos rfl, ends, declarations_append_of_free onward]

structure IsFloat (constant : Constant) (x : Binary32) : Prop where
  point : constant.fraction ≠ []
  reads : constant.Reads x

/-- Tokens that write a value: a number with a point for a float, perhaps with a sign before it, a
decimal without leading zeros for an integer, and a constructor with three floats for a vector. -/
inductive Writes : Baked → List Token → Prop
  | float {x : Binary32} {constant : Constant} (isFloat : IsFloat constant x) :
    Writes (.float x) constant.tokens
  | int {n : Nat} {digits : List Char} (isDigit : ∀ c ∈ digits, c.isDigit)
    (leading : digits.head? ≠ some '0') (value : Nat.ofDigitChars 10 digits 0 = n) :
    Writes (.int n) [.number (.ofList digits)]
  | vec3 {v : Triple} {x y z : Constant} (isFloat : IsFloat x v.x) (isFloat' : IsFloat y v.y)
    (isFloat'' : IsFloat z v.z) :
    Writes (.vec3 v) (.identifier "vec3" :: .punctuation '(' :: (x.tokens ++ .punctuation ',' ::
      (y.tokens ++ .punctuation ',' :: (z.tokens ++ [.punctuation ')']))))

/-- Tokens that declare a constant with its type, its name and its value. -/
def Declares (constant : String × Baked) (tokens : List Token) : Prop :=
  ∃ value, Writes constant.2 value ∧ tokens =
    .identifier constant.2.type :: .identifier constant.1 :: .punctuation '=' :: value

/-- What a value has to be so that a shader can read it: floats are finite, and an integer is
positive. -/
def Baked.Valid : Baked → Prop
  | .float x => x.isFinite
  | .int n => 1 ≤ n
  | .vec3 v => ∀ x ∈ v.toList, x.isFinite

theorem exists_isFloat {x : Binary32} (finite : x.isFinite) :
    ∃ constant, IsFloat constant x ∧ tokensFrom true (floatText x).toList = constant.tokens := by
  obtain ⟨constant, shown, point, reads⟩ := Binary32.exists_constant_floatText finite
  exact ⟨constant, ⟨point, reads⟩, by rw [shown, constant.tokensFrom_chars]⟩

theorem head?_toDigits_ne {n : Nat} (pos : 1 ≤ n) : (Nat.toDigits 10 n).head? ≠ some '0' := by
  induction n using Nat.strongRecOn with
  | ind n ih =>
    rcases Nat.lt_or_ge n 10 with small | large
    · rw [Nat.toDigits_of_lt_base small]
      interval_cases n <;> decide
    · rw [Nat.toDigits_of_base_le (by decide) large,
        List.head?_append_of_ne_nil _ Nat.toDigits_ne_nil]
      exact ih (n / 10) (by omega) (by omega)

theorem writes_tokens {value : Baked} (valid : value.Valid) : Writes value value.tokens := by
  cases value with
  | float x =>
    obtain ⟨constant, isFloat, eq⟩ := exists_isFloat valid
    rw [Baked.tokens, Baked.shown, eq]
    exact .float isFloat
  | int n =>
    obtain ⟨c, rest, eq, digit, digits⟩ := isDigit_repr n
    have same : Nat.toDigits 10 n = c :: rest := Nat.toList_repr.symm.trans eq
    rw [Baked.tokens, Baked.shown, eq, tokensFrom_number digit fun d mem => .inl (digits d mem)]
    refine .int (List.forall_mem_cons.mpr ⟨digit, digits⟩) ?_ ?_
    · exact same ▸ head?_toDigits_ne valid
    · rw [← same, Nat.ofDigitChars_toDigits (by decide) (by decide)]
  | vec3 v =>
    have finite : ∀ x ∈ [v.x, v.y, v.z], x.isFinite := valid
    obtain ⟨x, isFloat, eq⟩ := exists_isFloat (finite v.x (by simp))
    obtain ⟨y, isFloat', eq'⟩ := exists_isFloat (finite v.y (by simp))
    obtain ⟨z, isFloat'', eq''⟩ := exists_isFloat (finite v.z (by simp))
    rw [Baked.tokens, Baked.shown, tokens_tripleText, eq, eq', eq'']
    exact .vec3 isFloat isFloat' isFloat''

/-- What a value is written with declares nothing and ends nothing. -/
theorem Writes.free {value : Baked} (writes : Writes value tokens) :
    .identifier "const" ∉ tokens ∧ .punctuation ';' ∉ tokens := by
  have number (constant : Constant) :
      .identifier "const" ∉ constant.tokens ∧ .punctuation ';' ∉ constant.tokens := by
    constructor <;> intro mem <;>
      rcases Constant.eq_of_mem_tokens mem with eq | ⟨text, eq⟩ <;> simp at eq
  cases writes with
  | float isFloat => exact number _
  | int => simp
  | @vec3 _ x y z => simp [number x, number y, number z]

theorem free_bodyTokens {constant : String × Baked} (named : constant.1 ≠ "const")
    (writes : Writes constant.2 constant.2.tokens) :
    .identifier "const" ∉ bodyTokens constant ∧ .punctuation ';' ∉ bodyTokens constant := by
  have typed : constant.2.type ≠ "const" := by
    cases constant.2 <;> simp [Baked.type]
  simp [bodyTokens, typed.symm, named.symm, writes.free]

/-- Lines of constants declare these. -/
theorem declares_of_isLine {lines : List String} {constants : List (String × Baked)}
    (related : Forall₂ IsLine lines constants)
    (valid : ∀ constant ∈ constants, constant.1 ≠ "const" ∧ constant.2.Valid)
    (ends : declarations rest = []) :
    Forall₂ Declares constants (declarations (lines.flatMap Glsl.tokens ++ rest)) := by
  induction related with
  | nil => exact ends ▸ .nil
  | @cons line constant lines constants here _ ih =>
    obtain ⟨⟨named, first⟩, others⟩ := List.forall_mem_cons.mp valid
    have writes := writes_tokens first
    obtain ⟨free, unended⟩ := free_bodyTokens named writes
    rw [List.flatMap_cons, here.tokens, List.append_assoc, List.cons_append,
      declarations_const free unended]
    exact .cons ⟨_, writes, rfl⟩ (ih others)

theorem valid_baked (sound : config.Sound) :
    ∀ constant ∈ baked config, constant.1 ≠ "const" ∧ constant.2.Valid := by
  have finite {x : Binary32} (positive : x.isPositive) : x.isFinite := by
    simp only [Binary32.isPositive, Bool.and_eq_true] at positive
    exact positive.1.1
  simp only [baked, List.forall_mem_cons]
  exact ⟨⟨by decide, finite sound.maxDistance⟩, ⟨by decide, sound.iterations_pos⟩,
    ⟨by decide, finite sound.epsilon⟩, ⟨by decide, sound.surfaceColor⟩,
    ⟨by decide, sound.skyColor⟩, ⟨by decide, sound.lightDirection⟩, by simp⟩

theorem declares_header (sound : config.Sound) :
    Forall₂ Declares (baked config) (declarations (Glsl.tokens (header config))) := by
  have top : .identifier "const" ∉ headerTop.flatMap Glsl.tokens := by
    simp only [headerTop, List.flatMap_cons, List.flatMap_nil]
    repeat rw [tokens_ofList]
    decide +kernel
  have bottom : declarations (headerBottom.flatMap Glsl.tokens) = [] := by
    simp only [headerBottom, List.flatMap_cons, List.flatMap_nil]
    repeat rw [tokens_ofList]
    decide +kernel
  have calm := (section_headerTop.append (section_of_isLine (isLine_constantLines config))).append
    section_headerBottom |>.calm
  rw [header_eq, tokens_lines calm, List.flatMap_append, List.flatMap_append, List.append_assoc,
    declarations_append_of_free top]
  exact declares_of_isLine (isLine_constantLines config) (valid_baked sound) bottom

/-- Tokens that begin with a float are of one number and go on in one way. -/
theorem IsFloat.unique {constant constant' : Constant} {x y : Binary32} {rest rest' : List Token}
    (isFloat : IsFloat constant x) (isFloat' : IsFloat constant' y)
    (same : constant.tokens ++ rest = constant'.tokens ++ rest') : x = y ∧ rest = rest' := by
  obtain ⟨rfl, onward⟩ := Constant.tokens_append_inj isFloat.point isFloat'.point same
  exact ⟨isFloat.reads.unique isFloat'.reads, onward⟩

theorem Writes.unique {value value' : Baked} {tokens tokens' : List Token}
    (writes : Writes value tokens) (writes' : Writes value' tokens')
    (typed : value.type = value'.type) (same : tokens = tokens') : value = value' := by
  -- both ways to write are taken apart before the tokens are compared: as one index of both they
  -- would not be variables
  cases writes with
  | float isFloat =>
    cases writes' with
    | float isFloat' =>
      rw [(isFloat.unique isFloat' (congrArg (· ++ []) same)).1]
    | int | vec3 => simp [Baked.type] at typed
  | int isDigit leading eq =>
    cases writes' with
    | int isDigit' leading' eq' =>
      rw [List.singleton_inj, Token.number.injEq, String.ofList_inj] at same
      rw [← eq, ← eq', same]
    | float | vec3 => simp [Baked.type] at typed
  | @vec3 v x y z isFloat isFloat' isFloat'' =>
    cases writes' with
    | @vec3 v' x' y' z' other other' other'' =>
      obtain ⟨hx, same⟩ := isFloat.unique other (List.cons_inj_right _ |>.mp
        (List.cons_inj_right _ |>.mp same))
      obtain ⟨hy, same⟩ := isFloat'.unique other' (List.cons_inj_right _ |>.mp same)
      obtain ⟨hz, -⟩ := isFloat''.unique other'' (List.cons_inj_right _ |>.mp same)
      obtain ⟨_, _, _⟩ := v
      obtain ⟨_, _, _⟩ := v'
      simp only at hx hy hz
      rw [hx, hy, hz]
    | float | int => simp [Baked.type] at typed

theorem Declares.unique {name name' : String} {value value' : Baked}
    (declares : Declares (name, value) tokens) (declares' : Declares (name', value') tokens) :
    name = name' ∧ value = value' := by
  obtain ⟨written, writes, eq⟩ := declares
  obtain ⟨written', writes', eq'⟩ := declares'
  have same := eq.symm.trans eq'
  simp only [List.cons.injEq, Token.identifier.injEq, true_and] at same
  obtain ⟨typed, named, same⟩ := same
  exact ⟨named, writes.unique writes' typed same⟩

theorem eq_of_declares {declared : List (List Token)}
    (declares : Forall₂ Declares (baked config) declared)
    (declares' : Forall₂ Declares (baked other) declared) : config = other := by
  have same : baked config = baked other := by
    generalize baked config = constants, baked other = constants' at declares declares'
    induction declares generalizing constants' with
    | nil =>
      cases declares'
      rfl
    | cons here _ ih =>
      cases declares' with
      | cons here' others =>
        obtain ⟨named, valued⟩ := here.unique here'
        rw [ih _ others, Prod.ext named valued]
  simp only [baked, List.cons.injEq, Prod.mk.injEq, Baked.float.injEq, Baked.int.injEq,
    Baked.vec3.injEq, true_and, and_true] at same
  obtain ⟨maxDistance, maxIterations, epsilon, surfaceColor, skyColor, lightDirection⟩ := config
  obtain ⟨maxDistance', maxIterations', epsilon', surfaceColor', skyColor', lightDirection'⟩ := other
  obtain ⟨rfl, iterations, rfl, rfl, rfl, rfl⟩ := same
  obtain rfl := UInt32.toNat_inj.mp iterations
  rfl

/-- The header stands for a configuration. It begins with the version and declares the constants of
this configuration and of no other one. The number of iterations is a positive integer of the
shader. No other accepted configuration has this header. -/
structure Encoded (config : Config) : Prop where
  version : (Text.lines (header config)).head? = some "#version 450"
  declares : Forall₂ Declares (baked config) (declarations (Glsl.tokens (header config)))
  iterations : 1 ≤ config.maxIterations.toNat ∧ config.maxIterations.toNat ≤ 2147483647
  only : ∀ other, Forall₂ Declares (baked other) (declarations (Glsl.tokens (header config))) →
    other = config
  apart : ∀ other : Config, other.Accepted → header other = header config → other = config

theorem encoded_of_accepted (accepted : config.Accepted) :
    config.check = .ok () ∧ Encoded config := by
  have sound := accepted.sound
  have declares := declares_header sound
  refine ⟨Config.check_eq_ok_iff.mpr sound, ?_⟩
  constructor
  · have first : headerTop ++ constantLines config ++ headerBottom =
        "#version 450" :: (headerTop.tail ++ constantLines config ++ headerBottom) := rfl
    rw [header_eq, first, head?_lines_ofLines (by decide) (by decide)]
  · exact declares
  · exact ⟨sound.iterations_pos, sound.iterations_le⟩
  · exact fun other declares' => eq_of_declares declares' declares
  · intro other accepted' same
    rw [← same] at declares
    exact eq_of_declares (declares_header accepted'.sound) declares

def extreme : Config :=
  { maxDistance := ⟨0x7F7FFFFF⟩
    maxIterations := 2147483647
    epsilon := ⟨1⟩
    surfaceColor := ⟨-0, ⟨0xFF7FFFFF⟩, ⟨0x80000001⟩⟩ }

def extremeText : String :=
  "\x7b \"maxDistance\": 3.4028235e38, \"maxIterations\": 2147483647, \"epsilon\": 1e-45, " ++
    "\"surfaceColor\": [-0.0, -3.4028235e38, -1e-45] \x7d"

theorem encoded_extreme : Config.ofText extremeText = .ok extreme ∧ extreme.Accepted ∧
    extreme.check = .ok () ∧ Encoded extreme := by
  have parses : Config.ofText extremeText = .ok extreme := by decide +kernel
  exact ⟨parses, .parsed parses, encoded_of_accepted (.parsed parses)⟩

end DistanceField.Shader
