import DistanceField.Proofs.Glsl.Grammar
import DistanceField.Proofs.Glsl.Tokens
import DistanceField.Proofs.Operator.Accepted

/-!
# Signatures of operators

The code of an operator has a function header right before its first `{`, with one parameter for
each input. A parameter is mostly declared as the language has it; but since a declarator of any
other form is compared as one word, words that only together spell a type pass for it.
-/

namespace DistanceField

theorem ValueType.isAlphanum_of_glsl? {type : ValueType} {word : String} {c : Char}
    (h : type.glsl? = some word) (mem : c ∈ word.toList) : c.isAlphanum := by
  have all : word.toList.all Char.isAlphanum := by
    cases type <;> cases h <;> rfl
  exact List.all_eq_true.mp all c mem

theorem ValueType.isIdentifier_of_glsl? {type : ValueType} {word : String}
    (h : type.glsl? = some word) : Glsl.IsIdentifier word := by
  cases type <;> cases h <;> decide

namespace Operator
open Glsl
open List (Forall₂)

variable {definition : Definition} {operator : Operator} {tokens : List Token} {type : ValueType}
  {parameter : Parameter} {spelling : String}

def inputQualifiers : List String := ["in", "const", "highp", "mediump", "lowp", "precise"]

/-- A declarator of the language: a type, and perhaps a name. -/
inductive Plain (spelling : String) : List Token → Prop where
  | unnamed : Plain spelling [.identifier spelling]
  | named (name : String) : Plain spelling [.identifier spelling, .identifier name]

/-- Words and numbers that spell a type if they are run together, and are no declarator of it. -/
structure Scattered (spelling : String) (declarator : List Token) : Prop
    extends RunTogether spelling declarator where
  noPunctuation : ∀ c, .punctuation c ∉ declarator

/-- A parameter with a declarator of one of some forms takes a value of a type. -/
def Takes (form : String → List Token → Prop) (type : ValueType) (parameter : List Token) : Prop :=
  ∃ spelling, ∃ qualifiers : List String, ∃ declarator, type.glsl? = some spelling ∧
    parameter = qualifiers.map Token.identifier ++ declarator ∧
    (∀ word ∈ qualifiers, word ∈ inputQualifiers) ∧ form spelling declarator

/-- Right before the first `{` stands a header with the symbol and the types of an operator. -/
def Headed (form : String → List Token → Prop) (operator : Operator) (tokens : List Token) : Prop :=
  ∃ before spelling inside after parameters,
    tokens = before ++ .identifier spelling :: .identifier operator.symbol :: .punctuation '(' ::
      inside ++ .punctuation ')' :: .punctuation '{' :: after ∧
    .punctuation '{' ∉ before ++ inside ∧ operator.output.glsl? = some spelling ∧
    Lists parameters inside ∧ Forall₂ (Takes form) operator.inputs parameters

theorem mem_inputQualifiers (h : ∀ word ∈ parameter.qualifiers, word ∈ qualifierWords)
    (notOutput : parameter.isOutput = false) {word : String} (mem : word ∈ parameter.qualifiers) :
    word ∈ inputQualifiers := by
  have isWord := h word mem
  have notOut : word ≠ "out" ∧ word ≠ "inout" := by
    simp only [Parameter.isOutput, List.any_eq_false] at notOutput
    simpa using notOutput word mem
  simp only [qualifierWords, List.mem_cons, List.not_mem_nil, or_false] at isWord
  simp only [inputQualifiers, List.mem_cons, List.not_mem_nil, or_false]
  tauto

theorem takes_of_accepts (read : parameter? tokens = some parameter)
    (accepted : accepts parameter type)
    (words : ∀ c, .punctuation c ∈ tokens → c.isAlphanum = false) :
    Takes (fun spelling declarator => Plain spelling declarator ∨ Scattered spelling declarator)
      type tokens := by
  simp only [accepts, Bool.and_eq_true, Bool.not_eq_true', decide_eq_true_eq] at accepted
  obtain ⟨notOutput, glsl⟩ := accepted
  obtain ⟨declarator, rfl, declares⟩ := parameter?_eq_some_iff.mp read
  refine ⟨parameter.type, parameter.qualifiers, declarator, glsl.symm, rfl,
    fun word mem => mem_inputQualifiers declares.qualified notOutput mem, ?_⟩
  rcases declares.spells.cases with rfl | ⟨name, rfl⟩ | run
  · exact .inl .unnamed
  · exact .inl (.named name)
  · refine .inr ⟨run, fun c mem => ?_⟩
    -- the characters of a spelling are letters and digits, which no punctuation is
    have alphanum : c.isAlphanum := by
      apply ValueType.isAlphanum_of_glsl? glsl.symm
      rw [← run.spells]
      exact List.mem_flatMap.mpr ⟨_, mem, List.mem_cons_self⟩
    rw [words c (List.mem_append_right _ mem)] at alphanum
    cases alphanum

theorem forall₂_takes {parameters : List Parameter} {types : List ValueType}
    {pieces : List (List Token)}
    (read : Forall₂ (fun tokens parameter => parameter? tokens = some parameter) pieces parameters)
    (accepted : Forall₂ (fun parameter type => accepts parameter type) parameters types)
    (words : ∀ piece ∈ pieces, ∀ c, .punctuation c ∈ piece → c.isAlphanum = false) :
    Forall₂ (Takes fun spelling declarator => Plain spelling declarator ∨
      Scattered spelling declarator) types pieces := by
  induction accepted generalizing pieces with
  | nil =>
    cases read
    exact .nil
  | cons accepts _ ih =>
    cases read with
    | cons here read =>
      obtain ⟨word, words⟩ := List.forall_mem_cons.mp words
      exact .cons (takes_of_accepts here accepts word) (ih read words)

theorem Accepted.isIdentifier_symbol (h : operator.Accepted) : IsIdentifier operator.symbol := by
  obtain ⟨header, read, declares⟩ := h.checked.header
  obtain ⟨before, inside, after, whole, -, -⟩ := eq_of_headerOf? read
  have mem : .identifier operator.symbol ∈ Glsl.tokens operator.code := by
    rw [whole, declares.name]
    simp
  exact (readFrom_of_mem mem).isIdentifier rfl

/-- A definition that passes its check becomes an operator whose code has a header that agrees with
it. -/
theorem headed_of_ofDefinition (h : ofDefinition definition = .ok operator) :
    definition = ⟨operator.inputs, operator.output, operator.code, operator.defaults⟩ ∧
      Headed (fun spelling declarator => Plain spelling declarator ∨ Scattered spelling declarator)
        operator (Glsl.tokens operator.code) := by
  obtain ⟨eq, checked⟩ := checked_of_ofDefinition h
  refine ⟨eq, ?_⟩
  obtain ⟨header, read, declares⟩ := checked.header
  obtain ⟨before, inside, after, whole, free, listed⟩ := eq_of_headerOf? read
  obtain ⟨pieces, lists, each⟩ := lists_of_parameters? listed
  rw [declares.name] at whole
  refine ⟨before, header.returnType, inside, after, pieces, whole, free,
    declares.returnType.symm, lists, ?_⟩
  apply forall₂_takes each declares.parameters
  intro piece mem c here
  have inText : .punctuation c ∈ Glsl.tokens operator.code := by
    rw [whole]
    simp [lists.mem mem here]
  exact (readFrom_of_mem inText).punctuation rfl

theorem headed_sphere : ofDefinition Builtin.sphere = .ok (Builtin.sphere.named "sdf_sphere") ∧
    Headed (fun spelling declarator => Plain spelling declarator ∨ Scattered spelling declarator)
      (Builtin.sphere.named "sdf_sphere") (Glsl.tokens Builtin.sphere.code) := by
  have accepted : ofDefinition Builtin.sphere = .ok (Builtin.sphere.named "sdf_sphere") := by
    decide +kernel
  exact ⟨accepted, (headed_of_ofDefinition accepted).2⟩

def scattered : Definition where
  inputs := [.vec3]
  output := .scalar
  code := "float f(vec 3) \x7b return 1.0; \x7d"
  defaults := [none]

theorem tokens_scattered : Glsl.tokens scattered.code =
    ([.identifier "float", .identifier "f"] ++ .punctuation '(' ::
        ([.identifier "vec", .number "3"] ++ [.punctuation ')'])) ++ .punctuation '{' ::
      [.identifier "return", .number "1.0", .punctuation ';', .punctuation '}'] := by
  decide +kernel

theorem identifier_of_takes_plain (takes : Takes Plain type tokens) {token : Token}
    (mem : token ∈ tokens) : ∃ word, token = .identifier word := by
  obtain ⟨spelling, qualifiers, declarator, -, rfl, -, plain⟩ := takes
  rcases List.mem_append.mp mem with mem | mem
  · obtain ⟨word, -, rfl⟩ := List.mem_map.mp mem
    exact ⟨word, rfl⟩
  · cases plain with
    | unnamed => exact ⟨spelling, by simpa using mem⟩
    | named name =>
      rcases List.mem_pair.mp mem with rfl | rfl
      · exact ⟨spelling, rfl⟩
      · exact ⟨name, rfl⟩

/-- Not every accepted parameter is declared as the language has it. -/
theorem not_headed_scattered : ofDefinition scattered = .ok (scattered.named "f") ∧
    ¬ Headed Plain (scattered.named "f") (Glsl.tokens scattered.code) := by
  refine ⟨by decide +kernel, ?_⟩
  rintro ⟨before, spelling, inside, after, parameters, whole, free, -, lists, takes⟩
  obtain ⟨piece, rfl, plain⟩ : ∃ piece, parameters = [piece] ∧ Takes Plain .vec3 piece := by
    cases takes with
    | cons first rest =>
      cases rest
      exact ⟨_, rfl, first⟩
  obtain rfl : piece = inside := by
    cases lists
    simp
  -- the first brace and the only parenthesis before it tell what is inside
  have cut : Glsl.tokens scattered.code = (before ++ [.identifier spelling, .identifier "f"] ++
      .punctuation '(' :: (piece ++ [.punctuation ')'])) ++ .punctuation '{' :: after := by
    simpa [Definition.named] using whole
  rw [tokens_scattered, List.append_cons_inj_of_notMem (by decide) (by decide),
    List.append_cons_inj_of_notMem (by decide) (by decide)] at cut
  have three : .number "3" ∈ piece := by
    rw [← (List.append_inj' cut.1.2.2 rfl).1]
    decide
  obtain ⟨word, eq⟩ := identifier_of_takes_plain plain three
  cases eq

end Operator

end DistanceField
