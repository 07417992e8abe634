import DistanceField.Proofs.Glsl.Layout
import DistanceField.Proofs.Operator.Signature

/-!
# Definitions in any layout

A definition becomes an operator if its code begins with a header that declares its inputs and its
output, however the header is laid out: blanks and comments may stand between all words and signs,
and directives before the header.
-/

namespace DistanceField

namespace Operator
open Glsl
open List (Forall₂)

variable {definition : Definition} {type : ValueType} {symbol spelling : String}
  {piece inside : List Token} {pieces : List (List Token)} {openings : List Opening}
  {header body : List Char}

theorem ValueType.notMem_qualifierWords (h : type.glsl? = some spelling) :
    spelling ∉ qualifierWords ∧ spelling ≠ "void" := by
  cases type <;> cases h <;> decide

/-- A parameter that is declared with a type is read, and takes values of this type. -/
theorem exists_parameter_of_takes (takes : Takes Plain type piece) :
    ∃ parameter, parameter? piece = some parameter ∧ accepts parameter type := by
  obtain ⟨spelling, qualifiers, declarator, glsl, rfl, qualified, plain⟩ := takes
  have words : ∀ word ∈ qualifiers, word ∈ qualifierWords := by
    intro word mem
    have all : inputQualifiers ⊆ qualifierWords := by decide
    exact all (qualified word mem)
  have noOutput : qualifiers.any (fun word => word = "out" || word = "inout") = false := by
    apply List.any_eq_false.mpr
    intro word mem
    have all : ∀ word ∈ inputQualifiers, ¬ (word = "out" || word = "inout") := by decide
    exact all word (qualified word mem)
  have noQualifier := (ValueType.notMem_qualifierWords glsl).1
  cases plain with
  | unnamed =>
    refine ⟨⟨qualifiers, spelling, none⟩, parameter?_eq_some_iff.mpr
      ⟨_, rfl, words, ⟨spelling, [], rfl, noQualifier⟩, .unnamed⟩, ?_⟩
    simp [accepts, Parameter.isOutput, noOutput, glsl]
  | named name =>
    refine ⟨⟨qualifiers, spelling, some name⟩, parameter?_eq_some_iff.mpr
      ⟨_, rfl, words, ⟨spelling, _, rfl, noQualifier⟩, .named name⟩, ?_⟩
    simp [accepts, Parameter.isOutput, noOutput, glsl]

theorem exists_parameters_of_takes {types : List ValueType}
    (takes : Forall₂ (Takes Plain) types pieces) : ∃ parameters,
      Forall₂ (fun tokens parameter => parameter? tokens = some parameter) pieces parameters ∧
        Forall₂ (fun parameter type => accepts parameter type) parameters types := by
  induction takes with
  | nil => exact ⟨[], .nil, .nil⟩
  | cons here _ ih =>
    obtain ⟨parameter, read, accepted⟩ := exists_parameter_of_takes here
    obtain ⟨parameters, each, all⟩ := ih
    exact ⟨parameter :: parameters, .cons read each, .cons accepted all⟩

theorem exists_takes_of_mem {types : List ValueType} (takes : Forall₂ (Takes Plain) types pieces)
    (mem : piece ∈ pieces) : ∃ type, Takes Plain type piece := by
  obtain ⟨i, lt, rfl⟩ := List.getElem_of_mem mem
  have lt' : i < types.length := takes.length_eq ▸ lt
  exact ⟨types[i], takes.get lt' lt⟩

theorem ne_void_of_takes (takes : Takes Plain type piece) : piece ≠ [.identifier "void"] := by
  obtain ⟨spelling, qualifiers, declarator, glsl, rfl, -, plain⟩ := takes
  have notVoid := (ValueType.notMem_qualifierWords glsl).2
  intro void
  cases plain with
  | unnamed =>
    have last := congrArg List.getLast? void
    simp at last
    exact notVoid last
  | named name =>
    have length := congrArg List.length void
    simp at length

theorem word_or_comma_of_lists {types : List ValueType} (takes : Forall₂ (Takes Plain) types pieces)
    (lists : Lists pieces inside) {token : Token} (mem : token ∈ inside) :
    (∃ word, token = .identifier word) ∨ token = .punctuation ',' := by
  cases lists with
  | none => cases mem
  | void => exact .inl ⟨"void", List.mem_singleton.mp mem⟩
  | some =>
    rcases Text.mem_of_mem_intercalate mem with comma | ⟨piece, inPieces, mem⟩
    · exact .inr (List.mem_singleton.mp comma)
    · obtain ⟨type, here⟩ := exists_takes_of_mem takes inPieces
      exact .inl (identifier_of_takes_plain here mem)

/-- The tokens of a header with what stands between its parentheses, and the brace behind it. -/
def headerTokens (spelling symbol : String) (inside : List Token) : List Token :=
  .identifier spelling :: .identifier symbol :: .punctuation '(' :: inside ++
    [.punctuation ')', .punctuation '\x7b']

theorem inHeader_of_mem {types : List ValueType} (output : type.glsl? = some spelling)
    (identifier : IsIdentifier symbol) (takes : Forall₂ (Takes Plain) types pieces)
    (lists : Lists pieces inside) (names : ∀ word, .identifier word ∈ inside → IsIdentifier word)
    {token : Token} (mem : token ∈ headerTokens spelling symbol inside) : InHeader token := by
  simp only [headerTokens, List.cons_append, List.mem_cons, List.mem_append, List.not_mem_nil,
    or_false] at mem
  rcases mem with rfl | rfl | rfl | mem | rfl | rfl
  · exact .word (ValueType.isIdentifier_of_glsl? output)
  · exact .word identifier
  · exact .sign (by decide)
  · rcases word_or_comma_of_lists takes lists mem with ⟨word, rfl⟩ | rfl
    · exact .word (names word mem)
    · exact .sign (by decide)
  · exact .sign (by decide)
  · exact .sign (by decide)

/-- A header that declares input types in any layout is read, and its parameters take values of
these types. -/
theorem exists_header_of_laid {types : List ValueType} {code : String}
    (output : type.glsl? = some spelling) (identifier : IsIdentifier symbol)
    (takes : Forall₂ (Takes Plain) types pieces) (lists : Lists pieces inside)
    (names : ∀ word, .identifier word ∈ inside → IsIdentifier word)
    (laid : Laid WordsApart (headerTokens spelling symbol inside) header)
    (whole : code.toList = Opening.charsOf openings ++ (header ++ body)) : ∃ parameters,
      header? code = some ⟨spelling, symbol, parameters⟩ ∧
        Forall₂ (fun parameter type => accepts parameter type) parameters types := by
  obtain ⟨parameters, each, accepted⟩ := exists_parameters_of_takes takes
  have kinds : ∀ c, .punctuation c ∈ inside → c = ',' := by
    intro c mem
    rcases word_or_comma_of_lists takes lists mem with ⟨word, eq⟩ | eq <;> cases eq
    rfl
  have free : ∀ c, c ≠ ',' → .punctuation c ∉ inside := fun c ne mem => ne (kinds c mem)
  have noComma : ∀ piece ∈ pieces, .punctuation ',' ∉ piece := by
    intro piece mem comma
    obtain ⟨type, here⟩ := exists_takes_of_mem takes mem
    obtain ⟨word, eq⟩ := identifier_of_takes_plain here comma
    cases eq
  have notVoid : [.identifier "void"] ∉ pieces := by
    intro mem
    obtain ⟨type, here⟩ := exists_takes_of_mem takes mem
    exact ne_void_of_takes here rfl
  have read := parameters?_of_lists lists each noComma notVoid
  obtain ⟨declarators, list⟩ := parameters?_eq_some_iff.mp read
  have split : headerTokens spelling symbol inside =
      (.identifier spelling :: .identifier symbol :: .punctuation '(' :: inside ++
        [.punctuation ')']) ++ [.punctuation '\x7b'] := by simp [headerTokens]
  have inHeader : ∀ token ∈ headerTokens spelling symbol inside, InHeader token :=
    fun token => inHeader_of_mem output identifier takes lists names
  rw [split] at laid inHeader
  obtain ⟨lineStart, eq⟩ := laid.tokensFrom_header inHeader true body
  refine ⟨parameters, headerOf?_eq_some_iff.mpr
    ⟨⟨[], inside, declarators, tokensFrom lineStart body⟩, ?_, ?_, ?_, list⟩, accepted⟩
  · rw [tokens, whole, Opening.tokensFrom_charsOf_append, eq]
    simp
  · exact free _ (by decide)
  · exact balanced_of_free ⟨free _ (by decide), free _ (by decide)⟩

/-- A definition is accepted if its code begins with a header that declares its inputs and its
output, in any layout. -/
theorem ofDefinition_of_laid (identifier : IsIdentifier symbol)
    (unreserved : Shader.isReserved symbol = false)
    (output : definition.output.glsl? = some spelling)
    (takes : Forall₂ (Takes Plain) definition.inputs pieces) (lists : Lists pieces inside)
    (names : ∀ word, .identifier word ∈ inside → IsIdentifier word)
    (laid : Laid WordsApart (headerTokens spelling symbol inside) header)
    (whole : definition.code.toList = Opening.charsOf openings ++ (header ++ body))
    (defaults : Forall₂ (fun default type => suits type default) definition.defaults
      definition.inputs) :
    ofDefinition definition =
      .ok ⟨definition.inputs, definition.output, definition.code, symbol, definition.defaults⟩ := by
  obtain ⟨parameters, read, accepted⟩ :=
    exists_header_of_laid output identifier takes lists names laid whole
  have notRoot : definition.output ≠ .root := by
    intro root
    rw [root] at output
    cases output
  have noRoot : .root ∉ definition.inputs := by
    intro mem
    obtain ⟨i, lt, root⟩ := List.getElem_of_mem mem
    obtain ⟨_, _, _, glsl, -⟩ := takes.get lt (takes.length_eq ▸ lt)
    rw [List.get_eq_getElem, root] at glsl
    cases glsl
  have checked : Checked (definition.named symbol) :=
    ⟨notRoot, noRoot, unreserved, defaults, _, read, rfl, output.symm, accepted⟩
  exact ofDefinition_of_checked checked

def ballHeader : String :=
  "float/**/ball(in /*,*/ vec3 p,\n\tconst highp float in) // r\n\x7b"

def spaciousBall : Definition where
  inputs := [.vec3, .scalar]
  output := .scalar
  code := "#define R \x7b\n// ball\n" ++ (ballHeader ++ " return length(p) - in; \x7d")
  defaults := [none, some (.scalar 1)]

def ballParameters : List (List Token) :=
  [["in", "vec3", "p"].map .identifier, ["const", "highp", "float", "in"].map .identifier]

theorem takes_ballParameters : Forall₂ (Takes Plain) spaciousBall.inputs ballParameters :=
  .cons ⟨"vec3", ["in"], _, rfl, rfl, by decide, .named "p"⟩ <|
  .cons ⟨"float", ["const", "highp"], _, rfl, rfl, by decide, .named "in"⟩ .nil

theorem laid_ballHeader : Laid WordsApart
    (headerTokens "float" "ball" ([.punctuation ','].intercalate ballParameters))
    ballHeader.toList :=
  .cons [.block [] (by decide)] (by simp [WordsApart]) <|
  .cons [] (by simp [WordsApart, Token.isWord]) <|
  .cons [] (by simp [WordsApart, Token.isWord]) <|
  .cons [.space, .block [','] (by decide), .space] (by simp [WordsApart]) <|
  .cons [.space] (by simp [WordsApart]) <|
  .cons [] (by simp [WordsApart, Token.isWord]) <|
  .cons [.blank '\n' (by decide), .blank '\t' (by decide)] (by simp [WordsApart]) <|
  .cons [.space] (by simp [WordsApart]) <|
  .cons [.space] (by simp [WordsApart]) <|
  .cons [.space] (by simp [WordsApart]) <|
  .cons [] (by simp [WordsApart, Token.isWord]) <|
  .cons [.space, .line [' ', 'r'] (by decide)] (by simp [WordsApart]) <|
  .cons [] (by simp [WordsApart, Token.isWord]) .nil

theorem ofDefinition_of_laid_ball :
    IsIdentifier "ball" ∧ Shader.isReserved "ball" = false ∧
      spaciousBall.output.glsl? = some "float" ∧
      Forall₂ (Takes Plain) spaciousBall.inputs ballParameters ∧
      Lists ballParameters ([.punctuation ','].intercalate ballParameters) ∧
      (∀ word, .identifier word ∈ ([.punctuation ','].intercalate ballParameters) →
        IsIdentifier word) ∧
      Laid WordsApart (headerTokens "float" "ball" ([.punctuation ','].intercalate ballParameters))
        ballHeader.toList ∧
      spaciousBall.code.toList = Opening.charsOf [.directive "define R \x7b".toList (by decide),
          .trivium (.line " ball".toList (by decide))] ++
        (ballHeader.toList ++ " return length(p) - in; \x7d".toList) ∧
      Forall₂ (fun default type => suits type default) spaciousBall.defaults spaciousBall.inputs ∧
      ofDefinition spaciousBall = .ok ⟨spaciousBall.inputs, spaciousBall.output, spaciousBall.code,
        "ball", spaciousBall.defaults⟩ := by
  have identifier : IsIdentifier "ball" := by decide
  have unreserved : Shader.isReserved "ball" = false := by decide +kernel
  have names : ∀ word, .identifier word ∈ ([.punctuation ','].intercalate ballParameters) →
      IsIdentifier word := by
    intro word mem
    have listed : word ∈ ["in", "vec3", "p", "const", "highp", "float", "in"] := by
      simpa [ballParameters] using mem
    have all : ["in", "vec3", "p", "const", "highp", "float", "in"].all
        (fun word => decide (IsIdentifier word)) := by decide
    exact of_decide_eq_true (List.all_eq_true.mp all word listed)
  have lists : Lists ballParameters ([.punctuation ','].intercalate ballParameters) :=
    .some (by decide)
  have whole : spaciousBall.code.toList =
      Opening.charsOf [.directive "define R \x7b".toList (by decide),
          .trivium (.line " ball".toList (by decide))] ++
        (ballHeader.toList ++ " return length(p) - in; \x7d".toList) := by
    rw [spaciousBall, String.toList_append, String.toList_append]
    rfl
  have defaults :
      Forall₂ (fun default type => suits type default) spaciousBall.defaults spaciousBall.inputs :=
    .cons rfl (.cons (by decide +kernel) .nil)
  exact ⟨identifier, unreserved, rfl, takes_ballParameters, lists, names, laid_ballHeader, whole,
    defaults, ofDefinition_of_laid identifier unreserved rfl takes_ballParameters lists names
      laid_ballHeader whole defaults⟩

end Operator

end DistanceField
