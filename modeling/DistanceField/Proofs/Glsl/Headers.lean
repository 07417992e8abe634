import DistanceField.Glsl.Header
import DistanceField.Proofs.Steps
import DistanceField.Proofs.Text.Cuts

/-!
# Parameters of headers

The list between the parentheses of a header is cut at its commas, and each piece is taken apart
into qualifiers and a declarator. What is taken apart is put together again, and what fits together
is read.
-/

namespace DistanceField.Glsl
open List (Forall₂)

variable {tokens inside before after declarator left : List Token} {token : Token} {depth : Nat}
  {parameter : Parameter} {parameters : List Parameter} {header : Header} {type : String}
  {name : Option String}

theorem splitQualifiers_eq_iff {words : List String} :
    splitQualifiers tokens = (words, declarator) ↔
      tokens = words.map Token.identifier ++ declarator ∧ (∀ word ∈ words, word ∈ qualifierWords) ∧
        ∀ word, declarator.head? = some (.identifier word) → word ∉ qualifierWords := by
  constructor
  · intro eq
    fun_induction splitQualifiers tokens generalizing words declarator with
    | case1 word rest isQualifier words' declarator' split ih =>
      cases eq
      obtain ⟨whole, qualified, stops⟩ := ih split
      exact ⟨congrArg _ whole, List.forall_mem_cons.mpr ⟨isQualifier, qualified⟩, stops⟩
    | case2 word rest noQualifier =>
      cases eq
      refine ⟨rfl, by simp, ?_⟩
      intro word' first
      cases first
      exact noQualifier
    | case3 tokens noWord =>
      cases eq
      refine ⟨rfl, by simp, ?_⟩
      intro word first
      obtain ⟨rest, eq⟩ := List.head?_eq_some_iff.mp first
      exact absurd eq (noWord word rest)
  · rintro ⟨rfl, qualified, stops⟩
    induction words with
    | nil =>
      rw [List.map_nil, List.nil_append]
      fun_cases splitQualifiers declarator with
      | case1 word rest isQualifier => exact absurd isQualifier (stops word rfl)
      | case2 => rfl
      | case3 => rfl
    | cons word words ih =>
      obtain ⟨isQualifier, qualified⟩ := List.forall_mem_cons.mp qualified
      rw [List.map_cons, List.cons_append, splitQualifiers, if_pos isQualifier, ih qualified]

/-- A declarator that is neither a type nor a type with a name. -/
structure RunTogether (type : String) (declarator : List Token) : Prop where
  begins : ∃ word rest, declarator = .identifier word :: rest
  two_le : 2 ≤ declarator.length
  not_named : ∀ type name, declarator ≠ [.identifier type, .identifier name]
  spells : declarator.flatMap Token.chars = type.toList

/-- The tokens of a declarator, its type and its name: it is the type alone, the type and the name,
or a longer run that is taken for a type as a whole. -/
inductive Declarator (type : String) : Option String → List Token → Prop where
  | unnamed : Declarator type none [.identifier type]
  | named (name : String) : Declarator type (some name) [.identifier type, .identifier name]
  | run {tokens : List Token} (run : RunTogether type tokens) : Declarator type none tokens

theorem declarator?_eq_some_iff :
    declarator? tokens = some (type, name) ↔ Declarator type name tokens := by
  constructor
  · intro h
    unfold declarator? at h
    split at h
    · cases h
      exact .unnamed
    · cases h
      exact .named _
    · rename_i word rest single named
      cases h
      refine .run ⟨⟨word, rest, rfl⟩, ?_, ?_, String.toList_ofList.symm⟩
      · cases rest with
        | nil => exact absurd rfl single
        | cons token rest => simp
      · intro type name eq
        cases eq
        exact named name rfl
    · cases h
  · intro h
    cases h with
    | unnamed => rfl
    | named => rfl
    | run run =>
      obtain ⟨⟨word, rest, rfl⟩, two_le, not_named, spells⟩ := run
      have single : rest = [] → False := by
        rintro rfl
        simp at two_le
      have named : ∀ name, rest = [.identifier name] → False := by
        rintro name rfl
        exact not_named word name rfl
      rw [declarator?.eq_3 _ _ single named, spells, String.ofList_toList]

theorem Declarator.cases (h : Declarator type name tokens) :
    tokens = [.identifier type] ∨ (∃ word, tokens = [.identifier type, .identifier word]) ∨
      RunTogether type tokens := by
  cases h with
  | unnamed => exact .inl rfl
  | named name => exact .inr (.inl ⟨name, rfl⟩)
  | run run => exact .inr (.inr run)

theorem Declarator.begins (h : Declarator type name tokens) :
    ∃ word rest, tokens = .identifier word :: rest := by
  rcases h.cases with rfl | ⟨word, rfl⟩ | run
  · exact ⟨type, [], rfl⟩
  · exact ⟨type, [.identifier word], rfl⟩
  · exact run.begins

def declaration (parameter : Parameter) (declarator : List Token) : List Token :=
  parameter.qualifiers.map Token.identifier ++ declarator

/-- A parameter has qualifiers and a declarator, which does not begin with one more qualifier. -/
structure Declares (parameter : Parameter) (declarator : List Token) : Prop where
  qualified : ∀ word ∈ parameter.qualifiers, word ∈ qualifierWords
  begins : ∃ word rest, declarator = .identifier word :: rest ∧ word ∉ qualifierWords
  spells : Declarator parameter.type parameter.name declarator

theorem parameter?_eq_some_iff : parameter? tokens = some parameter ↔
    ∃ declarator, tokens = declaration parameter declarator ∧ Declares parameter declarator := by
  constructor
  · intro h
    obtain ⟨⟨type, name⟩, read, rfl⟩ := Option.map_eq_some_iff.mp h
    obtain ⟨whole, qualified, stops⟩ := (@splitQualifiers_eq_iff tokens _ _).mp rfl
    have spells := declarator?_eq_some_iff.mp read
    obtain ⟨word, rest, eq⟩ := spells.begins
    exact ⟨_, whole, qualified, ⟨word, rest, eq, stops word (by rw [eq]; rfl)⟩, spells⟩
  · rintro ⟨declarator, rfl, declares⟩
    obtain ⟨word, rest, rfl, noQualifier⟩ := declares.begins
    have stops : ∀ word', (Token.identifier word :: rest).head? = some (.identifier word') →
        word' ∉ qualifierWords := by
      intro word' first
      cases first
      exact noQualifier
    have split := splitQualifiers_eq_iff.mpr ⟨rfl, declares.qualified, stops⟩
    rw [parameter?, declaration, split]
    exact congrArg (Option.map _) (declarator?_eq_some_iff.mpr declares.spells)

inductive Lists : List (List Token) → List Token → Prop where
  | none : Lists [] []
  | void : Lists [] [.identifier "void"]
  | some {parameters : List (List Token)} (ne : parameters ≠ []) :
      Lists parameters ([.punctuation ','].intercalate parameters)

theorem Lists.mem {pieces : List (List Token)} {piece : List Token} {token : Token}
    (lists : Lists pieces inside) (mem : piece ∈ pieces) (here : token ∈ piece) :
    token ∈ inside := by
  cases lists with
  | none => cases mem
  | void => cases mem
  | some => exact Text.mem_intercalate mem here

/-- What stands between the parentheses declares parameters with certain declarators: nothing and
`void` alone declare none, and commas stand between the declarations of one parameter or more. -/
inductive ParameterList : List Parameter → List (List Token) → List Token → Prop where
  | none : ParameterList [] [] []
  | void : ParameterList [] [] [.identifier "void"]
  | some {parameters : List Parameter} {declarators : List (List Token)} {inside : List Token}
      (ne : parameters ≠ []) (declares : Forall₂ Declares parameters declarators)
      (noComma : ∀ declarator ∈ declarators, .punctuation ',' ∉ declarator)
      (notVoid : inside ≠ [.identifier "void"])
      (eq : inside =
        [.punctuation ','].intercalate (List.zipWith declaration parameters declarators)) :
      ParameterList parameters declarators inside

theorem forall₂_parameter?_iff {pieces : List (List Token)} :
    Forall₂ (fun tokens parameter => parameter? tokens = some parameter) pieces parameters ↔
      ∃ declarators, pieces = List.zipWith declaration parameters declarators ∧
        Forall₂ Declares parameters declarators := by
  constructor
  · intro read
    induction read with
    | nil => exact ⟨[], rfl, .nil⟩
    | cons here _ ih =>
      obtain ⟨declarator, rfl, declares⟩ := parameter?_eq_some_iff.mp here
      obtain ⟨declarators, rfl, all⟩ := ih
      exact ⟨declarator :: declarators, rfl, .cons declares all⟩
  · rintro ⟨declarators, rfl, all⟩
    induction all with
    | nil => exact .nil
    | cons declares _ ih => exact .cons (parameter?_eq_some_iff.mpr ⟨_, rfl, declares⟩) ih

/-- Commas are found in declarations only where they are found in declarators. -/
theorem noComma_zipWith_iff {declarators : List (List Token)}
    (declares : Forall₂ Declares parameters declarators) :
    (∀ piece ∈ List.zipWith declaration parameters declarators, .punctuation ',' ∉ piece) ↔
      ∀ declarator ∈ declarators, .punctuation ',' ∉ declarator := by
  induction declares with
  | nil => simp
  | cons _ _ ih =>
    rw [List.zipWith_cons_cons, List.forall_mem_cons, List.forall_mem_cons, ih]
    simp [declaration]

theorem zipWith_declaration_ne_nil {declarators : List (List Token)} (ne : parameters ≠ [])
    (declares : Forall₂ Declares parameters declarators) :
    List.zipWith declaration parameters declarators ≠ [] := by
  cases declares with
  | nil => exact absurd rfl ne
  | cons => simp

theorem intercalate_declarations_ne_nil {declarators : List (List Token)} (ne : parameters ≠ [])
    (declares : Forall₂ Declares parameters declarators) :
    [.punctuation ','].intercalate (List.zipWith declaration parameters declarators) ≠ [] := by
  cases declares with
  | nil => exact absurd rfl ne
  | @cons parameter declarator _ _ here _ =>
    obtain ⟨word, rest, eq, -⟩ := here.begins
    have first : .identifier word ∈ declaration parameter declarator := by simp [declaration, eq]
    exact List.ne_nil_of_mem (Text.mem_intercalate List.mem_cons_self first)

theorem pieces_eq_declarations {declarators : List (List Token)} (ne : parameters ≠ [])
    (declares : Forall₂ Declares parameters declarators)
    (noComma : ∀ declarator ∈ declarators, .punctuation ',' ∉ declarator)
    (eq : inside =
      [.punctuation ','].intercalate (List.zipWith declaration parameters declarators)) :
    Text.pieces (· = .punctuation ',') inside =
      List.zipWith declaration parameters declarators :=
  Text.pieces_eq_iff.mpr ⟨zipWith_declaration_ne_nil ne declares,
    (noComma_zipWith_iff declares).mpr noComma, eq.symm⟩

/-- The reader of parameter lists accepts exactly the lists that declare parameters. -/
theorem parameters?_eq_some_iff : parameters? inside = some parameters ↔
    ∃ declarators, ParameterList parameters declarators inside := by
  constructor
  · intro h
    unfold parameters? at h
    split at h
    · rename_i none
      cases h
      rcases none with rfl | rfl
      · exact ⟨[], .none⟩
      · exact ⟨[], .void⟩
    · rename_i notNone
      rw [not_or] at notNone
      obtain ⟨some, free, whole⟩ :=
        Text.pieces_eq_iff.mp (Eq.refl (Text.pieces (· = Token.punctuation ',') inside))
      obtain ⟨declarators, eq, declares⟩ := forall₂_parameter?_iff.mp (mapM_eq_some_iff.mp h)
      rw [eq] at some free whole
      have ne : parameters ≠ [] := by
        rintro rfl
        exact some rfl
      exact ⟨declarators,
        .some ne declares ((noComma_zipWith_iff declares).mp free) notNone.2 whole.symm⟩
  · rintro ⟨declarators, list⟩
    cases list with
    | none => rfl
    | void => rfl
    | some ne declares noComma notVoid eq =>
      have pieces := pieces_eq_declarations ne declares noComma eq
      have notNone : ¬ (inside = [] ∨ inside = [.identifier "void"]) :=
        not_or.mpr ⟨eq ▸ intercalate_declarations_ne_nil ne declares, notVoid⟩
      rw [parameters?, if_neg notNone, pieces]
      exact mapM_eq_some_iff.mpr (forall₂_parameter?_iff.mpr ⟨declarators, rfl, declares⟩)

theorem lists_of_parameters? (h : parameters? inside = some parameters) : ∃ pieces,
    Lists pieces inside ∧ Forall₂ (fun tokens parameter => parameter? tokens = some parameter)
      pieces parameters := by
  obtain ⟨declarators, list⟩ := parameters?_eq_some_iff.mp h
  cases list with
  | none => exact ⟨[], .none, .nil⟩
  | void => exact ⟨[], .void, .nil⟩
  | some ne declares _ _ eq =>
    have lists := Lists.some (zipWith_declaration_ne_nil ne declares)
    rw [← eq] at lists
    exact ⟨_, lists, forall₂_parameter?_iff.mpr ⟨declarators, rfl, declares⟩⟩

theorem parameters?_of_lists (lists : Lists pieces inside)
    (each : List.Forall₂ (fun tokens parameter => parameter? tokens = some parameter) pieces
      parameters)
    (noComma : ∀ piece ∈ pieces, .punctuation ',' ∉ piece)
    (notVoid : [.identifier "void"] ∉ pieces) : parameters? inside = some parameters := by
  obtain ⟨declarators, eq, declares⟩ := forall₂_parameter?_iff.mp each
  apply parameters?_eq_some_iff.mpr
  refine ⟨declarators, ?_⟩
  cases lists with
  | none =>
    cases each
    cases declares
    exact .none
  | void =>
    cases each
    cases declares
    exact .void
  | some ne =>
    subst eq
    refine .some ?_ declares ((noComma_zipWith_iff declares).mp noComma) ?_ rfl
    · rintro rfl
      exact ne rfl
    · intro void
      have single := Text.pieces_eq_iff.mpr ⟨ne, noComma, void⟩
      rw [← single] at notVoid
      exact notVoid List.mem_cons_self

theorem zipWith_declaration_inj {declarators declarators' : List (List Token)}
    (declares : Forall₂ Declares parameters declarators)
    (declares' : Forall₂ Declares parameters declarators')
    (eq : List.zipWith declaration parameters declarators =
      List.zipWith declaration parameters declarators') : declarators = declarators' := by
  induction declares generalizing declarators' with
  | nil =>
    cases declares'
    rfl
  | cons _ _ ih =>
    cases declares' with
    | cons _ declares' =>
      obtain ⟨here, rest⟩ := List.cons.inj eq
      rw [List.append_cancel_left here, ih declares' rest]

/-- A list declares its parameters in one way. -/
theorem ParameterList.unique {parameters' : List Parameter}
    {declarators declarators' : List (List Token)}
    (h : ParameterList parameters declarators inside)
    (h' : ParameterList parameters' declarators' inside) :
    parameters = parameters' ∧ declarators = declarators' := by
  have read := parameters?_eq_some_iff.mpr ⟨_, h⟩
  have read' := parameters?_eq_some_iff.mpr ⟨_, h'⟩
  obtain rfl : parameters = parameters' := Option.some.inj (read.symm.trans read')
  refine ⟨rfl, ?_⟩
  cases h with
  | none =>
    cases h' with
    | none => rfl
    | some ne => exact absurd rfl ne
  | void =>
    cases h' with
    | void => rfl
    | some ne => exact absurd rfl ne
  | some ne declares noComma _ eq =>
    cases h' with
    | none => exact absurd rfl ne
    | void => exact absurd rfl ne
    | some _ declares' noComma' _ eq' =>
      apply zipWith_declaration_inj declares declares'
      rw [← pieces_eq_declarations ne declares noComma eq,
        ← pieces_eq_declarations ne declares' noComma' eq']

end DistanceField.Glsl
