import DistanceField.Proofs.Program.Readable
import DistanceField.Proofs.Shader.Surroundings

/-!
# Names of the shader and names of operators

No registered operator is called like anything that the shader declares around the operators, and
what the shader applies is never an operator except in the calls of the program. The check of names
leaves out the constructors of values, so operators with these names are registered and then taken
for the constructors.
-/

namespace DistanceField.Shader
open Glsl Place
open Scene

/-- The constructors of values in the shader around the operators. -/
def constructors : List String := ["float", "vec2", "vec3", "vec4"]

variable {place : Place} {calls calls' lines more : List String} {assignment : Assignment}
  {argument : Argument} {program : Program}

theorem text_mem_constructors {type : ValueType} (notRoot : type ≠ .root) :
    type.text ∈ constructors := by
  cases type with
  | root => exact absurd rfl notRoot
  | scalar | vec2 | vec3 | vec4 => decide

theorem applies_of_free {text : List Char} (free : '(' ∉ text) :
    place.collect applies (tokensFrom true text) = [] :=
  collect_applies_of_free fun mem => free (mem_of_punctuation_mem mem)

theorem applies_call (place : Place) (name : String) (tokens : List Token) :
    ∃ inside : Place, place.collect applies (.identifier name :: .punctuation '(' :: tokens) =
      [name].filter (· ∉ keywords) ++ inside.collect applies tokens := by
  refine ⟨(place.next (.identifier name)).next (.punctuation '('), ?_⟩
  rw [collect, collect, ← List.append_assoc]
  congr 1
  by_cases keyword : name ∈ keywords <;> simp [applies, next, keyword]

/-- An argument applies a constructor at most. -/
theorem applies_argument (spelled : argument.Spelled) (place : Place) :
    place.collect applies (tokensFrom true argument.text.toList) ⊆ constructors := by
  cases argument with
  | var name =>
    have free : '(' ∉ name.toList := by
      intro mem
      cases spells_of_isWord spelled _ mem
    rw [Argument.text, applies_of_free free]
    exact List.nil_subset _
  | literal value =>
    obtain ⟨finite, notRoot⟩ := spelled
    rw [Argument.text]
    by_cases scalar : value.type = .scalar
    · have free := mt (value.paren_mem_expression_iff finite notRoot).mp (not_not.mpr scalar)
      rw [applies_of_free free]
      exact List.nil_subset _
    obtain ⟨inner, text, noHash, noParen⟩ : ∃ inner, value.expression.toList =
        value.type.text.toList ++ '(' :: (inner ++ [')']) ∧ '#' ∉ inner ∧ '(' ∉ inner := by
      refine ⟨_, Literal.toList_expression_of_vector scalar notRoot, ?_, ?_⟩
      all_goals
        intro mem
        rcases value.mem_components finite mem with eq | eq | eq <;> cases eq
    obtain ⟨inside, eq⟩ :=
      applies_call place value.type.text (tokensFrom true (inner ++ [')']))
    rw [text, tokensFrom_call (isIdentifier_text notRoot) (by simp [noHash]), eq,
      applies_of_free (by simp [noParen]), List.append_nil]
    exact List.Subset.trans (List.filter_subset_self _)
      (List.cons_subset.mpr ⟨text_mem_constructors notRoot, List.nil_subset _⟩)

theorem applies_arguments {arguments : List Argument}
    (spelled : ∀ argument ∈ arguments, argument.Spelled) (place : Place) :
    place.collect applies
      (tokensFrom true (", ".intercalate (arguments.map Argument.text)).toList) ⊆ constructors := by
  induction arguments generalizing place with
  | nil => simp [collect]
  | cons argument arguments ih =>
    obtain ⟨here, onward⟩ := List.forall_mem_cons.mp spelled
    cases arguments with
    | nil => simpa using applies_argument here place
    | cons next arguments =>
      have all : ∀ text ∈ (next :: arguments).map Argument.text, IsExpression text.toList := by
        intro text mem
        obtain ⟨argument, listed, rfl⟩ := List.mem_map.mp mem
        exact (onward argument listed).isExpression
      have free : '#' ∉ (", ".intercalate ((next :: arguments).map Argument.text)).toList := by
        intro mem
        cases isListing_of_mem_intercalate all mem
      have stop : '#' ∉
          ',' :: ' ' :: (", ".intercalate ((next :: arguments).map Argument.text)).toList := by
        simp only [List.mem_cons, free, or_false]
        decide
      have cut : (", ".intercalate ((argument :: next :: arguments).map Argument.text)).toList =
          argument.text.toList ++
            ',' :: ' ' :: (", ".intercalate ((next :: arguments).map Argument.text)).toList := by
        simp [String.intercalate_cons_cons]
      rw [cut, tokensFrom_listing_append here.isExpression.isListing stop
        (stops_cons (by decide)), tokensFrom_comma free, collect_append]
      exact List.append_subset.mpr ⟨applies_argument here place, ih onward _⟩

/-- Lines in the body of a function, with no braces and no comments over several lines; apart from
constructors they apply nothing but the given names, and those at most once for each time they are
given. -/
structure Block (calls lines : List String) : Prop where
  calm : lines.all noBlock
  braces : ∀ line ∈ lines, '{' ∉ line.toList ∧ '}' ∉ line.toList
  applies : ∀ (place : Place), ∀ name ∉ constructors,
    (place.collect applies (lines.flatMap tokens)).count name ≤ calls.count name

theorem Block.nil : Block [] [] := by
  constructor
  · rfl
  · simp
  · intro place name _
    exact Nat.le_refl _

theorem Block.append (h : Block calls lines) (h' : Block calls' more) :
    Block (calls ++ calls') (lines ++ more) := by
  constructor
  · rw [List.all_append, h.calm, h'.calm]
    rfl
  · exact List.forall_mem_append.mpr ⟨h.braces, h'.braces⟩
  · intro place name other
    rw [List.flatMap_append, collect_append, List.count_append, List.count_append]
    exact Nat.add_le_add (h.applies place name other) (h'.applies _ name other)

theorem Block.inside (h : Block calls lines) (inside : 0 < place.depth) :
    place.collect declares (lines.flatMap tokens) = [] ∧
      (place.after (lines.flatMap tokens)).depth = place.depth := by
  apply inside_of_free inside
  constructor
  · intro mem
    obtain ⟨line, listed, mem⟩ := List.mem_flatMap.mp mem
    exact (h.braces line listed).1 (mem_of_punctuation_mem mem)
  · intro mem
    obtain ⟨line, listed, mem⟩ := List.mem_flatMap.mp mem
    exact (h.braces line listed).2 (mem_of_punctuation_mem mem)

theorem Block.of_line {text : List Char} (all : ∀ c ∈ text, isListing c ∨ c = '=' ∨ c = ';')
    (bounded : ∀ (place : Place), ∀ name ∉ constructors,
      (place.collect Place.applies (tokensFrom true text)).count name ≤ calls.count name) :
    Block calls [.ofList text] := by
  have free : ∀ {c}, ¬ (isListing c ∨ c = '=' ∨ c = ';') → c ∉ (String.ofList text).toList := by
    intro c other mem
    rw [String.toList_ofList] at mem
    exact other (all c mem)
  constructor
  · rw [List.all_cons, noBlock_of_free (free (by decide))]
    rfl
  · exact List.forall_mem_singleton.mpr ⟨free (by decide), free (by decide)⟩
  · rwa [List.flatMap_singleton, tokens_ofList]

/-- An assignment calls its operator, and nothing but constructors inside and none before. -/
theorem tokens_assignment (spelled : assignment.Spelled) : ∃ front arguments,
    tokensFrom true assignment.statement.line =
      front ++ .identifier assignment.symbol :: .punctuation '(' ::
        (arguments ++ [.punctuation ')', .punctuation ';']) ∧ .punctuation '(' ∉ front ∧
          ∀ place : Place, place.collect applies arguments ⊆ constructors := by
  obtain ⟨front, arguments, line, noParen, listed, applied⟩ : ∃ front arguments,
      assignment.statement.line = front ++
        ' ' :: (assignment.symbol.toList ++ '(' :: (arguments ++ [')', ';'])) ∧ '(' ∉ front ∧
          (∀ c ∈ arguments, isListing c) ∧
            ∀ place : Place, place.collect applies (tokensFrom true arguments) ⊆ constructors := by
    refine ⟨"    ".toList ++ (assignment.type.text.toList ++
      ' ' :: (assignment.name.toList ++ [' ', '='])), _,
      by simp [Assignment.statement, Statement.line], ?_,
      fun c => isListing_of_mem_intercalate spelled.statement.arguments,
      applies_arguments spelled.arguments⟩
    simp only [List.mem_append, List.mem_cons, List.not_mem_nil, or_false, not_or]
    refine ⟨by decide, fun mem => ?_, by decide, fun mem => ?_, by decide, by decide⟩
    · cases spells_text assignment.type '(' mem
    · cases spells_of_isWord spelled.name '(' mem
  have hash : '#' ∉ assignment.statement.line :=
    fun mem => absurd (spelled.statement.mem_line mem) (by decide)
  have slash : '/' ∉ assignment.statement.line :=
    fun mem => absurd (spelled.statement.mem_line mem) (by decide)
  have ends : tokensFrom true [')', ';'] = [.punctuation ')', .punctuation ';'] := by decide +kernel
  simp only [line, List.mem_append, List.mem_cons, not_or] at hash slash
  refine ⟨tokensFrom true front, tokensFrom true arguments, ?_,
    fun mem => noParen (mem_of_punctuation_mem mem), applied⟩
  rw [line, tokensFrom_append_of_plain ⟨slash.1, hash.1⟩ (by simp [hash]) (stops_cons (by decide))
    true true, tokensFrom_blank, tokensFrom_call spelled.symbol (by simp [hash]),
    tokensFrom_listing_append listed (by simp) (stops_cons (by decide)), ends]

theorem block_assignment (spelled : assignment.Spelled) :
    Block [assignment.symbol] [.ofList assignment.statement.line] := by
  refine .of_line (fun c => spelled.statement.mem_line) fun place name unlike => ?_
  obtain ⟨front, arguments, eq, free, applied⟩ := tokens_assignment spelled
  obtain ⟨inside, call⟩ := applies_call (place.after front) assignment.symbol
    (arguments ++ [.punctuation ')', .punctuation ';'])
  have none : (inside.collect applies arguments).count name = 0 :=
    List.count_eq_zero.mpr fun mem => unlike (applied inside mem)
  rw [eq, collect_append, collect_applies_of_free free, List.nil_append, call, collect_append,
    List.count_append, List.count_append, none, collect_applies_of_free (by simp), List.count_nil,
    Nat.add_zero]
  exact (List.filter_sublist).count_le name

theorem block_assignments {assignments : List Assignment}
    (spelled : ∀ assignment ∈ assignments, assignment.Spelled) :
    Block (assignments.map Assignment.symbol)
      (assignments.map fun a => .ofList a.statement.line) := by
  induction assignments with
  | nil => exact .nil
  | cons assignment assignments ih =>
    obtain ⟨here, onward⟩ := List.forall_mem_cons.mp spelled
    exact (block_assignment here).append (ih onward)

theorem block_result (spelled : argument.Spelled) :
    Block [] [.ofList ("    return".toList ++ ' ' :: (argument.text.toList ++ [';']))] := by
  have all := spelled.isExpression.isListing
  have word : tokensFrom true "    return".toList = [.identifier "return"] := by decide +kernel
  have ends : tokensFrom true [';'] = [.punctuation ';'] := by decide +kernel
  have cut : tokensFrom true ("    return".toList ++ ' ' :: (argument.text.toList ++ [';'])) =
      .identifier "return" :: (tokensFrom true argument.text.toList ++ [.punctuation ';']) := by
    have hash : '#' ∉ argument.text.toList := notMem_of_isListing all rfl
    rw [tokensFrom_append_of_plain (by decide) (by simp [hash]) (stops_cons (by decide)) true true,
      tokensFrom_blank, tokensFrom_listing_append all (by simp) (stops_cons (by decide)), word,
      ends]
    rfl
  apply Block.of_line
  · intro c mem
    have blank : ∀ c ∈ "    return".toList, isListing c := List.all_eq_true.mp (by decide)
    simp only [List.mem_append, List.mem_cons, List.not_mem_nil, or_false] at mem
    rcases mem with mem | rfl | mem | rfl
    · exact .inl (blank c mem)
    · exact .inl rfl
    · exact .inl (all c mem)
    · exact .inr (.inr rfl)
  · intro place name unlike
    have none : ((place.next (.identifier "return")).collect applies
        (tokensFrom true argument.text.toList)).count name = 0 :=
      List.count_eq_zero.mpr fun mem => unlike (applies_argument spelled _ mem)
    rw [cut, collect, collect_append, List.count_append, List.count_append, none,
      collect_applies_of_free (by simp)]
    exact Nat.le_refl _

def bodyLines (program : Program) : List String :=
  program.assignments.map (fun a => .ofList a.statement.line) ++
    [.ofList ("    return".toList ++ ' ' :: (program.result.text.toList ++ [';']))]

theorem body_eq_ofLines (program : Program) : program.body = ofLines (bodyLines program) := by
  have texts : Assignment.text = fun a => .ofList a.statement.line ++ "\n" := by
    funext a
    rw [← String.toList_inj, ← a.text_statement, Statement.toList_text]
    simp
  have result : "    return " ++ program.result.text ++ ";\n" =
      .ofList ("    return".toList ++ ' ' :: (program.result.text.toList ++ [';'])) ++ "\n" := by
    rw [← String.toList_inj]
    simp
  rw [program.body_eq_append, result, texts, ofLines, bodyLines, List.map_append, List.map_map]
  simp [Function.comp_def]

theorem block_program (spelled : program.Spelled) :
    Block (program.assignments.map Assignment.symbol) (bodyLines program) := by
  have block := (block_assignments spelled.assignments).append (block_result spelled.result)
  rwa [List.append_nil] at block

/-- What the generated functions declare and apply around the calls of the program. -/
structure Mapped (calls lines : List String) : Prop where
  calm : lines.all noBlock
  declares : globals (lines.flatMap tokens) = [sceneDistance, distanceMap]
  applies : ∀ name ∉ sceneDistance :: distanceMap :: constructors,
    (applied (lines.flatMap tokens)).count name ≤ calls.count name
  closed : Place.start.after (lines.flatMap tokens) = Place.start

def distanceLines : List String := ["",
  "vec4 distance_map(vec3 p) \x7b",
  "    map_point = p;",
  "    return vec4(SURFACE_COLOR, scene_distance());",
  "\x7d",
  ""]

def mapLines (program : Program) : List String :=
  "float scene_distance() \x7b" :: bodyLines program ++ "\x7d" :: distanceLines

theorem mapSource_eq_ofLines (program : Program) :
    Program.mapSource program.body ++ "\n" = ofLines (mapLines program) := by
  rw [body_eq_ofLines]
  simp [Program.mapSource, ofLines, mapLines, distanceLines, sceneDistance, distanceMap, toString,
    String.append_assoc]

theorem section_distance :
    Section [distanceMap] [distanceMap, "vec4", sceneDistance] distanceLines := by
  constructor
  · simp only [distanceLines, List.all_cons, List.all_nil]
    repeat rw [noBlock_ofList]
    decide +kernel
  · simp only [distanceLines, List.flatMap_cons, List.flatMap_nil]
    repeat rw [tokens_ofList]
    decide +kernel

theorem mapped (spelled : program.Spelled) :
    Mapped (program.assignments.map Assignment.symbol) (mapLines program) := by
  have block := block_program spelled
  have opens : tokens "float scene_distance() \x7b" = [.identifier "float",
      .identifier "scene_distance", .punctuation '(', .punctuation ')', .punctuation '{'] := by
    rw [tokens_ofList]
    decide +kernel
  have closes : tokens "\x7d" = [.punctuation '}'] := by decide +kernel
  have cut : (mapLines program).flatMap tokens = tokens "float scene_distance() \x7b" ++
      ((bodyLines program).flatMap tokens ++ .punctuation '}' :: distanceLines.flatMap tokens) := by
    rw [mapLines, List.flatMap_append, List.flatMap_cons, List.flatMap_cons, closes]
    simp
  -- the head opens the body, and the lines of the program do not leave it
  have enters : Place.start.after (tokens "float scene_distance() \x7b") = ⟨1, false, []⟩ := by
    rw [opens]
    rfl
  have inside : 0 < (⟨1, false, []⟩ : Place).depth := Nat.one_pos
  obtain ⟨silent, leaves⟩ := block.inside inside
  constructor
  · have calm : noBlock "float scene_distance() \x7b" ∧ noBlock "\x7d" := by decide +kernel
    rw [mapLines, List.all_append, List.all_cons, List.all_cons, block.calm, section_distance.calm]
    simp [calm]
  · rw [cut, globals, collect_function enters leaves, silent, opens,
      declares_of_inside (leaves.symm ▸ inside), ← globals, ← globals,
      section_distance.outside.declares]
    rfl
  · intro name other
    simp only [List.mem_cons, not_or] at other
    have head : (Place.start.collect Place.applies
        (tokens "float scene_distance() \x7b")).count name = 0 := by
      rw [opens]
      exact List.count_eq_zero.mpr fun mem => other.1 (List.mem_singleton.mp mem)
    have tail : (applied (distanceLines.flatMap tokens)).count name = 0 := by
      refine List.count_eq_zero.mpr fun mem => ?_
      have known := section_distance.outside.applies mem
      simp only [List.mem_cons, List.not_mem_nil, or_false] at known
      rcases known with eq | eq | eq
      · exact other.2.1 eq
      · exact other.2.2 (by simp [eq, constructors])
      · exact other.1 eq
    have body := block.applies ⟨1, false, []⟩ name other.2.2
    have brace : (Place.applies ((⟨1, false, []⟩ : Place).after
        ((bodyLines program).flatMap tokens)) (.punctuation '}')).toList = [] := rfl
    rw [cut, applied, collect_function enters leaves, brace, List.nil_append, List.count_append,
      List.count_append, head, ← applied, tail]
    omega
  · rw [cut, after_function enters leaves, section_distance.outside.closed]

/-- The fragment stage without the code of the operators. -/
def surroundings (program : Program) (config : Config) : String :=
  fragment .empty (Program.mapSource program.body) config

def declaredNames : List String :=
  ["uv", "frag_color", "Frame", "aspect", "MAX_DIST", "MAX_ITER", "EPSILON", "SURFACE_COLOR",
    "SKY_COLOR", "LIGHT_DIR", "map_point", sceneDistance, distanceMap, "estimate_normal",
    "soft_shadow", "ambient_occlusion", "main"]

theorem declares_applies_surroundings (spelled : program.Spelled) (config : Config) :
    globals (tokens (surroundings program config)) = declaredNames ∧
      ∃ before after, before ⊆ engineCalls ∧ after ⊆ engineCalls ∧
        applied (tokens (surroundings program config)) =
          before ++ (applied ((mapLines program).flatMap tokens) ++ after) := by
  obtain ⟨first, header, atFirst⟩ := exists_section_header config
  obtain ⟨last, engine, atLast⟩ := exists_section_engine
  have map := mapped spelled
  have text : surroundings program config =
      ofLines first ++ (ofLines (mapLines program) ++ (ofLines last ++ "")) := by
    rw [surroundings, fragment, header, engine, ← mapSource_eq_ofLines]
    simp [Registry.preamble, Registry.empty, String.append_assoc]
  have none : tokens "" = [] := tokensFrom_nil true
  have parts : ∀ found, Place.start.collect found (tokens (surroundings program config)) =
      Place.start.collect found (first.flatMap tokens) ++
        (Place.start.collect found ((mapLines program).flatMap tokens) ++
          Place.start.collect found (last.flatMap tokens)) := by
    intro found
    rw [text, tokens_ofLines atFirst.calm, tokens_ofLines map.calm, tokens_ofLines atLast.calm,
      none, List.append_nil, collect_append, atFirst.outside.closed, collect_append, map.closed]
  constructor
  · rw [globals, parts, ← globals, ← globals, ← globals, atFirst.outside.declares, map.declares,
      atLast.outside.declares]
    rfl
  · have constructor : ["vec3"] ⊆ engineCalls := by decide
    exact ⟨_, _, List.Subset.trans atFirst.outside.applies constructor, atLast.outside.applies,
      parts Place.applies⟩

theorem isReserved_of_mem_declaredNames {name : String} (mem : name ∈ declaredNames) :
    isReserved name := by
  have all : ∀ name ∈ declaredNames, isReserved name := by decide +kernel
  exact all name mem

theorem isReserved_of_applied {name : String}
    (mem : name ∈ sceneDistance :: distanceMap :: engineCalls) (unlike : name ∉ constructors) :
    isReserved name := by
  have all : ∀ name ∈ sceneDistance :: distanceMap :: engineCalls,
      name ∈ constructors ∨ isReserved name := by decide +kernel
  exact (all name mem).resolve_left unlike

theorem isReserved_of_assigned {branches : Branches}
    (mem : assignment ∈ branches.code "node") : isReserved assignment.name := by
  have declared : assignment.name ∈ branches.declared "node" := List.mem_map_of_mem mem
  obtain ⟨top, -, rest, eq, -⟩ := Branches.exists_extends_of_mem declared
  rw [Branches.toList_variableBelow] at eq
  simp [isReserved, eq]

/-- No registered operator has the name of anything that the shader around the operators declares or
of a variable of the program, and unless it has the name of a constructor of values, the shader
applies that name only in the calls of the operator. -/
theorem uncaptured_of_compile {registry : Registry} {scene : Scene} {symbol : String}
    (reached : registry.Reached) (h : scene.Reachable) (built : scene.BuiltFrom registry)
    (compiled : scene.compile = .ok program) (config : Config) (mem : symbol ∈ registry.symbols) :
    symbol ∉ globals (tokens (surroundings program config)) ∧
      symbol ∉ program.assignments.map Assignment.name ∧
        (symbol ∉ constructors → (applied (tokens (surroundings program config))).count symbol ≤
          (program.assignments.map Assignment.symbol).count symbol) := by
  obtain ⟨root, branches, compiles⟩ := h.forest.exists_compiles compiled
  have spelled := compiles.spelled h.forest built reached
  obtain ⟨operator, registered, rfl⟩ := List.mem_map.mp mem
  have unreserved := (reached.accepted registered).checked.unreserved
  have other : ∀ {name}, isReserved name → name ≠ operator.symbol := by
    rintro name reserved rfl
    rw [unreserved] at reserved
    cases reserved
  obtain ⟨globals, before, after, early, late, applied⟩ :=
    declares_applies_surroundings spelled config
  refine ⟨?_, ?_, fun unlike => ?_⟩
  · rw [globals]
    exact fun mem => other (isReserved_of_mem_declaredNames mem) rfl
  · rw [compiles.assignments]
    intro mem
    obtain ⟨assignment, here, eq⟩ := List.mem_map.mp mem
    exact other (isReserved_of_assigned here) eq
  · -- around the calls nothing is applied but reserved names and constructors
    have foreign : operator.symbol ∉ sceneDistance :: distanceMap :: engineCalls :=
      fun mem => other (isReserved_of_applied mem unlike) rfl
    simp only [List.mem_cons, not_or] at foreign
    have called := (mapped spelled).applies operator.symbol (by simp [foreign, unlike])
    rwa [applied, List.count_append, List.count_append,
      List.count_eq_zero.mpr fun mem => foreign.2.2 (early mem),
      List.count_eq_zero.mpr fun mem => foreign.2.2 (late mem), Nat.zero_add, Nat.add_zero]

theorem uncaptured_ball : "sdf_sphere" ∉ globals (tokens (surroundings ballProgram {})) ∧
    "sdf_sphere" ∉ ballProgram.assignments.map Assignment.name ∧
      (applied (tokens (surroundings ballProgram {}))).count "sdf_sphere" ≤ 1 := by
  have mem : "sdf_sphere" ∈ ballRegistry.symbols := by decide +kernel
  obtain ⟨undeclared, unassigned, called⟩ := uncaptured_of_compile reached_ballRegistry
    reachable_ball builtFrom_ball compile_ball {} mem
  exact ⟨undeclared, unassigned, called (by decide)⟩

def captor : Definition := .bare [.vec3] .scalar "float vec3(vec3 p) \x7b return p.x; \x7d"

def captured : Scene :=
  Command.after (.setLiteral ⟨7, 1⟩ 0 (.vec3 1 2 3))
    (Command.after (.attach "a" (captor.named "vec3") ⟨7, 0⟩ 0) (Scene.new 7))

theorem reachable_captured : captured.Reachable := by
  have accepted : (captor.named "vec3").Accepted := ⟨captor, by decide +kernel⟩
  have attach : Command.Allowed (.attach "a" (captor.named "vec3") ⟨7, 0⟩ 0) := .inl accepted
  have literal : Command.Allowed (.setLiteral ⟨7, 1⟩ 0 (.vec3 1 2 3)) := trivial
  exact ((Scene.Reachable.new 7).step attach).step literal

/-- The program calls the operator once, but its name is applied to the components as well. -/
def capturedProgram : Program where
  assignments := [⟨.scalar, "node_a", "vec3", [.literal (.vec3 1 2 3)]⟩]
  result := .var "node_a"

theorem captured_constructor : (Registry.empty.after captor).Reached ∧ captured.Reachable ∧
    captured.BuiltFrom (Registry.empty.after captor) ∧ captured.compile = .ok capturedProgram ∧
      "vec3" ∈ (Registry.empty.after captor).symbols ∧
        (capturedProgram.assignments.map Assignment.symbol).count "vec3" <
          (applied (tokens (surroundings capturedProgram {}))).count "vec3" := by
  have reached := Registry.Reached.empty.step captor
  have built : ∀ node ∈ captured.liveNodes, node.isRoot ∨
      node.operator ∈ (Registry.empty.after captor).operators := by
    decide +kernel
  have built : captured.BuiltFrom (Registry.empty.after captor) :=
    builtFrom_of_liveNodes reachable_captured.forest built
  have compiled : captured.compile = .ok capturedProgram := by decide +kernel
  refine ⟨reached, reachable_captured, built, compiled, by decide +kernel, ?_⟩
  obtain ⟨root, branches, compiles⟩ := reachable_captured.forest.exists_compiles compiled
  obtain ⟨-, before, after, -, -, applied⟩ := declares_applies_surroundings
    (compiles.spelled reachable_captured.forest built reached) {}
  have twice : (Glsl.applied ((mapLines capturedProgram).flatMap tokens)).count "vec3" = 2 := by
    decide +kernel
  have once : (capturedProgram.assignments.map Assignment.symbol).count "vec3" = 1 := by decide
  rw [applied, List.count_append, List.count_append, twice, once]
  omega

end DistanceField.Shader
