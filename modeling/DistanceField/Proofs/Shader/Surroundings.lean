import DistanceField.Proofs.Glsl.Names
import DistanceField.Proofs.Program.Spelling
import DistanceField.Shader.Fragment
import Mathlib.Data.List.Infix

/-!
# The shader around the operators

The text around the code of the operators falls into its tokens line by line. Only the numbers in
the constants and the body of the scene are not fixed; a number declares nothing and applies nothing
whatever its value.
-/

namespace DistanceField.Shader
open Glsl Numeral

/-- Whether no comment of more than one line begins in a text. -/
def noBlock (text : String) : Bool := !decide (['/', '*'] <:+: text.toList)

/-- Lines have their own tokens. -/
theorem tokens_ofLines {lines : List String} (calm : lines.all noBlock) (rest : String) :
    tokens (ofLines lines ++ rest) = lines.flatMap tokens ++ tokens rest := by
  induction lines with
  | nil => simp [ofLines]
  | cons line lines ih =>
    rw [List.all_cons, Bool.and_eq_true] at calm
    have here : ¬ ['/', '*'] <:+: line.toList := by simpa [noBlock] using calm.1
    have cut : (ofLines (line :: lines) ++ rest).toList =
        line.toList ++ '\n' :: (ofLines lines ++ rest).toList := by
      simp [ofLines]
    rw [tokens, cut, tokensFrom_line (endsInBlockFrom_of_noBlock here), List.flatMap_cons,
      List.append_assoc]
    exact congrArg _ (ih calm.2)

theorem tokens_lines {lines : List String} (calm : lines.all noBlock) :
    tokens (ofLines lines) = lines.flatMap tokens := by
  have whole := tokens_ofLines calm ""
  rwa [String.append_empty, show tokens "" = [] from tokensFrom_nil true, List.append_nil] at whole

-- A fixed text is unified with the list of its characters, which the kernel accepts without
-- decoding the text; evaluating `toList` on it takes the square of its length.

theorem tokens_ofList (text : List Char) : tokens (.ofList text) = tokensFrom true text := by
  rw [tokens, String.toList_ofList]

theorem noBlock_ofList (text : List Char) :
    noBlock (.ofList text) = !decide (['/', '*'] <:+: text) := by
  rw [noBlock, String.toList_ofList]

theorem noBlock_of_free {text : String} (free : '/' ∉ text.toList) : noBlock text := by
  simp only [noBlock, Bool.not_eq_true', decide_eq_false_iff_not]
  exact fun block => free (block.subset List.mem_cons_self)

/-- Whole lines outside of functions, with what they declare and apply. -/
structure Section (names calls : List String) (lines : List String) : Prop where
  calm : lines.all noBlock
  outside : Outside names calls (lines.flatMap tokens)

theorem Section.append {names names' calls lines more : List String}
    (h : Section names calls lines) (h' : Section names' calls more) :
    Section (names ++ names') calls (lines ++ more) where
  calm := by rw [List.all_append, h.calm, h'.calm]; rfl
  outside := by rw [List.flatMap_append]; exact h.outside.append h'.outside

def engineCalls : List String :=
  ["estimate_normal", "vec2", "normalize", "distance_map", "soft_shadow", "min", "clamp", "max",
    "ambient_occlusion", "float", "main", "vec3", "dot", "pow", "vec4", "mix"]

theorem exists_section_engine : ∃ lines, engine = ofLines lines ∧
    Section ["estimate_normal", "soft_shadow", "ambient_occlusion", "main"] engineCalls lines := by
  refine ⟨_, rfl, ?_, ?_⟩
  · simp only [List.all_cons, List.all_nil]
    repeat rw [noBlock_ofList]
    decide +kernel
  · simp only [List.flatMap_cons, List.flatMap_nil]
    repeat rw [tokens_ofList]
    decide +kernel

variable {x : Binary32} {text : String}

theorem tokensFrom_of_writes (finite : x.isFinite) (writes : x.Writes text) (lineStart : Bool) :
    ∃ digits, tokensFrom lineStart text.toList =
      x.signChars.map .punctuation ++ [.number digits] := by
  obtain ⟨c, rest, eq, digit, all⟩ := writes.exists_number finite
  have number := tokensFrom_number digit all
  refine ⟨.ofList (c :: rest), ?_⟩
  rw [eq]
  unfold Binary32.signChars
  split
  · have sign : scan lineStart '-' (c :: rest) = ⟨some (.punctuation '-'), false, c :: rest⟩ := rfl
    rw [List.singleton_append, tokensFrom_cons, sign, number]
    rfl
  · exact number lineStart

theorem floatText_of_not_isFinite (infinite : x.isFinite = false) :
    floatText x ∈ ["NaN.0", "inf.0", "-inf.0"] := by
  have word : x.text ∈ ["NaN", "inf", "-inf"] := by
    simp only [Binary32.text, infinite]
    split
    · simp
    · split <;> simp
  simp only [List.mem_cons, List.not_mem_nil, or_false] at word
  rcases word with eq | eq | eq <;> simp [floatText, eq]

theorem spells_floatText (x : Binary32) : Spells (floatText x).toList := by
  cases finite : x.isFinite with
  | true => exact (spells_of_writes finite x.writes_floatText).2
  | false =>
    have all : ∀ text ∈ ["NaN.0", "inf.0", "-inf.0"], text.toList.all isSpelling := by decide
    exact List.all_eq_true.mp (all _ (floatText_of_not_isFinite finite))

theorem outside_floatText (x : Binary32) :
    Outside [] [] (tokensFrom true (floatText x).toList) := by
  cases finite : x.isFinite with
  | true =>
    obtain ⟨digits, eq⟩ := tokensFrom_of_writes finite x.writes_floatText true
    rw [eq]
    unfold Binary32.signChars
    split <;> exact ⟨rfl, List.Subset.refl _, rfl⟩
  | false =>
    have all : ∀ text ∈ ["NaN.0", "inf.0", "-inf.0"],
        Outside [] [] (tokensFrom true text.toList) := by
      decide +kernel
    exact all _ (floatText_of_not_isFinite finite)

variable {value rest : List Char} {c : Char} {name : String}

theorem notMem_of_isListing (all : ∀ c ∈ value, isListing c) (other : isListing c = false) :
    c ∉ value := Text.notMem_of_apart all other

/-- The tokens of an expression before a stop. -/
theorem tokensFrom_listing_append (all : ∀ c ∈ value, isListing c) (free : '#' ∉ rest)
    (stops : ∀ c, rest.head? = some c → Stops c) (lineStart : Bool) :
    tokensFrom lineStart (value ++ rest) = tokensFrom true value ++ tokensFrom true rest := by
  have number : '#' ∉ value := notMem_of_isListing all rfl
  rw [tokensFrom_append_of_plain ⟨notMem_of_isListing all rfl, number⟩ free stops lineStart true,
    tokensFrom_lineStart number lineStart true]

theorem tokensFrom_blank (lineStart : Bool) :
    tokensFrom lineStart (' ' :: rest) = tokensFrom lineStart rest := by
  rw [tokensFrom_cons]
  rfl

theorem tokensFrom_comma (free : '#' ∉ rest) (lineStart : Bool) :
    tokensFrom lineStart (',' :: ' ' :: rest) = .punctuation ',' :: tokensFrom true rest := by
  have comma : scan lineStart ',' (' ' :: rest) = ⟨some (.punctuation ','), false, ' ' :: rest⟩ :=
    rfl
  rw [tokensFrom_cons, comma, tokensFrom_blank, tokensFrom_lineStart free false true]
  rfl

theorem tokensFrom_call (identifier : IsIdentifier name) (free : '#' ∉ rest) (lineStart : Bool) :
    tokensFrom lineStart (name.toList ++ '(' :: rest) =
      .identifier name :: .punctuation '(' :: tokensFrom true rest := by
  have all : ∀ c ∈ name.toList, isListing c :=
    fun c mem => isListing_of_isSpelling (spells_of_isWord identifier.isWord c mem)
  have paren : scan true '(' rest = ⟨some (.punctuation '('), false, rest⟩ := rfl
  rw [tokensFrom_listing_append all (by simp [free]) (stops_cons (by decide)),
    tokensFrom_identifier identifier, tokensFrom_cons, paren, tokensFrom_lineStart free false true]
  rfl

theorem tokensFrom_close (lineStart : Bool) :
    tokensFrom lineStart [')'] = [.punctuation ')'] := by
  rw [tokensFrom_cons]
  simp [scan, startsIdentifier, startsNumber]

theorem toList_tripleText (v : Triple) : (tripleText v).toList = "vec3".toList ++ '(' ::
    ((floatText v.x).toList ++ ',' :: ' ' :: ((floatText v.y).toList ++ ',' :: ' ' ::
      ((floatText v.z).toList ++ [')']))) := by
  simp [tripleText, Triple.toList]

theorem isListing_floatText (x : Binary32) : ∀ c ∈ (floatText x).toList, isListing c :=
  fun c mem => isListing_of_isSpelling (spells_floatText x c mem)

theorem isListing_tripleText (v : Triple) : ∀ c ∈ (tripleText v).toList, isListing c := by
  intro c mem
  have word : ∀ c ∈ "vec3".toList, isListing c := List.all_eq_true.mp (by decide)
  rw [toList_tripleText] at mem
  simp only [List.mem_append, List.mem_cons, List.not_mem_nil, or_false] at mem
  rcases mem with mem | rfl | mem | rfl | rfl | mem | rfl | rfl | mem | rfl
  · exact word c mem
  · rfl
  · exact isListing_floatText v.x c mem
  · rfl
  · rfl
  · exact isListing_floatText v.y c mem
  · rfl
  · rfl
  · exact isListing_floatText v.z c mem
  · rfl

theorem tokens_tripleText (v : Triple) : tokensFrom true (tripleText v).toList =
    .identifier "vec3" :: .punctuation '(' :: (tokensFrom true (floatText v.x).toList ++
      .punctuation ',' :: (tokensFrom true (floatText v.y).toList ++
        .punctuation ',' :: (tokensFrom true (floatText v.z).toList ++ [.punctuation ')']))) := by
  have free : ∀ x, '#' ∉ (floatText x).toList :=
    fun x => notMem_of_isListing (isListing_floatText x) rfl
  have identifier : IsIdentifier "vec3" := @isIdentifier_text .vec3 (by decide)
  rw [toList_tripleText, tokensFrom_call identifier (by simp [free]),
    tokensFrom_listing_append (isListing_floatText _) (by simp [free]) (stops_cons (by decide)),
    tokensFrom_comma (by simp [free]),
    tokensFrom_listing_append (isListing_floatText _) (by simp [free]) (stops_cons (by decide)),
    tokensFrom_comma (by simp [free]),
    tokensFrom_listing_append (isListing_floatText _) (by simp) (stops_cons (by decide)),
    tokensFrom_close]

theorem outside_scalar (x : Binary32) :
    Outside [] ["vec3"] (tokensFrom true (floatText x).toList ++ [.punctuation ';']) := by
  have ends : Outside [] [] [.punctuation ';'] := by decide
  exact ((outside_floatText x).append ends).mono (List.nil_subset _)

theorem outside_triple (v : Triple) :
    Outside [] ["vec3"] (tokensFrom true (tripleText v).toList ++ [.punctuation ';']) := by
  have number := fun x => (outside_floatText x).mono (List.nil_subset ["vec3"])
  have opens : Outside [] ["vec3"] [.identifier "vec3", .punctuation '('] := by decide +kernel
  have comma : Outside [] ["vec3"] [.punctuation ','] := by decide
  have ends : Outside [] ["vec3"] [.punctuation ')', .punctuation ';'] := by decide
  have whole := opens.append ((number v.x).append (comma.append ((number v.y).append
    (comma.append ((number v.z).append ends)))))
  rw [tokens_tripleText]
  simpa using whole

theorem isDigit_repr (n : Nat) : ∃ c rest, (Nat.repr n).toList = c :: rest ∧
    c.isDigit ∧ ∀ d ∈ rest, d.isDigit := by
  obtain ⟨c, rest, eq⟩ := List.exists_cons_of_ne_nil (@Nat.toDigits_ne_nil n 10)
  have digits : ∀ d ∈ c :: rest, d.isDigit := fun d mem =>
    Decimal.isDigit_of_mem_toDigits (eq ▸ mem)
  exact ⟨c, rest, Nat.toList_repr.trans eq, List.forall_mem_cons.mp digits⟩

theorem isListing_repr (n : Nat) : ∀ c ∈ (Nat.repr n).toList, isListing c := by
  obtain ⟨c, rest, eq, digits⟩ := isDigit_repr n
  have all : ∀ d ∈ c :: rest, d.isDigit := List.forall_mem_cons.mpr digits
  rw [eq]
  intro d mem
  have digit := all d mem
  exact isListing_of_isSpelling (isSpelling_of_isAlphanum (by simp [Char.isAlphanum, digit]))

theorem outside_count (n : Nat) :
    Outside [] ["vec3"] (tokensFrom true (Nat.repr n).toList ++ [.punctuation ';']) := by
  obtain ⟨c, rest, eq, digit, all⟩ := isDigit_repr n
  rw [eq, tokensFrom_number digit fun d mem => .inl (all d mem)]
  exact ⟨rfl, List.nil_subset _, rfl⟩

/-- A value that is written into the header. -/
inductive Baked where
  | float (x : Binary32)
  | int (n : Nat)
  | vec3 (v : Triple)

namespace Baked

def type : Baked → String
  | float _ => "float"
  | int _ => "int"
  | vec3 _ => "vec3"

def shown : Baked → String
  | float x => floatText x
  | int n => n.repr
  | vec3 v => tripleText v

def tokens (value : Baked) : List Token := tokensFrom true value.shown.toList

theorem isListing_shown (value : Baked) : ∀ c ∈ value.shown.toList, isListing c := by
  cases value with
  | float x => exact isListing_floatText x
  | int n => exact isListing_repr n
  | vec3 v => exact isListing_tripleText v

theorem outside_tokens (value : Baked) :
    Outside [] ["vec3"] (value.tokens ++ [.punctuation ';']) := by
  cases value with
  | float x => exact outside_scalar x
  | int n => exact outside_count n
  | vec3 v => exact outside_triple v

end Baked

def baked (config : Config) : List (String × Baked) :=
  [("MAX_DIST", .float config.maxDistance), ("MAX_ITER", .int config.maxIterations.toNat),
    ("EPSILON", .float config.epsilon), ("SURFACE_COLOR", .vec3 config.surfaceColor),
    ("SKY_COLOR", .vec3 config.skyColor), ("LIGHT_DIR", .vec3 config.lightDirection)]

def bodyTokens (constant : String × Baked) : List Token :=
  .identifier constant.2.type :: .identifier constant.1 :: .punctuation '=' :: constant.2.tokens

/-- A line that declares a constant and nothing else. -/
structure IsLine (line : String) (constant : String × Baked) : Prop where
  calm : noBlock line
  tokens : tokens line =
    .identifier "const" :: (bodyTokens constant ++ [.punctuation ';'])

theorem isLine_of_eq {line : String} {value : Baked} (type declaration : String)
    (typed : type = value.type)
    (eq : line.toList = declaration.toList ++ ' ' :: (value.shown.toList ++ [';']))
    (plain : '/' ∉ declaration.toList ∧ '#' ∉ declaration.toList)
    (cut : tokens declaration = [.identifier "const", .identifier type, .identifier name,
      .punctuation '=']) : IsLine line (name, value) := by
  have all := value.isListing_shown
  have free : '#' ∉ value.shown.toList := notMem_of_isListing all rfl
  have slash : '/' ∉ value.shown.toList := notMem_of_isListing all rfl
  constructor
  · exact noBlock_of_free (by simp [eq, plain.1, slash])
  · have ends : tokensFrom true [';'] = [.punctuation ';'] := by decide +kernel
    rw [Glsl.tokens, eq, tokensFrom_append_of_plain plain (by simp [free])
      (stops_cons (by decide)) true true, tokensFrom_blank,
      tokensFrom_listing_append all (by simp) (stops_cons (by decide)), ends, ← Glsl.tokens,
      cut, typed]
    rfl

theorem section_of_isLine {lines : List String} {constants : List (String × Baked)}
    (related : List.Forall₂ IsLine lines constants) :
    Section (constants.map Prod.fst) ["vec3"] lines := by
  induction related with
  | nil => exact ⟨rfl, rfl, List.nil_subset _, rfl⟩
  | @cons line constant lines constants here _ ih =>
    have head : Outside [constant.1] ["vec3"] [.identifier "const", .identifier constant.2.type,
        .identifier constant.1, .punctuation '='] := ⟨rfl, List.nil_subset _, rfl⟩
    have first : Section [constant.1] ["vec3"] [line] :=
      ⟨by simp [here.calm], by
        simpa [here.tokens, bodyTokens] using head.append constant.2.outside_tokens⟩
    exact first.append ih

def headerTop : List String :=
  ["#version 450",
    "",
    "layout(location = 0) in vec2 uv;",
    "layout(location = 0) out vec4 frag_color;",
    "",
    "layout(set = 0, binding = 0) uniform Frame \x7b",
    "    float aspect;",
    "\x7d;",
    ""]

def headerBottom : List String :=
  ["",
    "// Point currently evaluated by distance_map, read by sample_point().",
    "vec3 map_point;",
    ""]

def constantLines (config : Config) : List String :=
  [s!"const float MAX_DIST = {floatText config.maxDistance};",
    s!"const int MAX_ITER = {config.maxIterations.toNat};",
    s!"const float EPSILON = {floatText config.epsilon};",
    s!"const vec3 SURFACE_COLOR = {tripleText config.surfaceColor};",
    s!"const vec3 SKY_COLOR = {tripleText config.skyColor};",
    s!"const vec3 LIGHT_DIR = {tripleText config.lightDirection};"]

theorem header_eq (config : Config) :
    header config = ofLines (headerTop ++ constantLines config ++ headerBottom) := rfl

theorem section_headerTop :
    Section ["uv", "frag_color", "Frame", "aspect"] ["vec3"] headerTop := by
  constructor
  · simp only [headerTop, List.all_cons, List.all_nil]
    repeat rw [noBlock_ofList]
    decide +kernel
  · simp only [headerTop, List.flatMap_cons, List.flatMap_nil]
    repeat rw [tokens_ofList]
    decide +kernel

theorem section_headerBottom : Section ["map_point"] ["vec3"] headerBottom := by
  constructor
  · simp only [headerBottom, List.all_cons, List.all_nil]
    repeat rw [noBlock_ofList]
    decide +kernel
  · simp only [headerBottom, List.flatMap_cons, List.flatMap_nil]
    repeat rw [tokens_ofList]
    decide +kernel

theorem isLine_constantLines (config : Config) :
    List.Forall₂ IsLine (constantLines config) (baked config) := by
  refine .cons ?_ (.cons ?_ (.cons ?_ (.cons ?_ (.cons ?_ (.cons ?_ .nil)))))
  · exact isLine_of_eq "float" "const float MAX_DIST =" rfl (by simp [toString, Baked.shown])
      (by decide) (by decide +kernel)
  · exact isLine_of_eq "int" "const int MAX_ITER =" rfl (by simp [toString, Baked.shown])
      (by decide) (by decide +kernel)
  · exact isLine_of_eq "float" "const float EPSILON =" rfl (by simp [toString, Baked.shown])
      (by decide) (by decide +kernel)
  · exact isLine_of_eq "vec3" "const vec3 SURFACE_COLOR =" rfl (by simp [toString, Baked.shown])
      (by decide) (by decide +kernel)
  · exact isLine_of_eq "vec3" "const vec3 SKY_COLOR =" rfl (by simp [toString, Baked.shown])
      (by decide) (by decide +kernel)
  · exact isLine_of_eq "vec3" "const vec3 LIGHT_DIR =" rfl (by simp [toString, Baked.shown])
      (by decide) (by decide +kernel)

/-- The lines of the header declare the same names whatever the constants are. -/
theorem exists_section_header (config : Config) : ∃ lines, header config = ofLines lines ∧
    Section ["uv", "frag_color", "Frame", "aspect", "MAX_DIST", "MAX_ITER", "EPSILON",
      "SURFACE_COLOR", "SKY_COLOR", "LIGHT_DIR", "map_point"] ["vec3"] lines :=
  ⟨_, header_eq config,
    (section_headerTop.append (section_of_isLine (isLine_constantLines config))).append
      section_headerBottom⟩

end DistanceField.Shader
