import DistanceField.Proofs.Glsl.Tokens
import DistanceField.Proofs.Numeral.Reading
import DistanceField.Proofs.Operator.Signature
import DistanceField.Proofs.Program.Variables

/-!
# Expressions read back

An expression is a name, a number, or a name with numbers in parentheses, so the arguments of a call
are told apart although commas stand within them as well as between them. Literals with one
expression are of one type and agree in all components that count.
-/

namespace DistanceField
open Numeral Text

/-- A character of names and numbers. -/
def isSpelling (c : Char) : Bool := Glsl.continuesIdentifier c || c = '.' || c = '-'

def Spells (text : List Char) : Prop := ∀ c ∈ text, isSpelling c

theorem isSpelling_of_isAlphanum {c : Char} (h : c.isAlphanum) : isSpelling c := by
  simp [isSpelling, Glsl.continuesIdentifier, h]

theorem Glsl.IsIdentifier.isWord {name : String} (h : IsIdentifier name) : IsWord name := by
  obtain ⟨c, rest, eq, starts, continues⟩ := h
  have first : continuesIdentifier c := by
    simp only [startsIdentifier, Bool.or_eq_true, decide_eq_true_eq] at starts
    rcases starts with alpha | underscore
    · simp [continuesIdentifier, Char.isAlphanum, alpha]
    · simp [continuesIdentifier, underscore]
  refine ⟨by simp [eq], fun d mem => ?_⟩
  have word : continuesIdentifier d := by
    rw [eq] at mem
    rcases List.mem_cons.mp mem with rfl | mem
    · exact first
    · exact continues d mem
  simpa [continuesIdentifier] using word

theorem spells_of_isWord {word : String} (h : IsWord word) : Spells word.toList := by
  intro c mem
  rcases h.2 c mem with alnum | rfl
  · exact isSpelling_of_isAlphanum alnum
  · rfl

def isListing (c : Char) : Bool := isSpelling c || c ∈ ['(', ')', ',', ' ']

theorem isListing_of_isSpelling {c : Char} (h : isSpelling c) : isListing c := by
  simp [isListing, h]

theorem spells_text (type : ValueType) : Spells type.text.toList := by
  cases type <;> exact List.all_eq_true.mp (by decide)

theorem isWord_text (type : ValueType) : IsWord type.text := by
  cases type <;> simp [IsWord, ValueType.text, ValueType.glsl?]

theorem isIdentifier_text {type : ValueType} (notRoot : type ≠ .root) :
    Glsl.IsIdentifier type.text := by
  have named : type.glsl? = some type.text := by
    cases type with
    | root => exact absurd rfl notRoot
    | _ => rfl
  exact ValueType.isIdentifier_of_glsl? named

theorem spells_of_writes {x : Binary32} {text : String} (finite : x.isFinite)
    (writes : x.Writes text) : text.toList ≠ [] ∧ Spells text.toList := by
  obtain ⟨c, rest, eq, digit, all⟩ := writes.exists_number finite
  have number : ∀ d ∈ c :: rest, d.isDigit ∨ d = '.' := List.forall_mem_cons.mpr ⟨.inl digit, all⟩
  rw [eq]
  refine ⟨by simp, fun d mem => ?_⟩
  rcases List.mem_append.mp mem with sign | mem
  · unfold Binary32.signChars at sign
    split at sign
    · rw [List.mem_singleton.mp sign]
      rfl
    · cases sign
  · rcases number d mem with digit | rfl
    · exact isSpelling_of_isAlphanum (by simp [Char.isAlphanum, digit])
    · rfl

/-- A name or a number, or a name with a list in parentheses. -/
inductive IsExpression : List Char → Prop where
  | plain {text : List Char} (ne : text ≠ []) (spells : Spells text) : IsExpression text
  | applied {text inner : List Char} (spells : Spells text)
      (listed : ∀ c ∈ inner, isSpelling c ∨ c = ',' ∨ c = ' ') :
      IsExpression (text ++ '(' :: (inner ++ [')']))

namespace IsExpression

variable {x y u v : List Char}

theorem ne_nil (h : IsExpression x) : x ≠ [] := by
  cases h with
  | plain ne => exact ne
  | applied => simp

theorem isListing (h : IsExpression x) : ∀ c ∈ x, isListing c := by
  cases h with
  | plain _ spells => exact fun c mem => isListing_of_isSpelling (spells c mem)
  | applied spells listed =>
    intro c mem
    simp only [List.mem_append, List.mem_cons, List.not_mem_nil, or_false] at mem
    rcases mem with mem | rfl | mem | rfl
    · exact isListing_of_isSpelling (spells c mem)
    · rfl
    · rcases listed c mem with spelling | rfl | rfl
      · exact isListing_of_isSpelling spelling
      · rfl
      · rfl
    · rfl

/-- Of two expressions before a comma or the end each is told apart from what follows. -/
theorem append_inj (hx : IsExpression x) (hy : IsExpression y)
    (ends : ∀ c, u.head? = some c → c = ',') (ends' : ∀ c, v.head? = some c → c = ',')
    (h : x ++ u = y ++ v) : x = y ∧ u = v := by
  have stop : ∀ {u : List Char}, (∀ c, u.head? = some c → c = ',') → StopsAt isSpelling u := by
    intro u ends c eq
    rw [ends c eq]
    rfl
  have opens : ∀ {u : List Char}, StopsAt isSpelling ('(' :: u) := stopsAt_cons rfl
  cases hx with
  | plain ne spells =>
    cases hy with
    | plain ne' spells' => exact append_inj_of_stop spells spells' (stop ends) (stop ends') h
    | applied spells' listed' =>
      rw [List.append_assoc, List.cons_append] at h
      obtain ⟨-, rfl⟩ := append_inj_of_stop spells spells' (stop ends) opens h
      cases ends _ rfl
  | applied spells listed =>
    rw [List.append_assoc _ _ u, List.cons_append] at h
    cases hy with
    | plain ne' spells' =>
      obtain ⟨-, rfl⟩ := append_inj_of_stop spells spells' opens (stop ends') h
      cases ends' _ rfl
    | applied spells' listed' =>
      rw [List.append_assoc _ _ v, List.cons_append] at h
      obtain ⟨rfl, rest⟩ := append_inj_of_stop spells spells' opens opens h
      -- the list is what stands before the next closing parenthesis
      have free : ∀ {inner : List Char}, (∀ c ∈ inner, isSpelling c ∨ c = ',' ∨ c = ' ') →
          ')' ∉ inner := by
        intro inner listed mem
        rcases listed _ mem with spelling | eq | eq
        · cases spelling
        · cases eq
        · cases eq
      rw [List.cons.injEq, List.append_assoc, List.append_assoc] at rest
      obtain ⟨rfl, left⟩ := append_cons_inj_of_free (free listed) (free listed') rest.2
      exact ⟨rfl, left⟩

end IsExpression

theorem head?_join_commas {texts : List String} {c : Char}
    (h : (String.join (texts.map (", " ++ ·))).toList.head? = some c) : c = ',' := by
  cases texts with
  | nil => cases h
  | cons text texts =>
    rw [List.map_cons, String.join_cons, String.append_assoc, String.toList_append] at h
    exact (Option.some.inj h).symm

theorem join_commas_inj {texts texts' : List String}
    (all : ∀ text ∈ texts, IsExpression text.toList)
    (all' : ∀ text ∈ texts', IsExpression text.toList)
    (h : String.join (texts.map (", " ++ ·)) = String.join (texts'.map (", " ++ ·))) :
    texts = texts' := by
  have nonempty : ∀ {text : String} {texts : List String},
      String.join ((text :: texts).map (", " ++ ·)) ≠ String.join [] := by
    intro text texts empty
    have lists := congrArg String.toList empty
    simp at lists
  induction texts generalizing texts' with
  | nil =>
    cases texts' with
    | nil => rfl
    | cons text' texts' => exact absurd h.symm nonempty
  | cons text texts ih =>
    cases texts' with
    | nil => exact absurd h nonempty
    | cons text' texts' =>
      obtain ⟨expression, all⟩ := List.forall_mem_cons.mp all
      obtain ⟨expression', onward⟩ := List.forall_mem_cons.mp all'
      simp only [List.map_cons, String.join_cons, String.append_assoc] at h
      have lists := congrArg String.toList ((String.append_right_inj _).mp h)
      simp only [String.toList_append] at lists
      obtain ⟨same, rest⟩ := expression.append_inj expression' (fun _ => head?_join_commas)
        (fun _ => head?_join_commas) lists
      rw [String.toList_inj.mp same, ih all onward (String.toList_inj.mp rest)]

theorem isListing_of_mem_intercalate {texts : List String}
    (all : ∀ text ∈ texts, IsExpression text.toList) {c : Char}
    (mem : c ∈ (", ".intercalate texts).toList) : isListing c := by
  rw [String.toList_intercalate] at mem
  rcases mem_of_mem_intercalate mem with mem | ⟨chars, mem, here⟩
  · have separator : ∀ c ∈ ", ".toList, isListing c := List.all_eq_true.mp (by decide)
    exact separator c mem
  · obtain ⟨text, listed, rfl⟩ := List.mem_map.mp mem
    exact (all text listed).isListing c here

theorem comma_append_intercalate {texts : List String} (some : texts ≠ []) :
    ", " ++ ", ".intercalate texts = String.join (texts.map (", " ++ ·)) := by
  induction texts with
  | nil => exact absurd rfl some
  | cons text texts ih =>
    cases texts with
    | nil => simp
    | cons next texts =>
      rw [String.intercalate_cons_cons, List.map_cons, String.join_cons, ← ih (by simp)]
      simp only [String.append_assoc]

/-- Expressions with commas between them are told apart. -/
theorem intercalate_inj {texts texts' : List String}
    (all : ∀ text ∈ texts, IsExpression text.toList)
    (all' : ∀ text ∈ texts', IsExpression text.toList)
    (h : ", ".intercalate texts = ", ".intercalate texts') : texts = texts' := by
  have nonempty : ∀ {text : String} {texts : List String}, IsExpression text.toList →
      ", ".intercalate (text :: texts) ≠ ", ".intercalate [] := by
    intro text texts expression empty
    have lists := congrArg String.toList empty
    cases texts <;> simp [expression.ne_nil] at lists
  cases texts with
  | nil =>
    cases texts' with
    | nil => rfl
    | cons text' texts' => exact absurd h.symm (nonempty (all' _ List.mem_cons_self))
  | cons text texts =>
    cases texts' with
    | nil => exact absurd h (nonempty (all _ List.mem_cons_self))
    | cons text' texts' =>
      apply join_commas_inj all all'
      rw [← comma_append_intercalate (by simp), ← comma_append_intercalate (by simp), h]

theorem ValueType.text_inj {a b : ValueType} (h : a.text = b.text) : a = b := by
  revert h
  cases a <;> cases b <;> decide

namespace Literal

variable {a b : Literal}

theorem expression_of_scalar (scalar : a.type = .scalar) :
    ∃ x, a.meaningful = [x] ∧ a.expression = floatText x := by
  obtain ⟨type, ⟨⟨list⟩, size⟩⟩ := a
  obtain rfl : type = .scalar := scalar
  match list, size with
  | [x, y, z, w], _ => exact ⟨x, rfl, rfl⟩

theorem expression_of_vector (notScalar : a.type ≠ .scalar) (notRoot : a.type ≠ .root) :
    a.expression = a.type.text ++ "(" ++ ", ".intercalate (a.meaningful.map componentText) ++ ")" := by
  unfold expression
  split
  · contradiction
  · contradiction
  · rfl

theorem spells_componentTexts (finite : a.isFinite) :
    ∀ text ∈ a.meaningful.map componentText, text.toList ≠ [] ∧ Spells text.toList := by
  intro text mem
  obtain ⟨x, here, rfl⟩ := List.mem_map.mp mem
  exact spells_of_writes (isFinite_iff.mp finite x here) x.writes_componentText

theorem mem_components (finite : a.isFinite) {c : Char}
    (mem : c ∈ (", ".intercalate (a.meaningful.map componentText)).toList) :
    isSpelling c ∨ c = ',' ∨ c = ' ' := by
  rw [String.toList_intercalate] at mem
  rcases mem_of_mem_intercalate mem with mem | ⟨chars, mem, here⟩
  · exact .inr (by simpa using mem)
  · obtain ⟨text, listed, rfl⟩ := List.mem_map.mp mem
    exact .inl ((spells_componentTexts finite text listed).2 c here)

theorem components_inj {xs ys : List Binary32} (finite : ∀ x ∈ xs, x.isFinite)
    (finite' : ∀ y ∈ ys, y.isFinite) (h : xs.map componentText = ys.map componentText) : xs = ys := by
  induction xs generalizing ys with
  | nil => exact (List.map_eq_nil_iff.mp h.symm).symm
  | cons x xs ih =>
    cases ys with
    | nil => cases h
    | cons y ys =>
      obtain ⟨here, finite⟩ := List.forall_mem_cons.mp finite
      obtain ⟨here', onward⟩ := List.forall_mem_cons.mp finite'
      obtain ⟨same, rest⟩ := List.cons.inj h
      have writes : x.Writes (componentText y) := same ▸ x.writes_componentText
      rw [writes.inj here here' y.writes_componentText, ih finite onward rest]

theorem toList_expression_of_vector (notScalar : a.type ≠ .scalar) (notRoot : a.type ≠ .root) :
    a.expression.toList = a.type.text.toList ++
      '(' :: ((", ".intercalate (a.meaningful.map componentText)).toList ++ [')']) := by
  simp [expression_of_vector notScalar notRoot]

theorem isExpression (finite : a.isFinite) (notRoot : a.type ≠ .root) :
    IsExpression a.expression.toList := by
  by_cases scalar : a.type = .scalar
  · obtain ⟨x, eq, shown⟩ := expression_of_scalar scalar
    have finite : x.isFinite := isFinite_iff.mp finite x (by simp [eq])
    obtain ⟨ne, spells⟩ := spells_of_writes finite x.writes_floatText
    exact shown ▸ .plain ne spells
  · rw [toList_expression_of_vector scalar notRoot]
    exact .applied (spells_text a.type) fun c mem => mem_components finite mem

/-- Only a scalar is written without parentheses. -/
theorem paren_mem_expression_iff (finite : a.isFinite) (notRoot : a.type ≠ .root) :
    '(' ∈ a.expression.toList ↔ a.type ≠ .scalar := by
  constructor
  · intro mem scalar
    obtain ⟨x, eq, shown⟩ := expression_of_scalar scalar
    have finite : x.isFinite := isFinite_iff.mp finite x (by simp [eq])
    cases (spells_of_writes finite x.writes_floatText).2 '(' (shown ▸ mem)
  · intro notScalar
    simp [toList_expression_of_vector notScalar notRoot]

/-- Literals with one expression agree in all that counts. -/
theorem expression_inj (finite : a.isFinite) (finite' : b.isFinite) (notRoot : a.type ≠ .root)
    (notRoot' : b.type ≠ .root) (h : a.expression = b.expression) :
    a.type = b.type ∧ a.meaningful = b.meaningful := by
  have parens := paren_mem_expression_iff finite notRoot
  rw [h, paren_mem_expression_iff finite' notRoot', not_iff_not] at parens
  by_cases scalar : a.type = .scalar
  · have scalar' := parens.mpr scalar
    obtain ⟨x, eq, shown⟩ := expression_of_scalar scalar
    obtain ⟨y, eq', shown'⟩ := expression_of_scalar scalar'
    have finite : x.isFinite := isFinite_iff.mp finite x (by simp [eq])
    have finite' : y.isFinite := isFinite_iff.mp finite' y (by simp [eq'])
    have writes : x.Writes (floatText y) := by
      rw [← shown', ← h, shown]
      exact x.writes_floatText
    rw [scalar, scalar', eq, eq', writes.inj finite finite' y.writes_floatText]
    exact ⟨rfl, rfl⟩
  · have scalar' : b.type ≠ .scalar := fun eq => scalar (parens.mp eq)
    have whole := congrArg String.toList h
    rw [toList_expression_of_vector scalar notRoot, toList_expression_of_vector scalar' notRoot']
      at whole
    obtain ⟨type, rest⟩ := append_inj_of_stop (spells_text a.type) (spells_text b.type)
      (stopsAt_cons rfl) (stopsAt_cons rfl) whole
    have inner := String.toList_inj.mp (List.append_cancel_right (List.tail_eq_of_cons_eq rest))
    have plain : ∀ {literal : Literal}, literal.isFinite →
        ∀ text ∈ literal.meaningful.map componentText, IsExpression text.toList := by
      intro literal finite text mem
      obtain ⟨ne, spells⟩ := spells_componentTexts finite text mem
      exact .plain ne spells
    exact ⟨ValueType.text_inj (String.toList_inj.mp type),
      components_inj (isFinite_iff.mp finite) (isFinite_iff.mp finite')
        (intercalate_inj (plain finite) (plain finite') inner)⟩

theorem expression_congr (type : a.type = b.type) (components : a.meaningful = b.meaningful) :
    a.expression = b.expression := by
  by_cases scalar : a.type = .scalar
  · obtain ⟨x, eq, shown⟩ := expression_of_scalar scalar
    obtain ⟨y, eq', shown'⟩ := expression_of_scalar (type ▸ scalar)
    rw [components, eq'] at eq
    rw [shown, shown', List.singleton_inj.mp eq]
  · by_cases root : a.type = .root
    · simp [expression, ← type, root]
    · rw [expression_of_vector scalar root, expression_of_vector (type ▸ scalar) (type ▸ root), type,
        components]

end Literal

/-- An argument that shows in a text as it is: a word, or a finite literal of some type of the
shading language. -/
def Argument.Spelled : Argument → Prop
  | .var name => IsWord name
  | .literal value => value.isFinite ∧ value.type ≠ .root

theorem Argument.Spelled.isExpression {argument : Argument} (h : argument.Spelled) :
    IsExpression argument.text.toList := by
  cases argument with
  | var name => exact .plain h.1 (spells_of_isWord h)
  | literal value => exact value.isExpression h.1 h.2

end DistanceField
