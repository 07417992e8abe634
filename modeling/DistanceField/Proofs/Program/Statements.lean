import DistanceField.Proofs.Program.Spelling

/-!
# Bodies read back

A body consists of statements, a line for each, and of a line that returns an expression. A
statement shows its type, its variable, its operator and its arguments, so a body reads in one way,
and the body of a program reads as the assignments and the result of the program.
-/

namespace DistanceField
open Text

/-- A line that assigns what a call returns, in words and expressions. -/
@[ext]
structure Statement where
  type : String
  name : String
  symbol : String
  arguments : List String

namespace Statement

variable {a b : Statement}

def text (statement : Statement) : String :=
  "    " ++ statement.type ++ " " ++ statement.name ++ " = " ++ statement.symbol ++ "(" ++
    ", ".intercalate statement.arguments ++ ");\n"

structure Spelled (statement : Statement) : Prop where
  type : IsWord statement.type
  name : IsWord statement.name
  symbol : IsWord statement.symbol
  arguments : ∀ text ∈ statement.arguments, IsExpression text.toList

def line (a : Statement) : List Char := "    ".toList ++ (a.type.toList ++
  ' ' :: (a.name.toList ++ ' ' :: '=' :: ' ' :: (a.symbol.toList ++ '(' ::
    ((", ".intercalate a.arguments).toList ++ [')', ';']))))

theorem toList_text (a : Statement) : a.text.toList = a.line ++ ['\n'] := by
  simp [text, line]

theorem Spelled.mem_line (h : a.Spelled) {c : Char} (mem : c ∈ a.line) :
    isListing c ∨ c = '=' ∨ c = ';' := by
  have word : ∀ {word : String}, IsWord word → ∀ c ∈ word.toList, isListing c :=
    fun word c mem => isListing_of_isSpelling (spells_of_isWord word c mem)
  have blank : ∀ c ∈ "    ".toList, isListing c := List.all_eq_true.mp (by decide)
  simp only [line, List.mem_append, List.mem_cons, List.not_mem_nil, or_false] at mem
  rcases mem with mem | mem | rfl | mem | rfl | rfl | rfl | mem | rfl | mem | rfl | rfl
  · exact .inl (blank c mem)
  · exact .inl (word h.type c mem)
  · exact .inl rfl
  · exact .inl (word h.name c mem)
  · exact .inl rfl
  · exact .inr (.inl rfl)
  · exact .inl rfl
  · exact .inl (word h.symbol c mem)
  · exact .inl rfl
  · exact .inl (isListing_of_mem_intercalate h.arguments mem)
  · exact .inl rfl
  · exact .inr (.inr rfl)

theorem Spelled.isLine (h : a.Spelled) : IsLine a.text := by
  refine ⟨a.line, a.toList_text, fun mem => ?_⟩
  rcases h.mem_line mem with listing | eq | eq
  · cases listing
  · cases eq
  · cases eq

/-- The text of a statement shows all of it. -/
theorem Spelled.text_inj (ha : a.Spelled) (hb : b.Spelled) (h : a.text = b.text) : a = b := by
  have word : ∀ {x y : String} {us vs : List Char}, IsWord x → IsWord y → StopsAt isSpelling us →
      StopsAt isSpelling vs → x.toList ++ us = y.toList ++ vs → x = y ∧ us = vs := by
    intro x y us vs hx hy stops stops' h
    obtain ⟨same, rest⟩ :=
      append_inj_of_stop (spells_of_isWord hx) (spells_of_isWord hy) stops stops' h
    exact ⟨String.toList_inj.mp same, rest⟩
  have whole := congrArg String.toList h
  rw [toList_text, toList_text] at whole
  have whole := List.append_cancel_left (List.append_cancel_right whole)
  -- a word is cut off at the blank or the parenthesis behind it, one after the other
  obtain ⟨type, rest⟩ := word ha.type hb.type (stopsAt_cons rfl) (stopsAt_cons rfl) whole
  obtain ⟨name, rest⟩ := word ha.name hb.name (stopsAt_cons rfl) (stopsAt_cons rfl)
    (List.tail_eq_of_cons_eq rest)
  simp only [List.cons.injEq, true_and] at rest
  obtain ⟨symbol, rest⟩ := word ha.symbol hb.symbol (stopsAt_cons rfl) (stopsAt_cons rfl) rest
  have inner := String.toList_inj.mp (List.append_cancel_right (List.tail_eq_of_cons_eq rest))
  exact Statement.ext type name symbol (intercalate_inj ha.arguments hb.arguments inner)

theorem texts_inj {statements statements' : List Statement}
    (spelled : ∀ statement ∈ statements, statement.Spelled)
    (spelled' : ∀ statement ∈ statements', statement.Spelled)
    (h : statements.map text = statements'.map text) : statements = statements' := by
  induction statements generalizing statements' with
  | nil => exact (List.map_eq_nil_iff.mp h.symm).symm
  | cons statement statements ih =>
    cases statements' with
    | nil => cases h
    | cons statement' statements' =>
      obtain ⟨here, spelled⟩ := List.forall_mem_cons.mp spelled
      obtain ⟨here', onward⟩ := List.forall_mem_cons.mp spelled'
      obtain ⟨same, rest⟩ := List.cons.inj h
      rw [here.text_inj here' same, ih spelled onward rest]

end Statement

/-- A body reads as statements one after the other and an expression that is returned at last. -/
structure ReadsAs (body : String) (statements : List Statement) (result : String) : Prop where
  spelled : ∀ statement ∈ statements, statement.Spelled
  expression : IsExpression result.toList
  body_eq : body = String.join (statements.map Statement.text) ++ "    return " ++ result ++ ";\n"

namespace ReadsAs

variable {body result result' : String} {statements statements' : List Statement}

theorem eq_join (h : ReadsAs body statements result) :
    body = String.join (statements.map Statement.text ++ ["    return " ++ result ++ ";\n"]) := by
  rw [h.body_eq, String.join_append]
  simp [String.append_assoc]

theorem isLine (h : ReadsAs body statements result) :
    ∀ line ∈ statements.map Statement.text ++ ["    return " ++ result ++ ";\n"], IsLine line := by
  intro line mem
  rcases List.mem_append.mp mem with mem | mem
  · obtain ⟨statement, here, rfl⟩ := List.mem_map.mp mem
    exact (h.spelled statement here).isLine
  · rw [List.mem_singleton.mp mem]
    have free : '\n' ∉ result.toList := by
      intro mem
      cases h.expression.isListing _ mem
    exact ⟨"    return ".toList ++ result.toList ++ ";".toList, by simp, by simp [free]⟩

theorem unique (h : ReadsAs body statements result) (h' : ReadsAs body statements' result') :
    statements = statements' ∧ result = result' := by
  have same := join_inj h.isLine h'.isLine (h.eq_join.symm.trans h'.eq_join)
  -- the lines are told apart first, and then what stands in each
  obtain ⟨texts, last⟩ := List.append_inj' same rfl
  refine ⟨Statement.texts_inj h.spelled h'.spelled texts, ?_⟩
  exact (String.append_right_inj _).mp ((String.append_left_inj _).mp (List.singleton_inj.mp last))

end ReadsAs

/-- An assignment that shows in its text as it is. -/
structure Assignment.Spelled (assignment : Assignment) : Prop where
  name : IsWord assignment.name
  symbol : Glsl.IsIdentifier assignment.symbol
  arguments : ∀ argument ∈ assignment.arguments, argument.Spelled

namespace Assignment

variable {a b : Assignment}

def statement (a : Assignment) : Statement :=
  ⟨a.type.text, a.name, a.symbol, a.arguments.map Argument.text⟩

theorem text_statement (a : Assignment) : a.statement.text = a.text := a.text_eq.symm

theorem Spelled.statement (h : a.Spelled) : a.statement.Spelled where
  type := isWord_text a.type
  name := h.name
  symbol := h.symbol.isWord
  arguments := by
    intro text mem
    obtain ⟨argument, here, rfl⟩ := List.mem_map.mp mem
    exact (h.arguments argument here).isExpression

theorem Spelled.text_inj (ha : a.Spelled) (hb : b.Spelled) (h : a.text = b.text) :
    a.statement = b.statement :=
  ha.statement.text_inj hb.statement (by rw [text_statement, text_statement, h])

end Assignment

structure Program.Spelled (program : Program) : Prop where
  assignments : ∀ assignment ∈ program.assignments, assignment.Spelled
  result : program.result.Spelled

/-- The lines of a body: one for each assignment, and one for the result at last. -/
def Program.lines (program : Program) : List String :=
  program.assignments.map Assignment.text ++ ["    return " ++ program.result.text ++ ";\n"]

theorem Program.body_eq_join (program : Program) : program.body = String.join program.lines := by
  rw [program.body_eq_append, lines]
  simp

theorem Program.texts_statement (program : Program) :
    (program.assignments.map Assignment.statement).map Statement.text =
      program.assignments.map Assignment.text := by
  rw [List.map_map]
  exact List.map_congr_left fun a _ => a.text_statement

namespace Program.Spelled

variable {program p q : Program}

theorem reads (h : program.Spelled) :
    ReadsAs program.body (program.assignments.map Assignment.statement) program.result.text where
  spelled := List.forall_mem_map.mpr fun a mem => (h.assignments a mem).statement
  expression := h.result.isExpression
  body_eq := by
    rw [program.texts_statement, program.body_eq_append]
    simp only [String.append_assoc]

theorem isLine (h : program.Spelled) : ∀ line ∈ program.lines, IsLine line := by
  rw [lines, ← program.texts_statement]
  exact h.reads.isLine

/-- Programs with one body have the same lines. -/
theorem body_inj (hp : p.Spelled) (hq : q.Spelled) (h : p.body = q.body) :
    p.assignments.map Assignment.text = q.assignments.map Assignment.text ∧
      p.result.text = q.result.text := by
  obtain ⟨statements, result⟩ := hp.reads.unique (h ▸ hq.reads)
  rw [← p.texts_statement, statements, q.texts_statement]
  exact ⟨rfl, result⟩

end Program.Spelled

end DistanceField
