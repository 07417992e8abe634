import DistanceField.Proofs.Program.Readable

/-!
# Faithful compilation

The text of a program shows the whole tree it was compiled from, and nothing else: neither the
identifiers of the nodes nor the edits that led to the scene.
-/

namespace DistanceField

namespace Scene

/-- What hangs in some inputs of two scenes is the same: names, operators and literals at the same
places. Identifiers, and components of literals that do not count, may differ. -/
inductive Alike (a b : Scene) : List Slot → List Slot → Prop where
  | nil : Alike a b [] []
  | empty {slots slots'} : Alike a b slots slots' → Alike a b (.empty :: slots) (.empty :: slots')
  | literal {value value' slots slots'} (type : value.type = value'.type)
      (components : value.meaningful = value'.meaningful) :
      Alike a b slots slots' → Alike a b (.literal value :: slots) (.literal value' :: slots')
  | child {id id' node node' slots slots'} (found : a.node? id = some node)
      (found' : b.node? id' = some node') (same : node.name = node'.name)
      (operator : node.operator = node'.operator) :
      Alike a b node.inputs node'.inputs → Alike a b slots slots' →
      Alike a b (.child id :: slots) (.child id' :: slots')

/-- Two scenes are the same tree below their roots. -/
def SameTree (a b : Scene) : Prop :=
  ∃ root root', a.node? a.root = some root ∧ b.node? b.root = some root' ∧
    Alike a b root.inputs root'.inputs

end Scene

namespace Branches

variable {registry : Registry} {branches : Branches} {name : String} {place : Nat} {id : NodeId}

/-- A text of an assignment to another variable is none of a tree. -/
theorem text_notMem {assignment : Assignment} (spelled : assignment.Spelled)
    (all : ∀ other ∈ branches.code name, other.Spelled)
    (free : assignment.name ∉ declared name branches) :
    assignment.text ∉ (branches.code name).map Assignment.text := by
  intro mem
  obtain ⟨other, here, eq⟩ := List.mem_map.mp mem
  have same : other.name = assignment.name :=
    congrArg Statement.name ((all other here).text_inj spelled eq)
  exact free (same ▸ List.mem_map_of_mem here)

end Branches

namespace Scene

variable {a b scene : Scene} {registry : Registry} {slots slots' : List Slot}
  {branches branches' : Branches} {name : String} {node : Node} {id : NodeId} {place : Nat}
  {p q : Program}

theorem Unfolds.alike (reached : registry.Reached) (h : a.Unfolds slots branches)
    (h' : b.Unfolds slots' branches') (labelled : branches.Labelled)
    (labelled' : branches'.Labelled) (readable : branches.Readable registry)
    (readable' : branches'.Readable registry) (word : IsWord name)
    (arguments : (branches.arguments name).map Argument.text =
      (branches'.arguments name).map Argument.text)
    (code : (branches.code name).map Assignment.text = (branches'.code name).map Assignment.text) :
    Alike a b slots slots' := by
  induction h generalizing slots' branches' name with
  | nil =>
    cases h' with
    | nil => exact .nil
    | empty => exact readable'.elim
    | literal => cases arguments
    | child => cases arguments
  | empty => exact readable.elim
  | @literal value slots rest _ ih =>
    cases h' with
    | nil => cases arguments
    | empty => exact readable'.elim
    | literal h' =>
      obtain ⟨⟨finite, notRoot⟩, readable⟩ := readable
      obtain ⟨⟨finite', notRoot'⟩, readable'⟩ := readable'
      obtain ⟨here, arguments⟩ := List.cons.inj arguments
      obtain ⟨type, components⟩ := Literal.expression_inj finite finite' notRoot notRoot' here
      exact .literal type components
        (ih h' labelled labelled' readable readable' word arguments code)
    | child =>
      have word' := Branches.isWord_variableBelow word labelled'.1
      have here : value.expression = Branches.variableBelow name _ := (List.cons.inj arguments).1
      exact absurd (here ▸ word') value.not_isWord_expression
  | @child node slots below rest found _ _ ihBelow ihRest =>
    cases h' with
    | nil => cases arguments
    | empty => exact readable'.elim
    | @literal value =>
      have word' := Branches.isWord_variableBelow word labelled.1
      have here : Branches.variableBelow name _ = value.expression := (List.cons.inj arguments).1
      exact absurd (here ▸ word') value.not_isWord_expression
    | @child node' slots' below' rest' found' h' onward =>
      obtain ⟨here, arguments⟩ := List.cons.inj arguments
      have same : node.name = node'.name := (String.append_right_inj (name ++ "_")).mp here
      have shared : Branches.variableBelow name node' = Branches.variableBelow name node := here.symm
      have word' := Branches.isWord_variableBelow word labelled.1
      have accepted : ∀ operator ∈ registry.operators, operator.Accepted :=
        fun _ => reached.accepted
      have spelled := (readable.spelled accepted labelled word).2
      have spelled' := (readable'.spelled accepted labelled' word).2
      rw [Branches.code] at code spelled spelled'
      rw [Branches.code, List.map_append, List.map_append, List.map_cons, List.map_cons] at code
      rw [shared] at code spelled'
      obtain ⟨inner, middle⟩ := List.forall_mem_append.mp spelled
      obtain ⟨own, outer⟩ := List.forall_mem_cons.mp middle
      obtain ⟨inner', middle'⟩ := List.forall_mem_append.mp spelled'
      obtain ⟨own', outer'⟩ := List.forall_mem_cons.mp middle'
      -- no other assignment is made to the variable of the child, so the texts are cut there
      rw [List.append_cons_inj_of_notMem
        (Branches.text_notMem own' inner Branches.variableBelow_notMem_below)
        (Branches.text_notMem own' outer (labelled.notMem_rest (.refl _)))] at code
      obtain ⟨codeBelow, own_eq, codeRest⟩ := code
      have shown := own.text_inj own' own_eq
      have symbol : node.operator.symbol = node'.operator.symbol := congrArg Statement.symbol shown
      have passed := congrArg Statement.arguments shown
      obtain ⟨registered, readableBelow, readableRest⟩ := readable
      obtain ⟨registered', readableBelow', readableRest'⟩ := readable'
      obtain ⟨-, -, labelledBelow, labelledRest⟩ := labelled
      obtain ⟨-, -, labelledBelow', labelledRest'⟩ := labelled'
      exact .child found found' same (reached.eq_of_symbol registered registered' symbol)
        (ihBelow h' labelledBelow labelledBelow' readableBelow readableBelow' word' passed codeBelow)
        (ihRest onward labelledRest labelledRest' readableRest readableRest' word arguments codeRest)

theorem Alike.texts (alike : Alike a b slots slots') (h : a.Unfolds slots branches)
    (h' : b.Unfolds slots' branches') (name : String) :
    (branches.arguments name).map Argument.text = (branches'.arguments name).map Argument.text ∧
      (branches.code name).map Assignment.text = (branches'.code name).map Assignment.text := by
  induction alike generalizing branches branches' name with
  | nil =>
    cases h
    cases h'
    exact ⟨rfl, rfl⟩
  | empty _ ih =>
    cases h with
    | empty rest =>
      cases h' with
      | empty rest' =>
        have texts := ih rest rest' name
        exact texts
  | literal type components _ ih =>
    cases h with
    | literal rest =>
      cases h' with
      | literal rest' =>
        obtain ⟨arguments, code⟩ := ih rest rest' name
        refine ⟨?_, code⟩
        simp only [Branches.arguments, List.map_cons, arguments, Argument.text,
          Literal.expression_congr type components]
  | @child _ _ node node' _ _ found found' same operator _ _ ihBelow ihRest =>
    cases h with
    | child there below rest =>
      cases h' with
      | child there' below' rest' =>
        obtain rfl := Option.some.inj (found.symm.trans there)
        obtain rfl := Option.some.inj (found'.symm.trans there')
        obtain ⟨passed, inner⟩ := ihBelow below below' (name ++ "_" ++ node'.name)
        obtain ⟨arguments, code⟩ := ihRest rest rest' name
        constructor
        · simp only [Branches.arguments, Branches.variableBelow, List.map_cons, Argument.text, same,
            arguments]
        · simp only [Branches.code, Branches.variableBelow, List.map_append, List.map_cons,
            Assignment.text_eq, same, operator, passed, inner, code]

/-- Two scenes with operators from one registry have the same body exactly if they are the same tree
below their roots. -/
theorem body_eq_iff_sameTree (reached : registry.Reached) (ha : Reachable a) (hb : Reachable b)
    (built : BuiltFrom registry a) (built' : BuiltFrom registry b) (compiled : a.compile = .ok p)
    (compiled' : b.compile = .ok q) : p.body = q.body ↔ SameTree a b := by
  obtain ⟨root, branches, compiles⟩ := ha.forest.exists_compiles compiled
  obtain ⟨root', branches', compiles'⟩ := hb.forest.exists_compiles compiled'
  constructor
  · intro same
    obtain ⟨code, result⟩ := (compiles.spelled ha.forest built reached).body_inj
      (compiles'.spelled hb.forest built' reached) same
    rw [compiles.assignments, compiles'.assignments] at code
    refine ⟨root, root', compiles.found, compiles'.found, ?_⟩
    apply compiles.unfolds.alike reached compiles'.unfolds (compiles.labelled ha.forest)
      (compiles'.labelled hb.forest) (compiles.readable ha.forest built)
      (compiles'.readable hb.forest built') isWord_node
    · rw [compiles.result, compiles'.result, List.map_singleton, List.map_singleton, result]
    · exact code
  · rintro ⟨top, top', found, found', alike⟩
    obtain rfl := Option.some.inj (compiles.found.symm.trans found)
    obtain rfl := Option.some.inj (compiles'.found.symm.trans found')
    obtain ⟨arguments, code⟩ := alike.texts compiles.unfolds compiles'.unfolds "node"
    rw [compiles.result, compiles'.result] at arguments
    rw [Program.body_eq_append, Program.body_eq_append, compiles.assignments, compiles'.assignments,
      code, List.singleton_inj.mp arguments]

def rebuilt : Scene :=
  Command.after (.attach "p" (Builtin.samplePoint.named "sample_point") ⟨7, 1⟩ 0)
    (Command.after (.delete ⟨7, 2⟩) ball)

theorem reachable_rebuilt : Reachable rebuilt := by
  have delete : Command.Allowed (.delete ⟨7, 2⟩) := trivial
  have point : Command.Allowed (.attach "p" (Builtin.samplePoint.named "sample_point") ⟨7, 1⟩ 0) :=
    .inl Operator.accepted_samplePoint
  exact (reachable_ball.step delete).step point

theorem sameTree_ball : SameTree ball rebuilt ∧ ball.nodes.size ≠ rebuilt.nodes.size := by
  have registered : ∀ node ∈ rebuilt.liveNodes,
      node.isRoot ∨ node.operator ∈ ballRegistry.operators := by
    decide +kernel
  have built : BuiltFrom ballRegistry rebuilt :=
    builtFrom_of_liveNodes reachable_rebuilt.forest registered
  have compiled : rebuilt.compile = .ok ballProgram := by decide +kernel
  have same := (body_eq_iff_sameTree reached_ballRegistry reachable_ball reachable_rebuilt
    builtFrom_ball built compile_ball compiled).mp rfl
  exact ⟨same, by decide +kernel⟩

end Scene

end DistanceField
