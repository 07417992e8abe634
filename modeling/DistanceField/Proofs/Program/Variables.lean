import DistanceField.Proofs.Program.Recursion
import DistanceField.Proofs.Text.Cuts

/-!
# Names of variables

The variable of a node is that of its parent, an underscore and the name of the node. Names hold no
underscore and children of one node bear different names, so no two nodes share a variable; and the
expression of a literal is never a word.
-/

namespace DistanceField

def IsWord (text : String) : Prop :=
  text.toList ≠ [] ∧ ∀ c ∈ text.toList, c.isAlphanum ∨ c = '_'

theorem isWord_node : IsWord "node" := by simp [IsWord]

theorem Scene.validName_iff {name : String} : Scene.validName name ↔
    name.toList ≠ [] ∧ ∀ c ∈ name.toList, c.isAlphanum := by
  simp [Scene.validName]

theorem Scene.notMem_of_validName {name : String} (valid : Scene.validName name) :
    '_' ∉ name.toList := by
  intro mem
  have alnum := (Scene.validName_iff.mp valid).2 '_' mem
  simp at alnum

theorem dot_mem_floatText (x : Numeral.Binary32) : '.' ∈ (floatText x).toList := by
  unfold floatText
  by_cases h : '.' ∈ x.text.toList <;> simp [h]

/-- The expression of a literal has a point or a parenthesis in it. -/
theorem Literal.not_isWord_expression (literal : Literal) : ¬ IsWord literal.expression := by
  rintro ⟨nonempty, word⟩
  have no : ∀ c, c ∈ literal.expression.toList → c = '.' ∨ c = '(' → False := by
    intro c mem eq
    have := word c mem
    rcases eq with rfl | rfl <;> simp at this
  cases type : literal.type with
  | scalar => exact no '.' (by simpa [Literal.expression, type] using dot_mem_floatText _) (.inl rfl)
  | root => simp [Literal.expression, type] at nonempty
  | vec2 => exact no '(' (by simp [Literal.expression, type]) (.inr rfl)
  | vec3 => exact no '(' (by simp [Literal.expression, type]) (.inr rfl)
  | vec4 => exact no '(' (by simp [Literal.expression, type]) (.inr rfl)

namespace Branches

variable {name text : String} {node other : Node} {branches rest : Branches}

theorem toList_variableBelow : (variableBelow name node).toList =
    name.toList ++ '_' :: node.name.toList := by simp [variableBelow]

/-- The variable of a child is the joined path with one name more. -/
theorem variableBelow_intercalate (names : List String) (node : Node) :
    "_".intercalate ("node" :: (names ++ [node.name])) =
      variableBelow ("_".intercalate ("node" :: names)) node := by
  rw [← List.cons_append, String.intercalate_append_of_ne_nil (by simp) (by simp)]
  simp [variableBelow]

theorem isWord_variableBelow (word : IsWord name) (valid : Scene.validName node.name) :
    IsWord (variableBelow name node) := by
  refine ⟨by simp [toList_variableBelow], ?_⟩
  intro c mem
  rw [toList_variableBelow, List.mem_append, List.mem_cons] at mem
  rcases mem with mem | rfl | mem
  · exact word.2 c mem
  · exact .inr rfl
  · exact .inl ((Scene.validName_iff.mp valid).2 c mem)

/-- A text is a variable or belongs to something below it. -/
def Extends (name text : String) : Prop :=
  ∃ tail, text.toList = name.toList ++ tail ∧ ∀ c, tail.head? = some c → c = '_'

theorem Extends.refl (name : String) : Extends name name := ⟨[], by simp, by simp⟩

/-- What belongs to a child is longer than the variable of the node. -/
theorem Extends.length_lt (h : Extends (variableBelow name node) text) :
    name.toList.length < text.toList.length := by
  obtain ⟨tail, eq, -⟩ := h
  rw [eq, toList_variableBelow]
  simp

theorem Extends.of_variableBelow (h : Extends (variableBelow name node) text) :
    Extends name text := by
  obtain ⟨tail, eq, -⟩ := h
  exact ⟨'_' :: node.name.toList ++ tail, by simp [eq, toList_variableBelow], by simp⟩

/-- Nothing belongs to two children of different names. -/
theorem Extends.name_eq (valid : Scene.validName node.name) (valid' : Scene.validName other.name)
    (h : Extends (variableBelow name node) text) (h' : Extends (variableBelow name other) text) :
    node.name = other.name := by
  have stop : ∀ {tail : List Char}, (∀ c, tail.head? = some c → c = '_') →
      Text.StopsAt (fun c => decide (c ≠ '_')) tail := by
    intro tail stops c eq
    simpa using stops c eq
  obtain ⟨tail, eq, stops⟩ := h
  obtain ⟨tail', eq', stops'⟩ := h'
  have same : node.name.toList ++ tail = other.name.toList ++ tail' := by
    simpa [toList_variableBelow, eq] using eq'
  -- a name is what stands before the next underscore
  exact String.toList_inj.mp (Text.append_inj_of_stop
    (Text.ne_of_free (Scene.notMem_of_validName valid))
    (Text.ne_of_free (Scene.notMem_of_validName valid')) (stop stops) (stop stops') same).1

def tops : Branches → List Node
  | nil => []
  | empty rest => rest.tops
  | literal _ rest => rest.tops
  | child node _ rest => node :: rest.tops

/-- Names are valid, and no two children of one node bear the same. -/
def Labelled : Branches → Prop
  | nil => True
  | empty rest => rest.Labelled
  | literal _ rest => rest.Labelled
  | child node below rest => Scene.validName node.name ∧
      (∀ other ∈ rest.tops, other.name ≠ node.name) ∧ below.Labelled ∧ rest.Labelled

def declared (name : String) (branches : Branches) : List String :=
  (branches.code name).map Assignment.name

@[simp] theorem declared_nil : declared name nil = [] := rfl

@[simp] theorem declared_literal {value : Literal} :
    declared name (literal value rest) = declared name rest := rfl

@[simp] theorem declared_child {below : Branches} : declared name (child node below rest) =
    declared (variableBelow name node) below ++
      variableBelow name node :: declared name rest := by simp [declared, code]

theorem exists_extends_of_mem (mem : text ∈ declared name branches) :
    ∃ top ∈ branches.tops, Extends (variableBelow name top) text := by
  induction branches generalizing name with
  | nil => simp at mem
  | empty rest ih => exact ih mem
  | literal value rest ih => exact ih mem
  | child node below rest ihBelow ihRest =>
    rw [declared_child, List.mem_append, List.mem_cons] at mem
    rcases mem with mem | rfl | mem
    · obtain ⟨top, -, extended⟩ := ihBelow mem
      exact ⟨node, List.mem_cons_self, extended.of_variableBelow⟩
    · exact ⟨node, List.mem_cons_self, .refl _⟩
    · obtain ⟨top, mem, extended⟩ := ihRest mem
      exact ⟨top, List.mem_cons_of_mem _ mem, extended⟩

theorem Labelled.validName_of_mem (h : branches.Labelled) (mem : node ∈ branches.tops) :
    Scene.validName node.name := by
  induction branches with
  | nil => simp [tops] at mem
  | empty rest ih => exact ih h mem
  | literal value rest ih => exact ih h mem
  | child top below rest _ ih =>
    rcases List.mem_cons.mp mem with rfl | mem
    · exact h.1
    · exact ih h.2.2.2 mem

theorem Labelled.isWord_of_mem (h : branches.Labelled) (word : IsWord name)
    (mem : text ∈ declared name branches) : IsWord text := by
  induction branches generalizing name with
  | nil => simp at mem
  | empty rest ih => exact ih h word mem
  | literal value rest ih => exact ih h word mem
  | child node below rest ihBelow ihRest =>
    obtain ⟨valid, -, labelledBelow, labelledRest⟩ := h
    have word' := isWord_variableBelow word valid
    rw [declared_child, List.mem_append, List.mem_cons] at mem
    rcases mem with mem | rfl | mem
    · exact ihBelow labelledBelow word' mem
    · exact word'
    · exact ihRest labelledRest word mem

theorem variableBelow_notMem_below {below : Branches} :
    variableBelow name node ∉ declared (variableBelow name node) below := by
  intro mem
  obtain ⟨top, -, extended⟩ := exists_extends_of_mem mem
  exact extended.length_lt.false

/-- What belongs to a child is none of the variables in the inputs after it. -/
theorem Labelled.notMem_rest {below : Branches} (h : (child node below rest).Labelled)
    (extended : Extends (variableBelow name node) text) : text ∉ declared name rest := by
  intro mem
  obtain ⟨valid, apart, -, labelled⟩ := h
  obtain ⟨top, mem, extended'⟩ := exists_extends_of_mem mem
  exact apart top mem (extended'.name_eq (labelled.validName_of_mem mem) valid extended)

theorem Labelled.nodup_declared (h : branches.Labelled) : (declared name branches).Nodup := by
  induction branches generalizing name with
  | nil => simp
  | empty rest ih => exact ih h
  | literal value rest ih => exact ih h
  | child node below rest ihBelow ihRest =>
    obtain ⟨-, -, labelledBelow, labelledRest⟩ := id h
    rw [declared_child, List.nodup_append, List.nodup_cons]
    refine ⟨ihBelow labelledBelow, ⟨h.notMem_rest (.refl _), ihRest labelledRest⟩, ?_⟩
    intro text mem text' mem' eq
    subst eq
    rcases List.mem_cons.mp mem' with rfl | mem'
    · exact variableBelow_notMem_below mem
    · obtain ⟨top, -, extended⟩ := exists_extends_of_mem mem
      exact h.notMem_rest extended.of_variableBelow mem'

end Branches

namespace Scene

variable {scene : Scene} {loose : List NodeId} {id : NodeId} {place : Nat} {node : Node}
  {slots : List Slot} {branches : Branches}

theorem Unfolds.mem_of_mem_tops (h : scene.Unfolds slots branches) (mem : node ∈ branches.tops) :
    Slot.child node.id ∈ slots ∧ scene.node? node.id = some node := by
  induction h with
  | nil => simp [Branches.tops] at mem
  | empty _ ih => exact (ih mem).imp_left (List.mem_cons_of_mem _)
  | literal _ ih => exact (ih mem).imp_left (List.mem_cons_of_mem _)
  | child found _ _ _ ih =>
    rcases List.mem_cons.mp mem with rfl | mem
    · exact ⟨List.mem_cons_self, found⟩
    · exact (ih mem).imp_left (List.mem_cons_of_mem _)

theorem Forest.labelled (h : scene.Forest loose) (unfolds : scene.Unfolds slots branches)
    (found : scene.node? id = some node) (left : node.inputs.drop place = slots) :
    branches.Labelled := by
  induction unfolds generalizing id node place with
  | nil => trivial
  | empty _ ih => exact ih found (next_of_drop left).2
  | literal _ ih => exact ih found (next_of_drop left).2
  | @child top slots below rest there _ unfolds ihBelow ihRest =>
    obtain ⟨here, left⟩ := next_of_drop left
    have held : scene.Holds id place top.id := ⟨node, found, here⟩
    have notRoot : top.id ≠ scene.root :=
      fun eq => h.not_parentOf_top (.inl rfl) (eq ▸ held.parentOf)
    refine ⟨(h.fits there).validName notRoot, ?_, ihBelow there List.drop_zero, ihRest found left⟩
    intro other mem same
    obtain ⟨mem, found'⟩ := unfolds.mem_of_mem_tops mem
    obtain ⟨later, entry⟩ := List.mem_iff_getElem?.mp mem
    rw [← left, List.getElem?_drop] at entry
    have eq := h.siblings held ⟨node, found, entry⟩ (by simp [name?, there, found', same])
    omega

end Scene

/-- Every variable of a tree is the local name of its node. -/
def Branches.Named (scene : Scene) (name : String) : Branches → Prop
  | nil => True
  | empty rest => rest.Named scene name
  | literal _ rest => rest.Named scene name
  | child node below rest => scene.localName node.id = .ok (variableBelow name node) ∧
      below.Named scene (variableBelow name node) ∧ rest.Named scene name

namespace Scene
open Turn (Leads)

variable {scene : Scene} {loose : List NodeId} {id : NodeId} {place depth : Nat} {node root : Node}
  {slots : List Slot} {branches : Branches} {names : List String}

theorem localName_eq (found : scene.node? id = some node) (up : root.parent = none)
    (path : Leads scene.pathStep depth (node, []) (root, names)) (bound : depth ≤ scene.nodes.size) :
    scene.localName id = .ok ("_".intercalate ("node" :: names)) := by
  have done : scene.pathStep (root, names) = .done (.ok names) := by simp [pathStep, up]
  have run := path.run_eq done (Nat.lt_succ_of_le bound)
  simp [localName, Scene.path, node_eq_ok_iff.mpr found, bind, Except.bind, run, Except.map]

/-- On the way down from the root the local names are those that the compiler builds. -/
theorem Forest.named (h : scene.Forest loose) (foundRoot : scene.node? scene.root = some root)
    (unfolds : scene.Unfolds slots branches) (found : scene.node? id = some node)
    (left : node.inputs.drop place = slots)
    (path : ∀ gathered, Leads scene.pathStep depth (node, gathered) (root, names ++ gathered))
    (bound : depth + branches.ids.length ≤ scene.nodes.size) :
    branches.Named scene ("_".intercalate ("node" :: names)) := by
  induction unfolds generalizing id node place depth names with
  | nil => trivial
  | empty _ ih => exact ih found (next_of_drop left).2 path bound
  | literal _ ih => exact ih found (next_of_drop left).2 path bound
  | @child top slots below rest there _ _ ihBelow ihRest =>
    obtain ⟨here, left⟩ := next_of_drop left
    simp only [Branches.ids_child, List.length_cons, List.length_append] at bound
    obtain ⟨-, above, top', foundAbove, foundTop, up, -⟩ := h.held ⟨node, found, here⟩
    obtain rfl := Option.some.inj (there.symm.trans foundTop)
    have longer : ∀ gathered, Leads scene.pathStep (depth + 1) (top, gathered)
        (root, (names ++ [top.name]) ++ gathered) := by
      intro gathered
      have turn : scene.pathStep (top, gathered) = .next (node, top.name :: gathered) := by
        simp [pathStep, up, node_eq_ok_iff.mpr found]
      simpa using Leads.head turn (path (top.name :: gathered))
    have grown := Branches.variableBelow_intercalate names top
    refine ⟨?_, ?_, ihRest found left path (by omega)⟩
    · rw [← grown]
      exact localName_eq there ((h.fits foundRoot).parent_iff.mpr rfl)
        (by simpa using longer []) (by omega)
    · rw [← grown]
      exact ihBelow there List.drop_zero longer (by omega)

theorem Forest.named_root (h : scene.Forest loose) (found : scene.node? scene.root = some root)
    (unfolds : scene.Unfolds root.inputs branches) :
    scene.localName scene.root = .ok "node" ∧ branches.Named scene "node" := by
  have tree := h.unfolds_self found unfolds
  have bound := (tree.length_le_live (h.nodup_ids_slot tree)).trans scene.length_liveNodes_le_size
  simp only [Branches.ids_child, Branches.ids_nil, List.append_nil, List.length_cons] at bound
  have path : ∀ gathered, Leads scene.pathStep 0 (root, gathered) (root, [] ++ gathered) :=
    fun gathered => .refl _
  have up : root.parent = none := (h.fits found).parent_iff.mpr rfl
  constructor
  · simpa using localName_eq found up (path []) (Nat.zero_le _)
  · simpa using h.named found unfolds found List.drop_zero path (by omega)

theorem Compiles.labelled {program : Program} (compiles : scene.Compiles root branches program)
    (h : scene.Forest loose) : branches.Labelled :=
  h.labelled compiles.unfolds compiles.found List.drop_zero

theorem Compiles.named {program : Program} (compiles : scene.Compiles root branches program)
    (h : scene.Forest loose) : branches.Named scene "node" :=
  (h.named_root compiles.found compiles.unfolds).2

end Scene

end DistanceField
