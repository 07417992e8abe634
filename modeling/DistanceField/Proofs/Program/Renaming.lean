import DistanceField.Proofs.Program.Wiring
import DistanceField.Proofs.Scene.Lifetimes
import DistanceField.Proofs.Scene.Paths

/-!
# Programs with other variables

To rename a node changes the program of a scene in nothing but its variables: each variable of the
renamed node, and of what hangs below it, is replaced where it is assigned and where it is used. All
other variables stay.
-/

namespace DistanceField

def Argument.mapNames (f : String → String) : Argument → Argument
  | var name => .var (f name)
  | literal value => .literal value

def Assignment.mapNames (f : String → String) (assignment : Assignment) : Assignment :=
  { assignment with
    name := f assignment.name
    arguments := assignment.arguments.map (Argument.mapNames f) }

def Program.mapNames (f : String → String) (program : Program) : Program where
  assignments := program.assignments.map (Assignment.mapNames f)
  result := program.result.mapNames f

def Statement.mapNames (f : String → String) (statement : Statement) : Statement :=
  { statement with
    name := f statement.name
    arguments := statement.arguments.map f }

section Literals

variable {f : String → String} (literals : ∀ value : Literal, f value.expression = value.expression)

include literals

theorem Argument.text_mapNames (argument : Argument) :
    (argument.mapNames f).text = f argument.text := by
  cases argument with
  | var name => rfl
  | literal value => exact (literals value).symm

theorem Assignment.statement_mapNames (assignment : Assignment) :
    (assignment.mapNames f).statement = assignment.statement.mapNames f := by
  have arguments : Argument.text ∘ Argument.mapNames f = f ∘ Argument.text :=
    funext (Argument.text_mapNames literals)
  simp [statement, mapNames, Statement.mapNames, arguments]

end Literals

section Kept

variable {f : String → String} (kept : ∀ name, f name = name)

include kept

theorem Argument.mapNames_of_kept (argument : Argument) : argument.mapNames f = argument := by
  cases argument with
  | var name => exact congrArg var (kept name)
  | literal value => rfl

theorem Assignment.mapNames_of_kept (assignment : Assignment) :
    assignment.mapNames f = assignment := by
  have arguments : Argument.mapNames f = id := funext (Argument.mapNames_of_kept kept)
  simp [mapNames, kept, arguments]

/-- A program whose variables stay is the same. -/
theorem Program.mapNames_of_kept (program : Program) : program.mapNames f = program := by
  have assignments : Assignment.mapNames f = id := funext (Assignment.mapNames_of_kept kept)
  simp [mapNames, assignments, Argument.mapNames_of_kept kept]

end Kept

namespace Branches

variable {id : NodeId} {name name' : String} {branches : Branches} {f : String → String}

def mapNodes (g : Node → Node) : Branches → Branches
  | nil => nil
  | empty rest => empty (rest.mapNodes g)
  | literal value rest => literal value (rest.mapNodes g)
  | child node below rest => child (g node) (below.mapNodes g) (rest.mapNodes g)

theorem missing_mapNodes {g : Node → Node} (same : ∀ node, (g node).id = node.id) (id : NodeId)
    (slot : Nat) : (branches.mapNodes g).missing id slot = branches.missing id slot := by
  induction branches generalizing id slot with
  | nil => rfl
  | empty rest ih => rfl
  | literal value rest ih => exact ih id (slot + 1)
  | child node below rest ihBelow ihRest =>
    simp only [mapNodes, missing, same, ihBelow, ihRest]

end Branches

namespace Scene

variable {scene after : Scene} {id low : NodeId} {name text : String} {names : List String}
  {node root : Node} {slots : List Slot} {branches : Branches}

/-- The local name, in the scene afterwards, of the node that had the local name before. A text that
was no local name stays. -/
def newName (scene after : Scene) (text : String) : String :=
  match scene.ids.find? fun low => scene.localName low = .ok text with
  | some low =>
    match after.localName low with
    | .ok name => name
    | .error _ => text
  | none => text

structure Renamed (scene after : Scene) (id : NodeId) (name : String) : Prop where
  /-- The local name of a node is turned into its new local name, and nothing else is changed. -/
  newName : ∀ {low text}, scene.localName low = .ok text →
    after.localName low = .ok (scene.newName after text)
  others : ∀ {text}, (∀ low, scene.localName low ≠ .ok text) → scene.newName after text = text
  /-- The program is the same but for the variables; an error is the same. -/
  compile : after.compile = scene.compile.map (Program.mapNames (scene.newName after))
  apart : ∀ {low}, ¬ scene.Reaches id low → after.localName low = scene.localName low
  /-- In the local names of the node and of what hangs below it, its new name stands in the place of
  the old one. -/
  below : ∀ {low}, id ≠ scene.root → scene.Reaches id low → ∃ names old more,
    scene.localName id = .ok ("_".intercalate ("node" :: (names ++ [old]))) ∧
      scene.localName low = .ok ("_".intercalate ("node" :: (names ++ old :: more))) ∧
        after.localName low = .ok ("_".intercalate ("node" :: (names ++ name :: more)))
  /-- Line by line the body is the same but for the variables. -/
  body : ∀ {program renamed}, scene.compile = .ok program → after.compile = .ok renamed →
    ∃ statements result, ReadsAs program.body statements result ∧
      ReadsAs renamed.body (statements.map (Statement.mapNames (scene.newName after)))
        (scene.newName after result)
  literals : ∀ value : Literal, scene.newName after value.expression = value.expression
  distinct : ∀ {low other text}, after.localName low = .ok text → after.localName other = .ok text →
    low = other
  root : id = scene.root → after.compile = scene.compile

def withName (id : NodeId) (name : String) (node : Node) : Node :=
  if node.id = id then { node with name } else node

theorem withName_of_ne (ne : node.id ≠ id) : withName id name node = node := if_neg ne

theorem withName_eq (id : NodeId) (name : String) (node : Node) :
    withName id name node = { node with name := (withName id name node).name } := by
  unfold withName
  split <;> rfl

@[simp] theorem id_withName : (withName id name node).id = node.id := by rw [withName_eq]

@[simp] theorem inputs_withName : (withName id name node).inputs = node.inputs := by
  rw [withName_eq]

@[simp] theorem operator_withName : (withName id name node).operator = node.operator := by
  rw [withName_eq]

/-- A scene after a node was renamed, node by node. -/
structure Relabels (scene after : Scene) (id : NodeId) (name : String) : Prop where
  before : scene.Forest []
  forest : after.Forest []
  live : scene.Live id
  root : after.root = scene.root
  node? : ∀ low, after.node? low = (scene.node? low).map (withName id name)

theorem Forest.relabels (h : scene.Forest [])
    (run : (Edit.rename id name).run scene = .ok () after) : scene.Relabels after id name := by
  rcases (rename_cases : Refused scene (Edit.rename id name) ∨ _) with
    ⟨error, -, failed⟩ | ⟨valid, node, found, unused⟩
  · rw [failed] at run
    cases run
  rw [run_rename valid found unused] at run
  cases run
  refine ⟨h, h.rename valid found unused, ⟨node, found⟩, root_update, fun low => ?_⟩
  rw [node?_update]
  by_cases same : low = id
  · subst same
    simp [found, withName, (h.fits found).id_eq]
  · rw [if_neg same]
    cases there : scene.node? low with
    | none => rfl
    | some other =>
      have ne : other.id ≠ id := fun eq => same ((h.fits there).id_eq.symm.trans eq)
      rw [Option.map_some, withName_of_ne ne]

namespace Relabels

theorem holds_iff (relabels : scene.Relabels after id name) {parent child : NodeId} {slot : Nat} :
    after.Holds parent slot child ↔ scene.Holds parent slot child := by
  simp only [Holds, relabels.node?, Option.map_eq_some_iff]
  constructor
  · rintro ⟨_, ⟨node, found, rfl⟩, entry⟩
    exact ⟨node, found, by simpa using entry⟩
  · rintro ⟨node, found, entry⟩
    exact ⟨_, ⟨node, found, rfl⟩, by simpa using entry⟩

theorem unfolds (relabels : scene.Relabels after id name) (h : scene.Unfolds slots branches) :
    after.Unfolds slots (branches.mapNodes (withName id name)) := by
  induction h with
  | nil => exact .nil
  | empty _ ih => exact .empty ih
  | literal _ ih => exact .literal ih
  | @child node slots below rest found _ _ ihBelow ihRest =>
    have there : after.node? (withName id name node).id = some (withName id name node) := by
      rw [relabels.node?, id_withName, found, Option.map_some]
    have turned := Unfolds.child there (by simpa using ihBelow) ihRest
    simpa [Branches.mapNodes] using turned

/-- The way to a node has the same names if the renamed node is not on it, or is the root. -/
theorem namesTo (relabels : scene.Relabels after id name) (way : scene.NamesTo low names)
    (apart : id = scene.root ∨ ¬ scene.Reaches id low) : after.NamesTo low names := by
  induction way with
  | root => exact relabels.root ▸ .root
  | @child parent child slot node names _ held found ih =>
    have ne : child ≠ id := by
      rintro rfl
      rcases apart with rfl | apart
      · exact relabels.before.not_parentOf_top (.inl rfl) held.parentOf
      · exact apart .refl
    have there : after.node? child = some node := by
      have same : node.id ≠ id := (relabels.before.fits found).id_eq ▸ ne
      rw [relabels.node?, found, Option.map_some, withName_of_ne same]
    have above := ih (apart.imp_right fun apart path => apart (path.tail held.parentOf))
    exact .child above (relabels.holds_iff.mpr held) there

/-- On the way to what hangs below the renamed node its new name stands in the place of the old
one. -/
theorem namesTo_below (relabels : scene.Relabels after id name) {old : String}
    (way : scene.NamesTo id (names ++ [old])) (path : scene.Reaches id low) : ∃ more,
      scene.NamesTo low (names ++ old :: more) ∧ after.NamesTo low (names ++ name :: more) := by
  induction path with
  | refl =>
    refine ⟨[], way, ?_⟩
    generalize eq : names ++ [old] = all at way
    cases way with
    | root => simp at eq
    | @child parent _ slot node names' above held found =>
      obtain ⟨rfl, -⟩ := List.append_inj' eq rfl
      have there : after.node? id = some { node with name } := by
        rw [relabels.node?, found, Option.map_some, withName,
          if_pos (relabels.before.fits found).id_eq]
      have apart : ¬ scene.Reaches id parent := relabels.before.not_reaches_parent held.parentOf
      exact .child (relabels.namesTo above (.inr apart)) (relabels.holds_iff.mpr held) there
  | @tail low child path edge ih =>
    obtain ⟨more, was, is⟩ := ih
    obtain ⟨slot, held⟩ := edge
    obtain ⟨node, found⟩ := relabels.before.live_of_holds held
    have ne : child ≠ id := by
      rintro rfl
      exact relabels.before.not_reaches_parent held.parentOf path
    have there : after.node? child = some node := by
      have same : node.id ≠ id := (relabels.before.fits found).id_eq ▸ ne
      rw [relabels.node?, found, Option.map_some, withName_of_ne same]
    refine ⟨more ++ [node.name], ?_, ?_⟩
    · simpa using NamesTo.child was held found
    · simpa using NamesTo.child is (relabels.holds_iff.mpr held) there

theorem live_iff (relabels : scene.Relabels after id name) : after.Live low ↔ scene.Live low := by
  simp [Live, relabels.node?]

end Relabels

theorem Forest.live_of_namesTo (h : scene.Forest []) (way : scene.NamesTo low names) :
    scene.Live low := by
  cases way with
  | root => exact h.root_live
  | child _ _ found => exact ⟨_, found⟩

theorem Forest.localName_of_namesTo (h : scene.Forest []) (way : scene.NamesTo low names) :
    scene.localName low = .ok ("_".intercalate ("node" :: names)) := by
  obtain ⟨names', way', named⟩ := h.exists_namesTo (h.live_of_namesTo way)
  rw [named, h.unique_namesTo way' way]

theorem localName_of_not_live (dead : ¬ scene.Live low) :
    scene.localName low = .error (.notFound low) := by
  have missing : scene.node? low = none := not_live_iff.mp dead
  simp [localName, Scene.path, Scene.node, missing, bind, Except.bind, Except.map]

theorem Relabels.localName_eq (relabels : scene.Relabels after id name)
    (apart : id = scene.root ∨ ¬ scene.Reaches id low) :
    after.localName low = scene.localName low := by
  by_cases live : scene.Live low
  · obtain ⟨names, way, named⟩ := relabels.before.exists_namesTo live
    rw [named, relabels.forest.localName_of_namesTo (relabels.namesTo way apart)]
  · rw [localName_of_not_live live, localName_of_not_live (mt relabels.live_iff.mp live)]

theorem Relabels.localName_below (relabels : scene.Relabels after id name) (ne : id ≠ scene.root)
    (path : scene.Reaches id low) : ∃ names old more,
      scene.localName id = .ok ("_".intercalate ("node" :: (names ++ [old]))) ∧
        scene.localName low = .ok ("_".intercalate ("node" :: (names ++ old :: more))) ∧
          after.localName low = .ok ("_".intercalate ("node" :: (names ++ name :: more))) := by
  obtain ⟨all, way, -⟩ := relabels.before.exists_namesTo relabels.live
  obtain ⟨names, old, rfl⟩ : ∃ names old, all = names ++ [old] := by
    cases way with
    | root => exact absurd rfl ne
    | child => exact ⟨_, _, rfl⟩
  obtain ⟨more, was, is⟩ := relabels.namesTo_below way path
  exact ⟨names, old, more, relabels.before.localName_of_namesTo way,
    relabels.before.localName_of_namesTo was, relabels.forest.localName_of_namesTo is⟩

theorem Forest.eq_of_localName (h : scene.Forest []) {other : NodeId}
    (named : scene.localName low = .ok name) (named' : scene.localName other = .ok name) :
    low = other := by
  obtain ⟨names, way, rfl⟩ := h.namesTo_of_localName named
  obtain ⟨more, way', same⟩ := h.namesTo_of_localName named'
  have split := split_intercalate (h.validName_of_namesTo way)
  rw [same, split_intercalate (h.validName_of_namesTo way')] at split
  obtain rfl := List.tail_eq_of_cons_eq split
  exact h.eq_of_namesTo way way'

theorem newName_of_free (free : ∀ low, scene.localName low ≠ .ok text) :
    scene.newName after text = text := by
  have none : (scene.ids.find? fun low => scene.localName low = .ok text) = none := by
    simpa using fun low _ => free low
  rw [newName, none]

theorem Relabels.newName_eq (relabels : scene.Relabels after id name)
    (named : scene.localName low = .ok text) :
    after.localName low = .ok (scene.newName after text) := by
  have live := live_of_localName named
  obtain ⟨names, -, named'⟩ := relabels.forest.exists_namesTo (relabels.live_iff.mpr live)
  -- the node that is found is the only one with this local name
  have first : (scene.ids.find? fun low => scene.localName low = .ok text) = some low := by
    cases found : scene.ids.find? fun low => scene.localName low = .ok text with
    | none =>
      have absent := List.find?_eq_none.mp found low (relabels.before.live_iff_mem_ids.mp live)
      simp [named] at absent
    | some other =>
      have named' : scene.localName other = .ok text := by simpa using List.find?_some found
      rw [relabels.before.eq_of_localName named' named]
  simp only [newName, first, named']

section Code

variable {f : String → String} {name' : String}

/-- If the local names of all nodes are turned by one map, the map turns the program of a tree. -/
theorem code_mapNodes (g : Node → Node)
    (turns : ∀ {low text}, scene.localName low = .ok text → after.localName low = .ok (f text))
    (same : ∀ node, (g node).id = node.id) (same' : ∀ node, (g node).operator = node.operator)
    (named : branches.Named scene name) (named' : (branches.mapNodes g).Named after name') :
    (branches.mapNodes g).arguments name' = (branches.arguments name).map (Argument.mapNames f) ∧
      (branches.mapNodes g).code name' = (branches.code name).map (Assignment.mapNames f) := by
  induction branches generalizing name name' with
  | nil => exact ⟨rfl, rfl⟩
  | empty rest ih => exact ih named named'
  | literal value rest ih =>
    obtain ⟨arguments, code⟩ := ih named named'
    exact ⟨congrArg (Argument.literal value :: ·) arguments, code⟩
  | child node below rest ihBelow ihRest =>
    obtain ⟨self, namedBelow, namedRest⟩ := named
    obtain ⟨self', namedBelow', namedRest'⟩ := named'
    obtain ⟨argumentsBelow, codeBelow⟩ := ihBelow namedBelow namedBelow'
    obtain ⟨argumentsRest, codeRest⟩ := ihRest namedRest namedRest'
    have turned : Branches.variableBelow name' (g node) = f (Branches.variableBelow name node) := by
      rw [same, turns self] at self'
      exact (Except.ok.inj self').symm
    rw [turned] at argumentsBelow codeBelow
    constructor
    · simp [Branches.mapNodes, Branches.arguments, argumentsRest, turned, Argument.mapNames]
    · simp [Branches.mapNodes, Branches.code, argumentsBelow, codeBelow, codeRest, turned, same',
        Assignment.mapNames]

end Code

theorem Relabels.compile_eq (relabels : scene.Relabels after id name) :
    after.compile = scene.compile.map (Program.mapNames (scene.newName after)) := by
  obtain ⟨root, found⟩ := relabels.before.root_live
  obtain ⟨branches, unfolds⟩ := relabels.before.exists_unfolds found
  have found' : after.node? after.root = some (withName id name root) := by
    rw [relabels.root, relabels.node?, found, Option.map_some]
  have unfolds' : after.Unfolds (withName id name root).inputs
      (branches.mapNodes (withName id name)) := by
    rw [inputs_withName]
    exact relabels.unfolds unfolds
  obtain ⟨-, named⟩ := relabels.before.named_root found unfolds
  obtain ⟨-, named'⟩ := relabels.forest.named_root found' unfolds'
  obtain ⟨arguments, code⟩ := code_mapNodes (withName id name) relabels.newName_eq
    (fun _ => id_withName) (fun _ => operator_withName) named named'
  have sameMissing : (branches.mapNodes (withName id name)).missing scene.root 0 =
      branches.missing scene.root 0 := Branches.missing_mapNodes (fun _ => id_withName) _ _
  cases missing : branches.missing scene.root 0 with
  | some error =>
    have missing' : (branches.mapNodes (withName id name)).missing after.root 0 = some error := by
      rw [relabels.root, sameMissing, missing]
    rw [relabels.before.compile_eq_error found unfolds missing,
      relabels.forest.compile_eq_error found' unfolds' missing']
    rfl
  | none =>
    have missing' : (branches.mapNodes (withName id name)).missing after.root 0 = none := by
      rw [relabels.root, sameMissing, missing]
    obtain ⟨result, eq, compiled⟩ := relabels.before.compile_eq_ok found unfolds missing
    obtain ⟨result', eq', compiled'⟩ := relabels.forest.compile_eq_ok found' unfolds' missing'
    rw [arguments, eq, List.map_singleton, List.cons.injEq] at eq'
    rw [compiled, compiled', code, ← eq'.1]
    rfl

theorem Forest.newName_expression (h : scene.Forest []) (value : Literal) :
    scene.newName after value.expression = value.expression := by
  apply newName_of_free
  intro low named
  obtain ⟨names, way, eq⟩ := h.namesTo_of_localName named
  exact value.not_isWord_expression (eq ▸ isWord_intercalate (h.validName_of_namesTo way))

theorem Relabels.reads (relabels : scene.Relabels after id name) {program renamed : Program}
    (compiled : scene.compile = .ok program) (compiled' : after.compile = .ok renamed) :
    ReadsAs renamed.body
      ((program.assignments.map Assignment.statement).map
        (Statement.mapNames (scene.newName after))) (scene.newName after program.result.text) := by
  have literals : ∀ value : Literal, scene.newName after value.expression = value.expression :=
    relabels.before.newName_expression
  have reads := relabels.forest.reads compiled'
  obtain rfl : program.mapNames (scene.newName after) = renamed := by
    rw [relabels.compile_eq, compiled] at compiled'
    exact Except.ok.inj compiled'
  have statements : Assignment.statement ∘ Assignment.mapNames (scene.newName after) =
      Statement.mapNames (scene.newName after) ∘ Assignment.statement :=
    funext (Assignment.statement_mapNames literals)
  rwa [Program.mapNames, List.map_map, statements, ← List.map_map,
    Argument.text_mapNames literals] at reads

/-- To rename a node is to rename variables: those of the node and of what hangs below it. -/
theorem renamed_of_rename (reachable : Reachable scene)
    (run : (Edit.rename id name).run scene = .ok () after) : scene.Renamed after id name := by
  have relabels := reachable.forest.relabels run
  refine
    { newName := relabels.newName_eq
      others := newName_of_free
      compile := relabels.compile_eq
      apart := fun apart => relabels.localName_eq (.inr apart)
      below := relabels.localName_below
      body := fun compiled compiled' =>
        ⟨_, _, relabels.before.reads compiled, relabels.reads compiled compiled'⟩
      literals := relabels.before.newName_expression
      distinct := relabels.forest.eq_of_localName
      root := fun isRoot => ?_ }
  -- the name of the root is in no local name
  have kept : ∀ text, scene.newName after text = text := by
    intro text
    by_cases named : ∃ low, scene.localName low = .ok text
    · obtain ⟨low, named⟩ := named
      have named' := relabels.newName_eq named
      rw [relabels.localName_eq (.inl isRoot), named] at named'
      exact (Except.ok.inj named').symm
    · exact newName_of_free (not_exists.mp named)
  rw [relabels.compile_eq]
  cases scene.compile with
  | error error => rfl
  | ok program => exact congrArg Except.ok (Program.mapNames_of_kept kept program)

theorem renamed_ball : Reachable ball ∧ ∃ after,
    (Edit.rename ⟨7, 1⟩ "moon").run ball = .ok () after ∧ ball.Renamed after ⟨7, 1⟩ "moon" ∧
      ball.localName ⟨7, 2⟩ = .ok "node_ball_p" ∧ after.localName ⟨7, 2⟩ = .ok "node_moon_p" ∧
        after.compile = .ok (ballProgram.mapNames (ball.newName after)) := by
  have run : (Edit.rename ⟨7, 1⟩ "moon").run ball =
      .ok () (Command.after (.rename ⟨7, 1⟩ "moon") ball) := rfl
  have renamed := renamed_of_rename reachable_ball run
  have named : ball.localName ⟨7, 2⟩ = .ok "node_ball_p" := by decide +kernel
  refine ⟨reachable_ball, _, run, renamed, named, by decide +kernel, ?_⟩
  rw [renamed.compile, compile_ball]
  rfl

end Scene

end DistanceField
