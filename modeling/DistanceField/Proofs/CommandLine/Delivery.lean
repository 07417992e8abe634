import DistanceField.Proofs.CommandLine.Arguments
import DistanceField.Proofs.CommandLine.MapOnly
import DistanceField.Proofs.CommandLine.World
import DistanceField.Proofs.Config.Accepted
import DistanceField.Proofs.Files.Write
import DistanceField.Proofs.Manifest.Entries
import DistanceField.Proofs.Operator.Batches

/-!
# All or nothing

A run delivers one text and does nothing else, or it leaves no trace but its complaint. The text is
told by the arguments and by the files that they name.
-/

namespace DistanceField.CommandLine
open List (Forall₂)

variable {tree : FileTree} {read : FileReader Id} {registry after : Registry}
  {paths arguments : List String} {options : Options} {config : Config} {text : String}
  {delivery : Delivery}

/-- The configuration of a run: that of the file which is named, or the default one. -/
def Configures (read : FileReader Id) : Option String → Config → Prop
  | some path, config =>
    ∃ text, (readText read path).run = .ok text ∧ Config.ofText text = .ok config
  | none, config => config = {}

/-- The registry of a run: the built-in operators, and behind them the operators of all manifests,
one for each entry. -/
def Equips (read : FileReader Id) (paths : List String) (registry : Registry) : Prop :=
  ∃ manifests operators, Forall₂ (Manifest.Holds read) paths manifests ∧
    Registry.builtin.Joins manifests.flatten operators ∧
      registry = ⟨Builtin.operators ++ operators⟩

/-- The text of a run. A shader that is to be validated must not hold what no token holds. -/
structure Renders (options : Options) (config : Config) (registry : Registry) (text : String) :
    Prop where
  shown : ∃ scene map, Scene.default registry 0 = .ok scene ∧ scene.mapSource = .ok map ∧
    text = if options.mapOnly then map else Shader.fragment registry map config
  valid : options.validate → options.mapOnly = false → '@' ∉ text.toList

theorem run_loadConfig_eq_ok_iff :
    (loadConfig read options).run = .ok config ↔ Configures read options.config config := by
  unfold loadConfig Configures
  cases options.config with
  | none => exact ⟨fun done => (by cases done; rfl), fun done => (by cases done; rfl)⟩
  | some path => exact run_adapt_eq_ok_iff.trans Config.run_load_eq_ok_iff

theorem run_loadOperators_eq_ok_iff : (loadOperators read registry paths).run = .ok after ↔
    ∃ manifests, Forall₂ (Manifest.Holds read) paths manifests ∧
      (Registry.registerAll manifests.flatten).run registry = .ok () after := by
  induction paths generalizing registry with
  | nil =>
    constructor
    · intro done
      cases done
      exact ⟨[], .nil, rfl⟩
    · rintro ⟨manifests, ⟨⟩, done⟩
      cases done
      rfl
  | cons path paths ih =>
    simp only [loadOperators, run_bind_eq_ok_iff, run_adapt_eq_ok_iff, Manifest.run_load_eq_ok_iff]
    constructor
    · rintro ⟨definitions, holds, loaded⟩
      split at loaded
      · rename_i between registered
        obtain ⟨manifests, others, done⟩ := ih.mp loaded
        exact ⟨definitions :: manifests, .cons holds others,
          Registry.run_registerAll_append_eq_ok_iff.mpr ⟨between, registered, done⟩⟩
      · cases loaded
    · rintro ⟨_, related, done⟩
      obtain ⟨definitions, manifests, holds, others, rfl⟩ := List.forall₂_cons_left_iff.mp related
      obtain ⟨between, registered, done⟩ := Registry.run_registerAll_append_eq_ok_iff.mp done
      refine ⟨definitions, holds, ?_⟩
      rw [registered]
      exact ih.mpr ⟨manifests, others, done⟩

theorem run_loadBuiltin_eq_ok_iff : (loadOperators read .builtin paths).run = .ok registry ↔
    Equips read paths registry := by
  rw [run_loadOperators_eq_ok_iff]
  refine exists_congr fun manifests => ?_
  rw [Registry.run_registerAll_eq_ok_iff, exists_and_left]
  simp only [Registry.extended, Registry.builtin_eq]

theorem isValid_vertex : Shader.isValid Shader.vertex := by decide +kernel

theorem failed_pos_iff (fragment : String) :
    0 < ((Shader.Stages.validate ⟨Shader.vertex, fragment⟩).filter
      fun (_, failure) => failure.isSome).length ↔ '@' ∈ fragment.toList := by
  have vertex : Shader.validate Shader.vertex = none := if_pos isValid_vertex
  rw [Shader.Stages.validate, vertex]
  by_cases mem : '@' ∈ fragment.toList <;> simp [Shader.validate, Shader.isValid, mem]

theorem render_eq_ok_iff :
    render options config registry = .ok text ↔ Renders options config registry text := by
  have stages {scene : Scene} {found : Shader.Stages} :
      Shader.ofScene registry scene config = .ok found ↔ ∃ map, scene.mapSource = .ok map ∧
        found = ⟨Shader.vertex, Shader.fragment registry map config⟩ := by
    rw [Shader.ofScene]
    cases scene.mapSource <;> simp [Except.map, eq_comm]
  cases mapOnly : options.mapOnly with
  | true =>
    simp only [render, mapOnly, if_true, bind_eq_ok_iff, mapError_eq_ok_iff]
    constructor
    · rintro ⟨scene, built, compiled⟩
      exact ⟨⟨scene, text, built, compiled, by rw [if_pos mapOnly]⟩, by simp [mapOnly]⟩
    · rintro ⟨⟨scene, map, built, compiled, rfl⟩, -⟩
      exact ⟨scene, built, by rw [if_pos mapOnly, compiled]⟩
  | false =>
    simp only [render, mapOnly, if_false, Bool.false_eq_true, bind_eq_ok_iff, mapError_eq_ok_iff,
      guard_eq_ok_iff, stages]
    constructor
    · rintro ⟨scene, built, found, ⟨map, compiled, rfl⟩, valid, done⟩
      cases done
      refine ⟨⟨scene, map, built, compiled, by simp [mapOnly]⟩, fun validate _ mem => ?_⟩
      exact valid ⟨validate, (failed_pos_iff _).mpr mem⟩
    · rintro ⟨⟨scene, map, built, compiled, rfl⟩, valid⟩
      simp only [mapOnly, if_false, Bool.false_eq_true] at valid ⊢
      refine ⟨scene, built, _, ⟨map, compiled, rfl⟩, ?_, rfl⟩
      rintro ⟨validate, failed⟩
      exact valid validate trivial ((failed_pos_iff _).mp failed)

/-- What a run has to deliver: the arguments are groups, the file of the last configuration and
those of all manifests serve, and the text is rendered from what they hold. It goes to the last
output. -/
inductive Serves (read : FileReader Id) : List String → Delivery → Prop
  | intro {groups : List Group} {config : Config} {registry : Registry} {text : String}
    (apart : ¬ (.mapOnly ∈ groups ∧ .validate ∈ groups))
    (configures : Configures read (groups.filterMap Group.config?).getLast? config)
    (equips : Equips read (groups.filterMap Group.operators?) registry)
    (renders : Renders (.ofGroups groups) config registry text) :
    Serves read (groups.flatMap Group.words) ⟨text, (groups.filterMap Group.output?).getLast?⟩

theorem run_prepare_eq_ok_iff :
    (prepare read arguments).run = .ok delivery ↔ Serves read arguments delivery := by
  simp only [prepare_eq_ok_iff, Options.ofArguments_eq_ok_iff, run_loadConfig_eq_ok_iff,
    run_loadBuiltin_eq_ok_iff, render_eq_ok_iff]
  constructor
  · obtain ⟨text, output⟩ := delivery
    rintro ⟨_, config, registry, ⟨groups, rfl, apart, rfl⟩, configures, equips, renders, rfl⟩
    exact .intro apart configures equips renders
  · rintro ⟨apart, configures, equips, renders⟩
    exact ⟨_, _, _, ⟨_, rfl, apart, rfl⟩, configures, equips, renders, rfl⟩

/-- A text is delivered and nothing else happens: it is the whole standard output, or the content of
one file of the tree, under the path that is named. -/
inductive Delivers (tree : FileTree) : Delivery → Outcome × FileTree → Prop
  | shown (text : String) : Delivers tree ⟨text, none⟩ (⟨0, text, ""⟩, tree)
  | written {text path : String} {after : FileTree} {place : List String}
    (read : after.read path = .ok text.toUTF8)
    (held : after.entry? place = some (.file text.toUTF8))
    (vacant : tree.entry? place ≠ some .directory)
    (others : ∀ other ≠ place, after.entry? other = tree.entry? other)
    (current : after.current = tree.current) :
    Delivers tree ⟨text, some path⟩ (⟨0, "", ""⟩, after)

/-- A run fails and leaves the tree as it was, without a word on standard output. Nothing could be
delivered: something does not serve, or the output cannot be written. -/
structure Fails (tree : FileTree) (arguments : List String) (result : Outcome × FileTree) : Prop where
  exit : result.1.exit ≠ 0
  silent : result.1.stdout = ""
  untouched : result.2 = tree
  unable : ∀ delivery, Serves tree.read arguments delivery →
    ∃ path fault, delivery.output = some path ∧ tree.write path delivery.text.toUTF8 = .error fault

theorem exit_failed_ne (error : RunError) : (failed error).exit ≠ 0 := by
  simp [failed]

theorem delivers_of_write {path : String} {after : FileTree}
    (written : tree.write path text.toUTF8 = .ok after) :
    Delivers tree ⟨text, some path⟩ (⟨0, "", ""⟩, after) := by
  obtain ⟨place, leads, rfl⟩ := FileTree.leadsTo_of_write written
  exact .written leads.read_set (FileTree.entry?_set_self leads.named) leads.vacant
    (fun other apart => FileTree.entry?_set_of_ne apart) rfl

/-- A run delivers what it has to, or it fails and leaves no trace. The program does the same step
by step. -/
theorem run_allOrNothing (tree : FileTree) (arguments : List String) :
    (program World.system arguments).run ⟨tree, "", ""⟩ =
        ((run tree arguments).1.exit, ⟨(run tree arguments).2, (run tree arguments).1.stdout,
          (run tree arguments).1.stderr⟩) ∧
      (Fails tree arguments (run tree arguments) ∨ ∃ delivery, Serves tree.read arguments delivery ∧
        Delivers tree delivery (run tree arguments)) := by
  refine ⟨World.run_program tree arguments, ?_⟩
  cases prepared : ExceptT.run (m := Id) (prepare tree.read arguments) with
  | error error =>
    left
    have unserved : ∀ delivery, ¬ Serves tree.read arguments delivery := by
      intro delivery serves
      rw [run_prepare_eq_ok_iff.mpr serves] at prepared
      cases prepared
    rw [run, prepared]
    exact ⟨exit_failed_ne error, rfl, rfl, fun delivery serves => absurd serves (unserved delivery)⟩
  | ok delivery =>
    have serves := run_prepare_eq_ok_iff.mp prepared
    obtain ⟨text, output⟩ := delivery
    rw [run, prepared]
    cases output with
    | none => exact .inr ⟨_, serves, .shown text⟩
    | some path =>
      -- the write is the only step that can still fail, and then it has changed nothing
      cases written : tree.write path text.toUTF8 with
      | ok after =>
        right
        simp only [written]
        exact ⟨_, serves, delivers_of_write written⟩
      | error fault =>
        left
        simp only [written]
        refine ⟨exit_failed_ne _, rfl, rfl, fun delivery serves' => ?_⟩
        rw [run_prepare_eq_ok_iff.mpr serves'] at prepared
        cases prepared
        exact ⟨path, fault, rfl, written⟩

end DistanceField.CommandLine
