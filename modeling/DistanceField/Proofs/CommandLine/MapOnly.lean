import DistanceField.CommandLine
import DistanceField.Proofs.Scene.Standard
import DistanceField.Proofs.Steps

/-!
# Further operators and the default scene

Definitions that come after the built-in ones, accepted or rejected, change nothing in the default
scene and in the functions that compute it. In the fragment stage the code of the additional
operators is put in at one place, and a run that delivers only the functions of the scene always
delivers the same text.
-/

namespace DistanceField

namespace CommandLine

variable {read : FileReader Id} {registry after : Registry} {paths arguments : List String}
  {options : Options} {config : Config} {text : String} {delivery : Delivery}

theorem exists_afterAll_of_loadOperators
    (loaded : (loadOperators read registry paths).run = .ok after) :
    ∃ definitions, after = registry.afterAll definitions := by
  induction paths generalizing registry with
  | nil =>
    cases loaded
    exact ⟨[], rfl⟩
  | cons path paths ih =>
    rw [loadOperators] at loaded
    obtain ⟨definitions, -, loaded⟩ := run_bind_eq_ok_iff.mp loaded
    split at loaded
    · rename_i between run
      obtain ⟨more, rfl⟩ := ih loaded
      rw [Registry.eq_afterAll_of_registerAll run, ← Registry.afterAll_append]
      exact ⟨_, rfl⟩
    · cases loaded

/-- A run delivers something if its arguments, its files and the scene all serve. -/
theorem prepare_eq_ok_iff : (prepare read arguments).run = .ok delivery ↔
    ∃ options config registry, Options.ofArguments arguments = .ok options ∧
      (loadConfig read options).run = .ok config ∧
        (loadOperators read .builtin options.operators).run = .ok registry ∧
          render options config registry = .ok delivery.text ∧
            delivery.output = options.output := by
  have parse (options : Options) :
      (ExceptT.mk (pure ((Options.ofArguments arguments).mapError .usage)) :
        ExceptT RunError Id Options).run = .ok options ↔
          Options.ofArguments arguments = .ok options := mapError_eq_ok_iff
  simp only [prepare, run_bind_eq_ok_iff, parse]
  constructor
  · rintro ⟨options, parsed, config, configured, registry, loaded, text, rendered, done⟩
    cases done
    exact ⟨options, config, registry, parsed, configured, loaded, rendered, rfl⟩
  · rintro ⟨options, config, registry, parsed, configured, loaded, rendered, output⟩
    refine ⟨options, parsed, config, configured, registry, loaded, delivery.text, rendered, ?_⟩
    rw [← output]
    rfl

theorem render_of_mapOnly (mapOnly : options.mapOnly) (config : Config)
    (definitions : List Definition) :
    render options config (Registry.builtin.afterAll definitions) = .ok Scene.standardMap := by
  simp only [render, Scene.default_eq (Registry.knows_afterAll definitions), mapOnly, if_true,
    Scene.mapSource_standard, Except.mapError, bind, Except.bind]

def Delivered (tree : FileTree) (output : Option String) (text : String)
    (result : Outcome × FileTree) : Prop :=
  match output with
  | none => result = (⟨0, text, ""⟩, tree)
  | some path => ∃ after, tree.write path text.toUTF8 = .ok after ∧ result = (⟨0, "", ""⟩, after)

theorem exists_delivery_of_exit {tree : FileTree} (success : (run tree arguments).1.exit = 0) :
    ∃ delivery, ExceptT.run (m := Id) (prepare tree.read arguments) = .ok delivery ∧
      Delivered tree delivery.output delivery.text (run tree arguments) := by
  cases prepared : ExceptT.run (m := Id) (prepare tree.read arguments) with
  | error error =>
    rw [run, prepared] at success
    cases success
  | ok delivery =>
    refine ⟨delivery, rfl, ?_⟩
    rw [run, prepared] at success ⊢
    unfold Delivered
    cases output : delivery.output with
    | none => simp only [output]
    | some path =>
      simp only [output] at success ⊢
      cases written : tree.write path delivery.text.toUTF8 with
      | ok after => exact ⟨after, rfl, by simp only⟩
      | error fault =>
        rw [written] at success
        cases success

end CommandLine

namespace Shader

def front (config : Config) : String := header config ++ Registry.builtin.preamble

def back : String := Scene.standardMap ++ "\n" ++ engine

end Shader

namespace Registry

/-- What is promised of the default scene with further definitions and of the one without, whose tag
may be another. -/
structure Kept (definitions : List Definition) (scene plain : Scene) : Prop where
  size : scene.size = 7
  liveNodes : scene.liveNodes.length = 7
  mapSource : scene.mapSource = .ok Scene.standardMap
  plainMapSource : plain.mapSource = .ok Scene.standardMap
  plainFragment : ∀ config, Shader.ofScene builtin plain config =
    .ok ⟨Shader.vertex, Shader.front config ++ Shader.back⟩
  /-- The code of the additional operators stands between the built-in code and the scene. -/
  fragment : ∀ config, Shader.ofScene (builtin.afterAll definitions) scene config =
    .ok ⟨Shader.vertex, Shader.front config ++
      String.join ((builtin.joining definitions).map fun operator =>
        Text.trimEnd operator.code ++ "\n\n") ++ Shader.back⟩

theorem kept_standard (definitions : List Definition) (tag plainTag : Nat) :
    Kept definitions (.ofNodes tag (Scene.standardNodes tag))
      (.ofNodes plainTag (Scene.standardNodes plainTag)) where
  size := rfl
  liveNodes := by rw [Scene.liveNodes_ofNodes]; rfl
  mapSource := Scene.mapSource_standard tag
  plainMapSource := Scene.mapSource_standard plainTag
  plainFragment config := by
    rw [Shader.ofScene, Scene.mapSource_standard]
    simp only [Except.map, Shader.fragment, Shader.front, Shader.back, String.append_assoc]
  fragment config := by
    rw [Shader.ofScene, Scene.mapSource_standard]
    simp only [Except.map, Shader.fragment, preamble_afterAll, Shader.front, Shader.back,
      String.append_assoc]
    rfl

end Registry

open CommandLine in
/-- Further definitions leave the default scene and its code as they were and add their code to the
fragment stage at one place. All runs that deliver the code of the scene alone deliver one text. -/
theorem defaultScene_kept :
    (∀ definitions tag plainTag, ∃ scene plain,
      Scene.default (Registry.builtin.afterAll definitions) tag = .ok scene ∧
        Scene.default Registry.builtin plainTag = .ok plain ∧
          Registry.Kept definitions scene plain) ∧
    ∀ {tree : FileTree} {arguments : List String} {options : Options},
      Options.ofArguments arguments = .ok options → options.mapOnly →
        (run tree arguments).1.exit = 0 →
          Delivered tree options.output Scene.standardMap (run tree arguments) := by
  constructor
  · intro definitions tag plainTag
    exact ⟨_, _, Scene.default_eq (Registry.knows_afterAll definitions) tag,
      Scene.default_eq Registry.knows_builtin plainTag,
      Registry.kept_standard definitions tag plainTag⟩
  · intro tree arguments options parsed mapOnly success
    obtain ⟨delivery, prepared, delivered⟩ := exists_delivery_of_exit success
    obtain ⟨options', config, registry, parsed', -, loaded, rendered, output⟩ :=
      prepare_eq_ok_iff.mp prepared
    obtain rfl := Except.ok.inj (parsed.symm.trans parsed')
    obtain ⟨definitions, rfl⟩ := exists_afterAll_of_loadOperators loaded
    rw [render_of_mapOnly mapOnly] at rendered
    rw [Except.ok.inj rendered, ← output]
    exact delivered

open CommandLine in
theorem defaultScene_kept_mapOnly : ∃ options after,
    Options.ofArguments ["--map-only", "-o", "map.glsl"] = .ok options ∧ options.mapOnly ∧
      (run ⟨[], []⟩ ["--map-only", "-o", "map.glsl"]).1.exit = 0 ∧
        FileTree.write ⟨[], []⟩ "map.glsl" Scene.standardMap.toUTF8 = .ok after ∧
          run ⟨[], []⟩ ["--map-only", "-o", "map.glsl"] = (⟨0, "", ""⟩, after) := by
  let options : Options := { output := some "map.glsl", mapOnly := true }
  have parsed : Options.ofArguments ["--map-only", "-o", "map.glsl"] = .ok options := rfl
  have rendered : render options {} Registry.builtin = .ok Scene.standardMap := by
    have text : render options {} (Registry.builtin.afterAll []) = .ok Scene.standardMap :=
      render_of_mapOnly rfl {} []
    rwa [Registry.afterAll_nil] at text
  have written : FileTree.write ⟨[], []⟩ "map.glsl" Scene.standardMap.toUTF8 =
      .ok ⟨[(["map.glsl"], .file Scene.standardMap.toUTF8)], []⟩ := rfl
  have prepared : ExceptT.run (m := Id) (prepare (FileTree.read ⟨[], []⟩)
      ["--map-only", "-o", "map.glsl"]) = .ok ⟨Scene.standardMap, some "map.glsl"⟩ :=
    prepare_eq_ok_iff.mpr ⟨options, {}, Registry.builtin, parsed, rfl, rfl, rendered, rfl⟩
  have success : (run ⟨[], []⟩ ["--map-only", "-o", "map.glsl"]).1.exit = 0 := by
    rw [run, prepared]
    simp only [written]
  obtain ⟨after, written, delivered⟩ := defaultScene_kept.2 parsed rfl success
  exact ⟨options, after, parsed, rfl, success, written, delivered⟩

end DistanceField
