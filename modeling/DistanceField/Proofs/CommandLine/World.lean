import DistanceField.CommandLine

/-!
# The program in a world

A world is a file tree with what was written to the standard streams. In a world the program does
what a run on its tree says: it looks at files, and then it writes one thing.
-/

namespace DistanceField.CommandLine

/-- A file tree with the texts on standard output and standard error. -/
structure World where
  tree : FileTree
  stdout : String
  stderr : String

namespace World

def system : System (StateM World) where
  read path := do return (← get).tree.read path
  write path text := modifyGet fun world =>
    match world.tree.write path text.toUTF8 with
    | .ok after => (.ok (), { world with tree := after })
    | .error fault => (.error fault, world)
  print text := modify fun world => { world with stdout := world.stdout ++ text }
  complain text := modify fun world => { world with stderr := world.stderr ++ text }

variable {ε ε' α β : Type} {world : World}

/-- Steps in a world that leave it as it is and give what other steps give. -/
def Looks (world : World) (there : ExceptT ε (StateM World) α) (here : ExceptT ε Id α) : Prop :=
  there.run.run world = (here.run, world)

theorem looks_mk_pure (result : Except ε α) :
    world.Looks (.mk (pure result)) (.mk (pure result)) := rfl

theorem Looks.bind {there : ExceptT ε (StateM World) α} {here : ExceptT ε Id α}
    {next : α → ExceptT ε (StateM World) β} {onward : α → ExceptT ε Id β}
    (first : world.Looks there here) (second : ∀ a, world.Looks (next a) (onward a)) :
    world.Looks (there >>= next) (here >>= onward) := by
  unfold Looks at first ⊢
  rw [ExceptT.run_bind, ExceptT.run_bind, StateT.run_bind, first]
  cases ended : here.run with
  | error error => rfl
  | ok a => exact second a

theorem Looks.adapt {there : ExceptT ε (StateM World) α} {here : ExceptT ε Id α}
    (looks : world.Looks there here) (adapt : ε → ε') :
    world.Looks (there.adapt adapt) (here.adapt adapt) := by
  unfold Looks at looks ⊢
  rw [ExceptT.run_adapt, ExceptT.run_adapt, StateT.run_map, looks]
  rfl

theorem looks_readText (path : String) :
    world.Looks (readText system.read path) (readText world.tree.read path) := rfl

theorem looks_loadConfig (options : Options) :
    world.Looks (loadConfig system.read options) (loadConfig world.tree.read options) := by
  unfold loadConfig
  cases options.config with
  | none => exact looks_mk_pure (.ok ({} : Config))
  | some path =>
    refine Looks.adapt (.bind ((looks_readText path).adapt _) fun text => ?_) _
    cases Config.ofText text with
    | ok config => exact looks_mk_pure (.ok config)
    | error error => exact looks_mk_pure (.error _)

theorem looks_readCode (base : String) (entry : ManifestEntry) :
    world.Looks (entry.readCode system.read base) (entry.readCode world.tree.read base) := by
  unfold ManifestEntry.readCode
  cases entry.code with
  | none =>
    cases entry.codeFile with
    | none => exact looks_mk_pure (.error EntryError.noCode)
    | some file => exact (looks_readText _).adapt _
  | some own =>
    cases entry.codeFile with
    | none => exact looks_mk_pure (.ok own)
    | some file => exact looks_mk_pure (.error EntryError.bothCodes)

theorem looks_resolve (base : String) (entry : ManifestEntry) :
    world.Looks (entry.resolve system.read base) (entry.resolve world.tree.read base) :=
  (looks_readCode base entry).bind fun _ => (looks_mk_pure entry.definedDefaults).bind fun _ =>
    looks_mk_pure (.ok _)

theorem looks_resolveFrom (base : String) (index : Nat) (entries : List ManifestEntry) :
    world.Looks (Manifest.resolveFrom system.read base index entries)
      (Manifest.resolveFrom world.tree.read base index entries) := by
  induction entries generalizing index with
  | nil => exact looks_mk_pure (.ok [])
  | cons entry entries ih =>
    exact ((looks_resolve base entry).adapt _).bind fun _ => (ih (index + 1)).bind fun _ =>
      looks_mk_pure (.ok _)

theorem looks_loadManifest (path : String) :
    world.Looks (Manifest.load system.read path) (Manifest.load world.tree.read path) := by
  refine ((looks_readText path).adapt _).bind fun text => ?_
  cases (Json.Value.ofText? text).bind Manifest.ofValue? with
  | none => exact looks_mk_pure (.error _)
  | some entries => exact looks_resolveFrom _ 0 entries

theorem looks_loadOperators (registry : Registry) (paths : List String) :
    world.Looks (loadOperators system.read registry paths)
      (loadOperators world.tree.read registry paths) := by
  induction paths generalizing registry with
  | nil => exact looks_mk_pure (.ok registry)
  | cons path paths ih =>
    refine ((looks_loadManifest path).adapt _).bind fun definitions => ?_
    cases (Registry.registerAll definitions).run registry with
    | ok _ after => exact ih after
    | error rejection _ => exact looks_mk_pure (.error _)

theorem looks_prepare (arguments : List String) :
    world.Looks (prepare system.read arguments) (prepare world.tree.read arguments) :=
  (looks_mk_pure _).bind fun options => (looks_loadConfig options).bind fun _ =>
    (looks_loadOperators .builtin options.operators).bind fun _ => (looks_mk_pure _).bind fun _ =>
      looks_mk_pure (.ok _)

theorem run_fail (error : RunError) (world : World) : (system.fail error).run world =
    ((failed error).exit, { world with stderr := world.stderr ++ (failed error).stderr }) := rfl

theorem run_write (path text : String) (world : World) : (system.write path text).run world =
    match world.tree.write path text.toUTF8 with
    | .ok after => (.ok (), { world with tree := after })
    | .error fault => (.error fault, world) := rfl

/-- What a run on a tree says is what the program does in a world with this tree where nothing was
written yet. -/
theorem run_program (tree : FileTree) (arguments : List String) :
    (program system arguments).run ⟨tree, "", ""⟩ =
      ((run tree arguments).1.exit,
        ⟨(run tree arguments).2, (run tree arguments).1.stdout, (run tree arguments).1.stderr⟩) := by
  have looks := @looks_prepare ⟨tree, "", ""⟩ arguments
  unfold Looks at looks
  rw [program, StateT.run_bind, looks, run]
  cases ExceptT.run (m := Id) (prepare tree.read arguments) with
  | error error => exact run_fail error ⟨tree, "", ""⟩
  | ok delivery =>
    obtain ⟨text, output⟩ := delivery
    cases output with
    | none =>
      change (0, { tree := tree, stdout := "" ++ text, stderr := "" : World }) = _
      rw [String.empty_append]
    | some path =>
      have wrote := run_write path text ⟨tree, "", ""⟩
      change StateT.run (system.write path text >>= _) ⟨tree, "", ""⟩ = _
      rw [StateT.run_bind, wrote]
      dsimp only
      cases written : tree.write path text.toUTF8 with
      | ok after => rfl
      | error fault => exact run_fail (.unwritable path fault) ⟨tree, "", ""⟩

end World

end DistanceField.CommandLine
