import DistanceField.Config.Load
import DistanceField.Files.Tree
import DistanceField.Manifest
import DistanceField.Operator.Builtin
import DistanceField.Scene.Default
import DistanceField.Shader.Validation

/-!
# The command line

A run turns its arguments into one text, the shader of the default scene or only the functions that
compute it, and delivers it to a file or to standard output. Whatever can fail before the delivery
fails before anything was written.
-/

namespace DistanceField

structure Options where
  config : Option String := none
  operators : List String := []
  output : Option String := none
  validate : Bool := false
  mapOnly : Bool := false
  deriving DecidableEq

inductive UsageError where
  | missingValue (option : String)
  | unknownArgument (argument : String)
  | validateMapOnly
  deriving DecidableEq

def UsageError.message : UsageError → String
  | missingValue option => s!"missing value for {option}"
  | unknownArgument argument =>
    s!"unknown argument: {argument} (supported: --config <file>, --operators <manifest>, " ++
      "--output <file>, --validate, --map-only)"
  | validateMapOnly =>
    "--validate needs the full shader and cannot be combined with --map-only"

namespace Options

/-- Reads arguments one option at a time. The last value of `--config` and `--output` counts, while
the values of `--operators` add up. -/
def read (options : Options) : List String → Except UsageError Options
  | [] => .ok options
  | "--validate" :: rest => { options with validate := true }.read rest
  | "--map-only" :: rest => { options with mapOnly := true }.read rest
  | "--config" :: value :: rest => { options with config := some value }.read rest
  | "--operators" :: value :: rest =>
    { options with operators := options.operators ++ [value] }.read rest
  | "--output" :: value :: rest => { options with output := some value }.read rest
  | "-o" :: value :: rest => { options with output := some value }.read rest
  | argument :: _ =>
    .error <|
      if argument = "-o" then .missingValue "--output"
      else if argument ∈ ["--config", "--operators", "--output"] then .missingValue argument
      else .unknownArgument argument

def ofArguments (arguments : List String) : Except UsageError Options := do
  let options ← ({} : Options).read arguments
  if options.mapOnly ∧ options.validate then throw .validateMapOnly
  return options

end Options

inductive RunError where
  | usage (error : UsageError)
  | config (error : ConfigLoadError)
  | manifest (error : ManifestError)
  | rejected (path : String) (rejection : Rejection)
  | setup (error : SetupError)
  | compile (error : CompileError)
  | invalid (stages : Nat)
  | unwritable (path : String) (fault : FileFault)
  deriving DecidableEq

def RunError.report : RunError → Report
  | usage error => [.message error.message]
  | config error => error.report
  | manifest error => error.report
  | rejected path rejection =>
    [.message s!"rejected operator from {path}", .message rejection.message]
  | setup error => [.message error.message]
  | compile error => [.message "failed to compile scene graph", .message error.message]
  | invalid stages => [.message s!"{stages} shader stage(s) failed validation"]
  | unwritable path fault =>
    [.message s!"failed to write shader to {path}", .message fault.message]

namespace CommandLine

/-- A text and the file it goes to; without a file it goes to standard output. -/
structure Delivery where
  text : String
  output : Option String
  deriving DecidableEq

def loadConfig {m : Type → Type} [Monad m] (read : FileReader m) (options : Options) :
    ExceptT RunError m Config :=
  match options.config with
  | some path => (Config.load read path).adapt .config
  | none => return {}

/-- The registry with the operators of manifests, each loaded and registered before the next. -/
def loadOperators {m : Type → Type} [Monad m] (read : FileReader m) (registry : Registry) :
    List String → ExceptT RunError m Registry
  | [] => return registry
  | path :: paths => do
    let definitions ← (Manifest.load read path).adapt .manifest
    match (Registry.registerAll definitions).run registry with
    | .ok () registry => loadOperators read registry paths
    | .error rejection _ => throw (.rejected path rejection)

def render (options : Options) (config : Config) (registry : Registry) :
    Except RunError String := do
  let scene ← (Scene.default registry 0).mapError .setup
  if options.mapOnly then scene.mapSource.mapError .compile
  else
    let stages ← (Shader.ofScene registry scene config).mapError .compile
    let failed := (stages.validate.filter fun (_, failure) => failure.isSome).length
    if options.validate ∧ 0 < failed then throw (.invalid failed)
    return stages.fragment

/-- What a run delivers. It reads the configuration first and then the manifests in order. -/
def prepare {m : Type → Type} [Monad m] (read : FileReader m) (arguments : List String) :
    ExceptT RunError m Delivery := do
  let options ← ExceptT.mk (pure ((Options.ofArguments arguments).mapError .usage))
  let config ← loadConfig read options
  let registry ← loadOperators read .builtin options.operators
  let text ← ExceptT.mk (pure (render options config registry))
  return ⟨text, options.output⟩

/-- What a run leaves behind: the texts on standard output and standard error and the exit code. -/
structure Outcome where
  exit : UInt32
  stdout : String
  stderr : String
  deriving DecidableEq

def failed (error : RunError) : Outcome := ⟨1, "", error.report.text ++ "\n"⟩

structure System (m : Type → Type) where
  read : FileReader m
  write : String → String → m (Except FileFault Unit)
  print : String → m Unit
  complain : String → m Unit

def System.fail {m : Type → Type} [Monad m] (system : System m) (error : RunError) :
    m UInt32 := do
  let outcome := failed error
  system.complain outcome.stderr
  return outcome.exit

/-- A run in some surroundings: its exit code. -/
def program {m : Type → Type} [Monad m] (system : System m) (arguments : List String) :
    m UInt32 := do
  match ← (prepare system.read arguments).run with
  | .error error => system.fail error
  | .ok delivery =>
    match delivery.output with
    | none =>
      system.print delivery.text
      return 0
    | some path =>
      match ← system.write path delivery.text with
      | .ok () => return 0
      | .error fault => system.fail (.unwritable path fault)

/-- A run on a file tree: its outcome and the tree afterwards. -/
def run (tree : FileTree) (arguments : List String) : Outcome × FileTree :=
  match ExceptT.run (m := Id) (prepare tree.read arguments) with
  | .error error => (failed error, tree)
  | .ok delivery =>
    match delivery.output with
    | none => (⟨0, delivery.text, ""⟩, tree)
    | some path =>
      match tree.write path delivery.text.toUTF8 with
      | .ok after => (⟨0, "", ""⟩, after)
      | .error fault => (failed (.unwritable path fault), tree)

end CommandLine

end DistanceField
