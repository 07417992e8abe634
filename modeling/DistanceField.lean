import DistanceField.Main
import DistanceField.Scene.Studio
import DistanceField.Proofs.Scene.Arena
import DistanceField.Proofs.Operator.Accepted
import DistanceField.Proofs.Scene.Links
import DistanceField.Proofs.Scene.Forest
import DistanceField.Proofs.Scene.Branches
import DistanceField.Proofs.Scene.Growth
import DistanceField.Proofs.Scene.Walks
import DistanceField.Proofs.Scene.Checks
import DistanceField.Proofs.Scene.Clearing
import DistanceField.Proofs.Scene.Edits
import DistanceField.Proofs.Scene.Move
import DistanceField.Proofs.Scene.Runs
import DistanceField.Proofs.Scene.Consistent
import DistanceField.Proofs.Scene.Aging
import DistanceField.Proofs.Scene.Lifetimes
import DistanceField.Proofs.Program.Recursion
import DistanceField.Proofs.Program.Variables
import DistanceField.Proofs.Program.Meaning
import DistanceField.Proofs.Program.Typing
import DistanceField.Proofs.Program.Emission
import DistanceField.Proofs.Numeral.Reading
import DistanceField.Proofs.Glsl.Grammar
import DistanceField.Proofs.Glsl.Headers
import DistanceField.Proofs.Glsl.Tokens
import DistanceField.Proofs.Operator.Signature
import DistanceField.Proofs.Operator.Registered
import DistanceField.Proofs.Program.Spelling
import DistanceField.Proofs.Program.Statements
import DistanceField.Proofs.Program.Faithful
import DistanceField.Proofs.Glsl.Names
import DistanceField.Proofs.Shader.Surroundings
import DistanceField.Proofs.Shader.Capture
import DistanceField.Proofs.Scene.Census
import DistanceField.Proofs.Program.Wiring
import DistanceField.Proofs.Shader.Linking
import DistanceField.Proofs.Shader.Sections
import DistanceField.Proofs.Glsl.Layout
import DistanceField.Proofs.Glsl.Uncommented
import DistanceField.Proofs.Glsl.Segments
import DistanceField.Proofs.Operator.Declared
import DistanceField.Proofs.Numeral.Nearest
import DistanceField.Proofs.Numeral.Constants
import DistanceField.Proofs.Program.Literals
import DistanceField.Proofs.Program.Renaming
import DistanceField.Proofs.Scene.Setups
import DistanceField.Proofs.Scene.Studios
import DistanceField.Proofs.Scene.Paths
import DistanceField.Proofs.Operator.Extended
import DistanceField.Proofs.Operator.Library
import DistanceField.Proofs.Scene.Standard
import DistanceField.Proofs.CommandLine.MapOnly
import DistanceField.Proofs.Scene.Relocation
import DistanceField.Proofs.Scene.Removal
import DistanceField.Proofs.Scene.Attachment
import DistanceField.Proofs.Scene.Enumeration
import DistanceField.Proofs.Scene.Commuting
import DistanceField.Proofs.Scene.Reversal
import DistanceField.Proofs.Scene.Bounds
import DistanceField.Proofs.Operator.Batches
import DistanceField.Proofs.Operator.Indexed
import DistanceField.Proofs.Operator.Calls
import DistanceField.Proofs.Steps
import DistanceField.Proofs.Config.Accepted
import DistanceField.Proofs.Glsl.Numbers
import DistanceField.Proofs.Shader.Constants
import DistanceField.Proofs.Files.Write
import DistanceField.Proofs.Manifest.Entries
import DistanceField.Proofs.CommandLine.Arguments
import DistanceField.Proofs.CommandLine.World
import DistanceField.Proofs.CommandLine.Delivery
import DistanceField.Proofs.CommandLine.Grammar
import DistanceField.Proofs.Manifest.Resolution
import DistanceField.Proofs.Json.Spelling
import DistanceField.Proofs.Json.Values
import DistanceField.Proofs.Json.Records
import DistanceField.Proofs.Config.Content
import DistanceField.Proofs.Shader.Listing
