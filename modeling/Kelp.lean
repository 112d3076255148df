import Kelp.Syntax
import Kelp.Diagnostic
import Kelp.Grammar.Parse
import Kelp.Module
import Kelp.Lowering
import Kelp.SExpr.Reader
import Kelp.Wat.Assembly
import Kelp.Wasm.Binary
import Kelp.Wasm.Validation
import Kelp.Loader
import Kelp.Compile
import Kelp.Cli.Run
import Kelp.Main
import Kelp.Proofs.Simulation
import Kelp.Proofs.Printing
import Kelp.Proofs.Leaks
import Kelp.Proofs.Faults
import Kelp.Proofs.NormalForm
import Kelp.Proofs.Acceptance
import Kelp.Proofs.EntryPoints
import Kelp.Proofs.Refusals
import Kelp.Proofs.Decoding
import Kelp.Proofs.Supply
import Kelp.Proofs.Cli.Run
import Kelp.Proofs.Script.Exports
import Kelp.Proofs.Hygiene
import Kelp.Proofs.Script.Payload
import Kelp.Proofs.IntegerLiterals
import Kelp.Proofs.Rearrangement
import Kelp.Proofs.Diagnostics
import Kelp.Proofs.Serialization
import Kelp.Proofs.Script.Literals
