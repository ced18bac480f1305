import PlainScript.Deobfuscate
import PlainScript.Json.Draft
import PlainScript.Json.Writer
import PlainScript.Node.Fields
import PlainScript.Proofs.BranchComments
import PlainScript.Proofs.BranchElimination
import PlainScript.Proofs.BranchMeaning
import PlainScript.Proofs.BuiltScripts
import PlainScript.Proofs.ChainDepth
import PlainScript.Proofs.CommentKeeping
import PlainScript.Proofs.ConstantFolding
import PlainScript.Proofs.DebuggerRemoval
import PlainScript.Proofs.Decoding
import PlainScript.Proofs.Isolation
import PlainScript.Proofs.JsonAcceptance
import PlainScript.Proofs.JsonRoundTrip
import PlainScript.Proofs.JumpTargets
import PlainScript.Proofs.Limits
import PlainScript.Proofs.ListEdits
import PlainScript.Proofs.Literals
import PlainScript.Proofs.Lossless
import PlainScript.Proofs.Ordering
import PlainScript.Proofs.PrintDepth
import PlainScript.Proofs.Printability
import PlainScript.Proofs.Rereading
import PlainScript.Proofs.RoundTrip
import PlainScript.Proofs.Scoping
import PlainScript.Proofs.Separation
import PlainScript.Proofs.Settled
import PlainScript.Proofs.StatementRoundTrip
import PlainScript.Proofs.Traversals
import PlainScript.Proofs.Visits
