import BlockScript.Main
import BlockScript.Controller.Session
import BlockScript.EventLog.Switchboard
import BlockScript.Run.Rehearsal
import BlockScript.Encoding.Event
import BlockScript.Proofs.Program.Places
import BlockScript.Proofs.Program.EntryPoints
import BlockScript.Proofs.Program.Size
import BlockScript.Proofs.Stage.History
import BlockScript.Proofs.Stage.Bounds
import BlockScript.Proofs.Run.Meaning
import BlockScript.Proofs.Run.Undisturbed
import BlockScript.Proofs.Run.Eating
import BlockScript.Proofs.Run.Suspension
import BlockScript.Proofs.Run.Position
import BlockScript.Proofs.Run.Composition
import BlockScript.Proofs.Run.Visits
import BlockScript.Proofs.Run.Unrolling
import BlockScript.Proofs.Run.Duration
import BlockScript.Proofs.Run.Frames
import BlockScript.Proofs.Controller.Resume
import BlockScript.Proofs.Controller.Exclusion
import BlockScript.Proofs.Controller.Operations
import BlockScript.Proofs.Controller.Independence
import BlockScript.Proofs.Controller.Standing
import BlockScript.Proofs.Controller.Trimming
import BlockScript.Proofs.Controller.Record
import BlockScript.Proofs.Controller.Cancellation
import BlockScript.Proofs.Controller.Alone
import BlockScript.Proofs.Controller.Timing
import BlockScript.Proofs.Controller.TopLevel
import BlockScript.Proofs.Controller.Accounts
import BlockScript.Proofs.Encoding.Program
import BlockScript.Proofs.Script.Grammar
import BlockScript.Proofs.Script.Reading
import BlockScript.Proofs.Script.Layout
import BlockScript.Proofs.Script.Concatenation
import BlockScript.Proofs.Script.Heads
import BlockScript.Proofs.Script.StrayAtoms
import BlockScript.Proofs.Script.Slices
import BlockScript.Proofs.EventLog.Conservation
import BlockScript.Proofs.Tool.Watching
import BlockScript.Proofs.Tool.Checking
import BlockScript.Proofs.Encoding.Settings
import BlockScript.Proofs.Encoding.Counts
import BlockScript.Proofs.Encoding.Overlay
