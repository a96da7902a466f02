import ConsoleRun.Main
import ConsoleRun.Proofs.Access.Scanning
import ConsoleRun.Proofs.Client.Address
import ConsoleRun.Proofs.Client.Conversation
import ConsoleRun.Proofs.Config.Overrides
import ConsoleRun.Proofs.Controller.Calls
import ConsoleRun.Proofs.Controller.Collection
import ConsoleRun.Proofs.Controller.Jobs
import ConsoleRun.Proofs.Controller.Phases
import ConsoleRun.Proofs.Controller.Prompts
import ConsoleRun.Proofs.Detection.Comments
import ConsoleRun.Proofs.Detection.Groups
import ConsoleRun.Proofs.Detection.Shape
import ConsoleRun.Proofs.Format.Items
import ConsoleRun.Proofs.Input.Lines
import ConsoleRun.Proofs.Input.Unpacking
import ConsoleRun.Proofs.Prompt.Choice
import ConsoleRun.Proofs.Report.Removal
import ConsoleRun.Proofs.Report.Transport
import ConsoleRun.Proofs.Session.Hints
import ConsoleRun.Proofs.Session.Open
import ConsoleRun.Proofs.Source.Division
import ConsoleRun.Proofs.Source.Enclosed
import ConsoleRun.Proofs.Source.Offsets
import ConsoleRun.Proofs.Stdin.Relaid
import ConsoleRun.Proofs.Stdin.RoundTrip
import ConsoleRun.Proofs.Stream.Bindings
import ConsoleRun.Proofs.Terminal.Display
import ConsoleRun.Proofs.Terminal.Exit
