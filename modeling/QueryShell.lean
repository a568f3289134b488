import QueryShell.Channel.Action
import QueryShell.Lazy.Entries
import QueryShell.Lazy.Readers
import QueryShell.Main
import QueryShell.Proofs.Channel.Broadcast
import QueryShell.Proofs.Channel.Cancellation
import QueryShell.Proofs.Channel.Delivery
import QueryShell.Proofs.Channel.Handling
import QueryShell.Proofs.Channel.Orderly
import QueryShell.Proofs.Channel.Pull
import QueryShell.Proofs.Channel.Queue
import QueryShell.Proofs.Command.Codec
import QueryShell.Proofs.Config.File
import QueryShell.Proofs.Eval.Binding
import QueryShell.Proofs.Eval.Crossing
import QueryShell.Proofs.Eval.Dispatch
import QueryShell.Proofs.Eval.Each
import QueryShell.Proofs.Eval.Faultless
import QueryShell.Proofs.Eval.Form
import QueryShell.Proofs.Eval.Frame
import QueryShell.Proofs.Eval.Implode
import QueryShell.Proofs.Eval.Iteration
import QueryShell.Proofs.Eval.LastException
import QueryShell.Proofs.Eval.LastValue
import QueryShell.Proofs.Eval.Literal
import QueryShell.Proofs.Eval.Noninterference
import QueryShell.Proofs.Eval.Pairing
import QueryShell.Proofs.Eval.Position
import QueryShell.Proofs.Eval.Unread
import QueryShell.Proofs.Filter.Interchange
import QueryShell.Proofs.Lazy.Entries
import QueryShell.Proofs.Lazy.Interleaving
import QueryShell.Proofs.Session.History
import QueryShell.Proofs.Session.Views
import QueryShell.Proofs.Shell.Results
import QueryShell.Proofs.Stream.Scope
import QueryShell.Proofs.Value.Arithmetic
import QueryShell.Proofs.Value.Congruence
import QueryShell.Proofs.Value.Faultless
import QueryShell.Proofs.Value.Repetition
import QueryShell.Proofs.Value.Serialization
