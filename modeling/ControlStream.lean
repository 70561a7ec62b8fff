import ControlStream.Inspect
import ControlStream.Main
import ControlStream.Proofs.Division
import ControlStream.Proofs.Termination
import ControlStream.Proofs.Interchange
import ControlStream.Proofs.Strings
import ControlStream.Proofs.ControlSequences
import ControlStream.Proofs.Actions
import ControlStream.Proofs.FullReset
import ControlStream.Proofs.Commands
import ControlStream.Proofs.ClipboardWrites
import ControlStream.Proofs.ColorAnswers
import ControlStream.Proofs.History
import ControlStream.Proofs.Replies
import ControlStream.Proofs.Fillers
import ControlStream.Proofs.EmbeddedControls
import ControlStream.Proofs.Framing
import ControlStream.Proofs.ClipboardGate
import ControlStream.Proofs.InsertMode
import ControlStream.Proofs.Decoding
import ControlStream.Proofs.PageShape
import ControlStream.Proofs.SnapshotRoundTrip
import ControlStream.Proofs.WidePairs
import ControlStream.Proofs.ControlGrammar
import ControlStream.Proofs.ControlMeaning
import ControlStream.Proofs.SettingsText
import ControlStream.Proofs.ColorSpecs
import ControlStream.Proofs.CommandNumbers
import ControlStream.Proofs.EscapeMeaning
import ControlStream.Proofs.Payloads
import ControlStream.Proofs.ColorPairs
import ControlStream.Proofs.ColorHistory
import ControlStream.Proofs.Packing
import ControlStream.Proofs.ForwardText
import ControlStream.Proofs.Insertion
import ControlStream.Proofs.GraphicHistory
import ControlStream.Proofs.GraphicSteps
import ControlStream.Proofs.GraphicStream
import ControlStream.Proofs.SingleShift
