import ControlStream.Base64
import ControlStream.GraphicSet
import ControlStream.Clipboard
import ControlStream.Text.Quoted

/-!
# Events

What the interpreter has to say about its work: sequences it acts on, sequences it ignores and
why. Events have no effect.

## Main definitions

* `Event`: something worth noting.
* `Event.level`, `Event.message`, `Event.record`: how much it matters and how it reads.
-/

namespace ControlStream

inductive Level
  /-- Something the stream should not have asked for. -/
  | warn
  /-- A sequence that was understood, or ignored as a whole. -/
  | debug
  /-- A single character that was ignored. -/
  | trace
  deriving DecidableEq, Repr

def Level.name : Level → String
  | warn => "WARN"
  | debug => "DEBUG"
  | trace => "TRACE"

inductive Event
  | ignoredControl (c : Char)
  /-- A C1 control character that starts nothing. -/
  | ignoredC1 (c : Char)
  /-- An escape sequence of a single unknown character. -/
  | ignoredEscape (final : Char)
  | ignoredIntermediate (intermediate final : Char)
  | designated (slot : UInt8) (charset : Charset)
  | ignoredDesignation (slot : UInt8) (final : Char)
  | fullReset
  | insertMode (enabled : Bool)
  | ignoredMode (mode : Nat)
  | cursorVisible (enabled : Bool)
  | ignoredPrivateMode (mode : Nat)
  | ignoredCsi (marker : Option Char) (params : List Nat) (intermediates : String) (final : Char)
  | malformedCsi (final : Char)
  | tooManyParameters (limit : Nat)
  | ignoredString (length : Nat)
  | overflow (limit : Nat)
  | commandWithoutArgument (payload : String)
  | commandTooLong (selector : String) (limit : Nat)
  | unknownCommand (selector : String)
  | windowTitle (title : String)
  | iconTitle (title : String)
  | workdir (path : String)
  | ignoredHyperlink
  /-- A color query that is answered, if that is allowed. -/
  | colorAnswer (answer : String)
  /-- A default color asked for by something other than a question mark. -/
  | unreadableDefault (selector : Nat) (spec : String)
  /-- A color index that is not a number below 256. -/
  | invalidIndex (command : Nat) (index : String)
  | invalidColor (spec : String)
  | unknownSelection (target data : String)
  | clipboardForbidden
  | clipboardQuery
  | clipboardTooLong (size limit : Nat)
  | clipboardNotBase64 (error : Base64.Error)
  | clipboardCopy (length : Nat)
  | clipboardFailed (error : ClipboardError)
  deriving DecidableEq, Repr

namespace Event

def level : Event → Level
  | ignoredControl _ => .trace
  | overflow _ | commandTooLong _ _ | unknownCommand _ | invalidIndex _ _ | invalidColor _
  | unknownSelection _ _ | clipboardForbidden | clipboardTooLong _ _ | clipboardNotBase64 _
  | clipboardFailed _ => .warn
  | _ => .debug

def quoteMarker : Option Char → String
  | none => "None"
  | some c => "Some(" ++ quoteChar c ++ ")"

def paramsText (params : List Nat) : String := "[" ++ ", ".intercalate (params.map toString) ++ "]"

def message : Event → String
  | ignoredControl c => s!"Ignore control {quoteChar c}"
  | ignoredC1 c => s!"Ignore C1 control {quoteChar c}"
  | ignoredEscape final => s!"Ignore ESC {quoteChar final}"
  | ignoredIntermediate intermediate final =>
    s!"Ignore ESC {quoteChar intermediate} {quoteChar final}"
  | designated slot charset => s!"Designate G{slot.toNat}: {charset.name}"
  | ignoredDesignation slot final => s!"Ignore designation G{slot.toNat} {quoteChar final}"
  | fullReset => "Full reset (RIS)"
  | insertMode enabled => s!"Insert mode: {enabled}"
  | ignoredMode mode => s!"Ignore ANSI mode {mode}"
  | cursorVisible enabled => s!"Cursor visible: {enabled}"
  | ignoredPrivateMode mode => s!"Ignore DEC private mode {mode}"
  | ignoredCsi marker params intermediates final =>
    "Ignore CSI " ++ quoteMarker marker ++ " " ++ paramsText params ++ " "
      ++ quoteText intermediates ++ " " ++ quoteChar final
  | malformedCsi final => s!"Ignore malformed CSI ending in {quoteChar final}"
  | tooManyParameters limit => s!"CSI with more than {limit} parameters"
  | ignoredString length => s!"Ignore control string ({length} characters)"
  | overflow limit => s!"OSC payload longer than {limit} characters discarded"
  | commandWithoutArgument payload => s!"OSC without parameters ignored: {quoteText payload}"
  | commandTooLong selector limit =>
    s!"OSC {selector} payload longer than {limit} characters discarded"
  | unknownCommand selector => s!"Unknown OSC: {selector}"
  | windowTitle title => s!"Window Title: {title}"
  | iconTitle title => s!"Icon Title: {title}"
  | workdir path => s!"Workdir: {path}"
  | ignoredHyperlink => "Ignore hyperlink OSC: 8"
  | colorAnswer answer => s!"OSC reply color: {quoteText answer}"
  | unreadableDefault selector spec =>
    s!"OSC {selector}: answering unparsed color spec {quoteText spec}"
  | invalidIndex command index => s!"OSC {command}: invalid color index {quoteText index}"
  | invalidColor spec => s!"OSC 4: invalid color spec {quoteText spec}"
  | unknownSelection target data => s!"Manipulate Selection Data. Unknown: ({target}, {data})"
  | clipboardForbidden => "OSC 52 clipboard request blocked (disabled in config)"
  | clipboardQuery => "OSC 52 clipboard query not supported"
  | clipboardTooLong size limit =>
    s!"OSC 52 clipboard request blocked: payload size {size} exceeds limit {limit}"
  | clipboardNotBase64 error => s!"OSC 52 clipboard: invalid base64 data: {error.message}"
  | clipboardCopy length => s!"Copy {length} characters to clipboard"
  | clipboardFailed error => s!"OSC 52 clipboard: failed to set clipboard: {error.message}"

def record (e : Event) : String := e.level.name ++ " " ++ e.message

end Event

end ControlStream
