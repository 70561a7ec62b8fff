import ControlStream.Color.Packed
import ControlStream.Text.ControlChar

/-!
# Answers to color queries

A program may ask for a color. The answer is itself a command that sets the color: each channel
with sixteen bits, its byte written twice.

## Main definitions

* `colorAnswer`: the answer for a selector such as `10` or `4;7`.
-/

namespace ControlStream

/-- A channel with sixteen bits in hexadecimal: the byte twice. -/
def wideChannel (b : UInt8) : String := hexByte b ++ hexByte b

/-- The command that sets the color named by a selector. -/
def colorAnswer (selector : String) (c : Color) : String :=
  let rgb := c.toRgb
  ControlChar.esc.toString ++ "]" ++ selector ++ ";rgb:" ++ wideChannel rgb.red ++ "/"
    ++ wideChannel rgb.green ++ "/" ++ wideChannel rgb.blue ++ ControlChar.bel.toString

end ControlStream
