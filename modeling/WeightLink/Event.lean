/-
# What is logged

The library reports progress and oddities while it works.  An event is what
happened; `Event.text` is its line, and `Event.isWarning` says whether the line
belongs to the error channel.
-/

import WeightLink.Blob.Format
import WeightLink.Block.Decoder

namespace WeightLink

/-- Something worth a line in the log. -/
inductive Event where
  /-- The engine took the flash device out of deep power-down. -/
  | wakeComplete (cycles commands : Nat)
  /-- A blob has one of the two magics. -/
  | magicAccepted (magic : UInt32) (source : String) (decoder : Decoder)
  /-- A blob has another magic. -/
  | magicRefused (magic : UInt32) (source : String)
  /-- A source is too short for a blob. -/
  | shortSource (source : String) (size : Nat)
  /-- A record has another number of elements than was asked for. -/
  | countMismatch (position : Nat) (elements requested : UInt32)
  deriving DecidableEq, Repr

namespace Event

/-- Whether the event goes to the error channel. -/
def isWarning : Event → Bool
  | wakeComplete .. | magicAccepted .. => false
  | magicRefused .. | shortSource .. | countMismatch .. => true

/-- The line of an event. -/
def text : Event → String
  | wakeComplete cycles commands =>
    s!"[FlashClock] wake sequence complete after {cycles} cycles ({commands} commands)\n"
  | magicAccepted magic source decoder =>
    "[WeightStream] magic " ++ Word.hex magic ++ " (" ++ (Blob.Variant.ofMagic magic).name
      ++ ") via " ++ source ++ ", decoder " ++ decoder.name ++ "\n"
  | magicRefused magic source =>
    "[WeightStream] bad magic " ++ Word.hex magic ++ " via " ++ source ++ "\n"
  | shortSource source size =>
    s!"[WeightStream] source ({source}) holds {size} bytes, shorter than the blob header\n"
  | countMismatch position elements requested =>
    s!"[WARN] WeightStream: record at {position} has {elements} elements, "
      ++ s!"consumer expects {requested}\n"

/-- The lines of the events of one channel. -/
def lines (warnings : Bool) (events : List Event) : String :=
  String.join ((events.filter fun e => e.isWarning = warnings).map text)

end Event
end WeightLink
