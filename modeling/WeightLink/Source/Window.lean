/-
# A blob behind the flash link

The source that fetches its bytes over the link.  The link serves whole aligned words,
so the window holds the word that it fetched last, together with the generation of the
device contents it was fetched under: consecutive bytes of one word cost one bus read,
and a word from before a reload is not used any more.

A window does not own its link.  Several windows may share one, so the state of a read
is a window together with the link (`FlashSource`).
-/

import WeightLink.Flash.Link
import WeightLink.Source.Basic

namespace WeightLink
namespace Flash

/-- A word that was fetched. -/
structure Window.Held where
  address : UInt32
  word : UInt32
  /-- The generation of the device contents. -/
  generation : Nat
  deriving DecidableEq, Repr

/-- A window of bus addresses onto the device. -/
structure Window where
  size : Nat
  held : Option Window.Held
  /-- How many words were fetched. -/
  wordReads : Nat
  deriving DecidableEq, Repr

/-- A window and the link that it fetches over. -/
structure FlashSource where
  window : Window
  link : Link

namespace Window

/-- The size of a window unless told otherwise. -/
def defaultSize : UInt32 := 0x100000

/-- The largest window. -/
def maxSize : Nat := 0x1000000

/-- A window that holds no word. -/
def create (size : Nat) : Except Fault Window :=
  if size = 0 ∨ maxSize < size then .error (.windowSize size) else .ok ⟨size, none, 0⟩

/-- Refuses a range that is not inside the window. -/
def inside (w : Window) (position count : Nat) : Except Fault Unit :=
  if w.size < position + count then .error (.flashBounds position count w.size) else .ok ()

theorem inside_eq_ok_iff {w : Window} {position count : Nat} :
    w.inside position count = .ok () ↔ position + count ≤ w.size := by
  unfold inside
  split <;> simp <;> omega

/-- The window without a word that was fetched under another generation. -/
def refresh (w : Window) (generation : Nat) : Window :=
  { w with held := w.held.filter fun h => decide (h.generation = generation) }

/-- The address of the aligned word that holds a byte. -/
def wordAddress (position : Nat) : UInt32 := UInt32.ofNat (position / 4 * 4)

end Window

namespace FlashSource

/-- Runs an action of the link. -/
def onLink {α : Type} (m : Action Link α) : Action FlashSource α :=
  Action.within FlashSource.link (fun link s => { s with link }) m

/-- Drops a held word that is out of date. -/
def refresh : Action FlashSource Unit :=
  Action.modify fun s => { s with window := s.window.refresh s.link.device.generation }

/-- Fetches a word and holds it. -/
def fetch (address : UInt32) : Action FlashSource UInt32 := do
  let word ← onLink (Link.readWord address)
  Action.modify fun s =>
    { s with
      window :=
        { s.window with
          held := some ⟨address, word, s.link.device.generation⟩
          wordReads := s.window.wordReads + 1 } }
  return word

/-- The byte at a position, out of the held word if that is the right one. -/
def readByte (position : Nat) : Action FlashSource UInt8 := do
  let s ← Action.get
  let address := Window.wordAddress position
  let word ←
    match s.window.held with
    | some h => if h.address = address then pure h.word else fetch address
    | none => fetch address
  return Word.byte word (position % 4)

/-- The bytes from a position onwards, one after the other. -/
def readBytes (position : Nat) : (count : Nat) → Action FlashSource (Vector UInt8 count)
  | 0 => pure #v[]
  | count + 1 => do
    let front ← readBytes position count
    let last ← readByte (position + count)
    return front.push last

/-- Reads `count` bytes from a position onwards. -/
def read (position count : Nat) : Action FlashSource (Vector UInt8 count) := do
  let s ← Action.get
  Action.check (s.window.inside position count)
  if count ≠ 0 then refresh
  readBytes position count

/-- A read by a caller who has no room for the bytes: there must be none. -/
def readNowhere (s : FlashSource) (position count : Nat) : Except Fault Unit := do
  s.window.inside position count
  if count = 0 then return () else throw (.missing .flashBytes)

instance : Source FlashSource where
  name := "flash"
  size s := s.window.size
  read := read

end FlashSource
end Flash
end WeightLink
