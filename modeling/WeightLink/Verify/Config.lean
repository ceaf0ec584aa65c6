/-
# The configuration of a verification

A configuration is a JSON object: where the blob is kept, who decodes it, the settings
of the flash link, and the checks.  A check names the element counts of the tensors
that it takes from the blob, one after the other, and the hash that they should have.

Settings that are numbers have to be unsigned integers in the bounds of their setting;
nothing is rounded or wrapped.  A hash may be a signed integer too, or a text, which is a
numeral of 64 bits with a base of its own (`Numeral`) and negates modulo `2 ^ 64`.

A value of a wrong type is refused by the configuration where it looks at the type.  Where
a text is expected it does not look, and the JSON library refuses the value.
-/

import WeightLink.Fault
import WeightLink.Source.Window
import WeightLink.Text.Numeral

namespace WeightLink
namespace Verify

/-- Where a blob is kept while it is read. -/
inductive Backing where
  | memory
  | flash
  deriving DecidableEq, Repr

namespace Backing

/-- All backings. -/
def all : List Backing := [memory, flash]

/-- The name of a backing. -/
def name : Backing → String
  | memory => "memory"
  | flash => "flash"

/-- The backing with a given name. -/
def ofName (s : String) : Except Fault Backing :=
  match all.find? fun b => decide (b.name = s) with
  | some b => .ok b
  | none => .error (.unknownBacking s)

/-- The name of the backing with a given number; a number past the last one is unknown. -/
def nameAt (n : Nat) : String := (all[n]?.map name).getD "unknown"

theorem ofName_name (b : Backing) : ofName b.name = .ok b := by
  cases b <;> simp [ofName, all, name]

end Backing

/-- Some tensors that are hashed together. -/
structure Check where
  name : String
  /-- The element counts of the tensors, in the order of the blob. -/
  tensors : List UInt32
  expected : Option UInt32
  deriving DecidableEq, Repr

/-- The settings of a verification. -/
structure Config where
  backing : Backing
  decoder : Decoder
  /-- The elements that a tensor may have. -/
  scratch : Nat
  link : Flash.Link.Config
  /-- The size of the weight window. -/
  window : UInt32
  checks : List Check
  /-- The file that the report is written to as a table, if any. -/
  table : String
  deriving DecidableEq, Repr

namespace Config

/-- The largest 32-bit setting. -/
def maxWord : Nat := 0xFFFFFFFF

/-- The largest 64-bit setting. -/
def maxWord64 : Nat := 0xFFFFFFFFFFFFFFFF

/-- The settings of the flash link and of the window, unless told otherwise. -/
def defaultLink : Flash.Link.Config × UInt32 := (.default, Flash.Window.defaultSize)

/-- An unsigned integer up to a limit, under a name for the message. -/
def unsigned (name : String) (limit : Nat) (v : Json) : Except Fault Nat :=
  match v with
  | .number (.unsigned n) =>
    if n.toNat ≤ limit then .ok n.toNat else .error (.unsignedBounds name n.toNat)
  | _ => .error (.notUnsigned name v)

/-- The integer under a key, or a default. -/
def unsignedOr (fields : List (String × Json)) (scope key : String) (default limit : Nat) :
    Except Fault Nat :=
  match Json.get? key fields with
  | none => .ok default
  | some v => unsigned (scope ++ key) limit v

/-- The 32-bit integer under a key, or a default. -/
def wordOr (fields : List (String × Json)) (scope key : String) (default : UInt32) :
    Except Fault UInt32 :=
  (unsignedOr fields scope key default.toNat maxWord).map UInt32.ofNat

/-- The truth value under a key, or a default. -/
def boolOr (fields : List (String × Json)) (scope key : String) (default : Bool) :
    Except Fault Bool :=
  match Json.get? key fields with
  | none => .ok default
  | some (.bool b) => .ok b
  | some _ => .error (.notBoolean (scope ++ key))

/-- The text under a key, or a default. -/
def textOr (fields : List (String × Json)) (key default : String) : Except Fault String :=
  match Json.get? key fields with
  | none => .ok default
  | some (.string s) => .ok s
  | some v => .error (.jsonText v)

/-- The settings in the object for the flash link. -/
def linkOfFields (fields : List (String × Json)) : Except Fault (Flash.Link.Config × UInt32) := do
  let (link, window) := defaultLink
  let offset ← wordOr fields "flash." "offset" link.engine.offset
  let divider ← wordOr fields "flash." "clk_div" link.engine.divider
  let wakeOnBoot ← boolOr fields "flash." "wake_on_boot" link.engine.wakeOnBoot
  let wakeDelay ← wordOr fields "flash." "wake_delay" link.engine.wakeDelay
  let window ← wordOr fields "flash." "window_bytes" window
  let maxWaitCycles ←
    unsignedOr fields "flash." "max_wait_cycles" link.maxWaitCycles maxWord64
  let deviceRequiresWake ←
    boolOr fields "flash." "device_requires_wake" link.deviceRequiresWake
  if Flash.Device.maxCapacity ≤ offset.toNat then throw .flashOffset
  if window = 0 ∨ Flash.Window.maxSize < window.toNat then throw .flashWindow
  return (⟨⟨offset, divider, wakeOnBoot, wakeDelay⟩, link.deviceBytes, deviceRequiresWake,
    maxWaitCycles⟩, window)

/-- The settings of the flash link. -/
def linkOf (fields : List (String × Json)) : Except Fault (Flash.Link.Config × UInt32) :=
  match Json.get? "flash" fields with
  | none => .ok defaultLink
  | some (.object link) => linkOfFields link
  | some _ => .error .flashObject

/-- A hash written as a text. -/
def hashOfText (s : String) : Except Fault UInt32 :=
  match Numeral.read s.toList with
  | none => .error (.hashText s)
  | some n =>
    match n.word64? with
    | none => .error (.hashText s)
    | some w =>
      if n.rest ≠ [] ∨ maxWord < w.toNat then .error (.hashTail s) else .ok w.toUInt32

/-- A hash written as an integer. -/
def hashOfInteger (n : Int64) : Except Fault UInt32 :=
  if n < 0 ∨ 0xFFFFFFFF < n then .error .hashBounds else .ok n.toUInt64.toUInt32

/-- An expected hash.  An unsigned integer is looked at as a signed one, so one that has no room
there is negative. -/
def hashOf (v : Json) : Except Fault UInt32 :=
  match v with
  | .number (.unsigned n) => hashOfInteger n.toInt64
  | .number (.signed n) => hashOfInteger n
  | .string s => hashOfText s
  | _ => .error .hashKind

/-- The element counts of a check. -/
def countsOf (check : String) : List Json → Except Fault (List UInt32)
  | [] => .ok []
  | v :: rest => do
    let n ← unsigned ("check '" ++ check ++ "' tensor count") maxWord v
    let ns ← countsOf check rest
    return UInt32.ofNat n :: ns

/-- The check with a given number, which gives it a name if it has none. -/
def checkOf (number : Nat) (v : Json) : Except Fault Check :=
  match v with
  | .object fields => do
    let name ← textOr fields "name" ("check" ++ toString number)
    match Json.get? "tensors" fields with
    | some (.array counts) =>
      let tensors ← countsOf name counts
      let expected ← (Json.get? "expected_hash" fields).mapM hashOf
      return ⟨name, tensors, expected⟩
    | _ => throw (.tensorsArray name)
  | _ => .error (.jsonObject v)

/-- The checks, the first of which has the given number. -/
def checksOf (number : Nat) : List Json → Except Fault (List Check)
  | [] => .ok []
  | v :: rest => do
    let check ← checkOf number v
    let checks ← checksOf (number + 1) rest
    return check :: checks

/-- The configuration in the fields of an object. -/
def ofFields (fields : List (String × Json)) : Except Fault Config := do
  let backing ← (textOr fields "backing" "memory").bind Backing.ofName
  let decoder ← (textOr fields "decoder" "host").bind Decoder.ofName
  let scratch ← unsignedOr fields "" "scratch_capacity" Blob.defaultScratch maxWord64
  if scratch = 0 then throw .scratchZero
  let (link, window) ← linkOf fields
  match Json.get? "checks" fields with
  | some (.array checks) =>
    let checks ← checksOf 0 checks
    let table ← textOr fields "stats_csv" ""
    return ⟨backing, decoder, scratch, link, window, checks, table⟩
  | _ => throw .checksArray

/-- The configuration that a JSON value describes. -/
def ofJson (v : Json) : Except Fault Config :=
  match v with
  | .object fields => ofFields fields
  | _ => .error .configTopLevel

/-- The configuration that a text describes, as a library reads it. -/
def ofText (library : Json.Library) (text : Bytes) : Except Fault Config :=
  match library.parse text with
  | .error message => .error (.jsonSyntax message)
  | .ok v => ofJson v

end Config
end Verify
end WeightLink
