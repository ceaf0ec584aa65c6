/-
# The report of a verification

A report has one finding per check, in the order of the configuration, and the counters
of the reader and of the flash link.  It is shown as text (`Report.text`) and written as
a table of comma-separated rows (`Report.table`).
-/

import WeightLink.Blob.Reader
import WeightLink.Verify.Config

namespace WeightLink
namespace Verify

/-- What a check found. -/
structure Finding where
  name : String
  /-- The hash that the tensors have. -/
  hash : UInt32
  expected : Option UInt32
  /-- How many elements were asked for. -/
  elements : Nat
  deriving DecidableEq, Repr

/-- Whether the hash is the expected one.  A check without an expected hash agrees. -/
def Finding.agrees (r : Finding) : Bool := r.expected.all (· == r.hash)

/-- What a verification over the flash link took. -/
structure FlashUse where
  stats : Flash.Link.Stats
  /-- Words that the window fetched. -/
  wordReads : Nat
  deriving DecidableEq, Repr

/-- The report of a verification. -/
structure Report where
  findings : List Finding
  magic : UInt32
  variant : Blob.Variant
  stream : Blob.Stats
  /-- What it took, if the blob was behind the flash link. -/
  flash : Option FlashUse
  deriving DecidableEq, Repr

namespace Report

/-- Whether every check agrees. -/
def agrees (r : Report) : Bool := r.findings.all Finding.agrees

/-- The lines of one finding: its hash, and the expected one if it is another. -/
def findingText (c : Finding) : String :=
  let hash := Word.hex c.hash
  let mismatch :=
    if c.agrees then ""
    else "  MISMATCH: expected " ++ Word.hex (c.expected.getD 0) ++ ", got " ++ hash ++ "\n"
  "Hash " ++ c.name ++ ": " ++ hash ++ "\n" ++ mismatch

/-- The line of the reader's counters. -/
def streamText (variant : Blob.Variant) (s : Blob.Stats) : String :=
  "[Verify] blob " ++ variant.name ++ s!" tensors={s.tensors} blocks={s.blocks} "
    ++ s!"bytes={s.bytes} count_warnings={s.warnings}\n"

/-- The line of the flash link's counters, with the mean latency to one place. -/
def flashText (f : FlashUse) : String :=
  let s := f.stats
  s!"[Verify] flash cycles={s.total} busy={s.busy} stalls={s.stall} transactions={s.reads} "
    ++ s!"wake_cmds={s.wakeCommands} word_reads={f.wordReads} latency(avg/max)="
    ++ s.latency.mean.toTenths ++ s!"/{s.latency.max}\n"

/-- The report as text. -/
def text (r : Report) : String :=
  String.join (r.findings.map findingText) ++ streamText r.variant r.stream
    ++ (r.flash.map flashText).getD ""
    ++ "[Verify] " ++ (if r.agrees then "All hashes match." else "Hash mismatch.") ++ "\n"

/-- The row of one finding.  A name is written as it is. -/
def row (c : Finding) : String :=
  String.intercalate ","
    [c.name, toString c.elements, Word.hex c.hash, (c.expected.map Word.hex).getD "",
      if c.agrees then "1" else "0"] ++ "\n"

/-- The header of the table. -/
def tableHeader : String := "check,elements,hash,expected,match\n"

/-- The two comment lines with the totals. -/
def totals (r : Report) : String :=
  let f := (r.flash.map FlashUse.stats).getD .zero
  "# tensors,blocks,bytes,flash_cycles,flash_transactions,flash_wake_cmds,flash_max_latency\n"
    ++ s!"# {r.stream.tensors},{r.stream.blocks},{r.stream.bytes},"
    ++ s!"{f.total},{f.reads},{f.wakeCommands},{f.latency.max}\n"

/-- The report as a table: a header, a row per finding, and the totals. -/
def table (r : Report) : String :=
  tableHeader ++ String.join (r.findings.map row) ++ r.totals

end Report
end Verify
end WeightLink
