/-
# The verdict of the program

The exit code of a verification says whether the blob is the right one, and it says so if and only
if everything on the way to the answer went well.  This is stated for any machine: its files may
answer as they like, and looking at one file may change the others (`Storage.Opens`), its JSON
library may read a configuration as it likes, and it may have any amount of memory
(`CommandLine.Verified`).

`0` and `1` mean that the configuration was accepted, there was memory for the scratch buffer, the
blob was read through its backing and decoder for all checks, and the table was written if one was
asked for; `0` that every check holds, `1` that one does not, and everything else is `2`
(`CommandLine.verdict`).
-/

import WeightLink.CommandLine
import WeightLink.Json.Parser
import WeightLink.Proofs.Verify.Findings

namespace WeightLink

variable {Files : Type} (s : Storage (StateM Files))

/-- An access to files sees what the one before it has left. -/
theorem run_access {α β : Type} (m : StateM Files α) (f : α → StateM Files β) (files : Files) :
    (m >>= f).run files = (f (m.run files).1).run (m.run files).2 := rfl

namespace Storage

/-- The files after a look at a path. -/
def afterRead (path : String) (files : Files) : Files := ((s.read path).run files).2

/-- Whether a path stands for a file, and with which contents. -/
def Shows (path : String) (files : Files) (bytes : Bytes) : Prop :=
  ((s.read path).run files).1 = .file bytes

/-- The directories on the way to a path can be made, and then bytes can be written there. -/
def Opens (path : String) (bytes : Bytes) (files : Files) : Prop :=
  ((s.makeParents path).run files).1 = .ok () ∧
    ((s.write path bytes).run ((s.makeParents path).run files).2).1 = true

theorem run_readFile (path : String) (absent : Fault) (files : Files) :
    (∃ bytes, s.Shows path files bytes ∧
      (s.readFile path absent).run files = (.ok bytes, s.afterRead path files)) ∨
    (¬∃ bytes, s.Shows path files bytes) ∧
      ∃ e, (s.readFile path absent).run files = (.error e, s.afterRead path files) := by
  unfold readFile Shows afterRead
  rw [run_access]
  cases ((s.read path).run files).1 with
  | absent => exact .inr ⟨fun ⟨bytes, h⟩ => (nomatch h), _, rfl⟩
  | directory => exact .inr ⟨fun ⟨bytes, h⟩ => (nomatch h), _, rfl⟩
  | file bytes => exact .inl ⟨bytes, rfl, rfl⟩

end Storage

namespace CommandLine

open Verify (shares)

variable (machine : Machine (StateM Files)) (report : Verify.Report) (files : Files)

theorem run_writeTable (path : String) :
    (s.Opens path report.table.toUTF8.data files ∧
      ∃ line, ((writeTable s path report).run files).1 = .ok line) ∨
    (¬s.Opens path report.table.toUTF8.data files ∧
      ∃ e, ((writeTable s path report).run files).1 = .error e) := by
  unfold writeTable Storage.Opens
  rw [run_access]
  cases ((s.makeParents path).run files).1 with
  | error obstacle => exact .inr ⟨fun h => (nomatch h.1), _, rfl⟩
  | ok =>
    dsimp only
    rw [run_access]
    cases ((s.write path report.table.toUTF8.data).run ((s.makeParents path).run files).2).1 with
    | false => exact .inr ⟨fun h => (nomatch h.2), _, rfl⟩
    | true => exact .inl ⟨⟨rfl, rfl⟩, _, rfl⟩

/-- A table that is written, or that nobody asked for, leaves the code to the report. -/
theorem code_finish (table output errors : String) :
    ((table ≠ "" → machine.storage.Opens table report.table.toUTF8.data files) ∧
      ((finish machine table output errors report).run files).1.code =
        if report.agrees then 0 else 1) ∨
    (¬(table ≠ "" → machine.storage.Opens table report.table.toUTF8.data files) ∧
      ((finish machine table output errors report).run files).1.code = 2) := by
  unfold finish
  by_cases htable : table = ""
  · rw [if_pos htable]
    exact .inl ⟨fun h => absurd htable h, rfl⟩
  rw [if_neg htable, run_access]
  rcases run_writeTable machine.storage report files table with
    ⟨hopens, line, hline⟩ | ⟨hopens, e, he⟩
  · rw [hline]
    exact .inl ⟨fun _ => hopens, rfl⟩
  · rw [he]
    exact .inr ⟨fun h => hopens (h htable), rfl⟩

/-- A verification that gives a report, whose table is written if one is asked for. -/
structure Delivers (machine : Machine (StateM Files)) (files : Files) (blob : Bytes)
    (cfg : Verify.Config) (report : Verify.Report) : Prop where
  run_eq : (Verify.runWithin machine.grants blob cfg).1 = .ok report
  opens : cfg.table ≠ "" → machine.storage.Opens cfg.table report.table.toUTF8.data files

theorem code_verify (path : String) (blob : Bytes) (cfg : Verify.Config) :
    (∃ report, Delivers machine files blob cfg report ∧
      ((verify machine path blob cfg).run files).1.code = if report.agrees then 0 else 1) ∨
    (¬∃ report, Delivers machine files blob cfg report) ∧
      ((verify machine path blob cfg).run files).1.code = 2 := by
  unfold verify
  dsimp only
  cases hrun : (Verify.runWithin machine.grants blob cfg).1 with
  | error e => exact .inr ⟨fun ⟨report, h⟩ => (nomatch hrun.symm.trans h.run_eq), rfl⟩
  | ok report =>
    rcases code_finish machine report files cfg.table
        (heading path blob cfg ++
          Event.lines false (Verify.runWithin machine.grants blob cfg).2)
        (Event.lines true (Verify.runWithin machine.grants blob cfg).2) with
      ⟨hopens, hcode⟩ | ⟨hopens, hcode⟩
    · exact .inl ⟨report, ⟨hrun, hopens⟩, hcode⟩
    · refine .inr ⟨fun ⟨report', h⟩ => hopens ?_, hcode⟩
      obtain rfl := Except.ok.inj (hrun.symm.trans h.run_eq)
      exact h.opens

/-- The exit code of the program, on some files and with some arguments. -/
def exitCode (machine : Machine (StateM Files)) (files : Files) (program : String)
    (args : List String) : Nat := ((run machine program args).run files).1.code

/-- A text holds a value, and the value is an accepted configuration. -/
def Configures (library : Json.Library) (bytes : Bytes) (cfg : Verify.Config) : Prop :=
  ∃ v, library.parse bytes = .ok v ∧ Verify.Config.ofJson v = .ok cfg

theorem configOf_eq_ok_iff {library : Json.Library} {bytes : Bytes} {cfg : Verify.Config} :
    configOf library (.ok bytes) = .ok cfg ↔ Configures library bytes cfg := by
  change Verify.Config.ofText library bytes = .ok cfg ↔ _
  unfold Verify.Config.ofText Configures
  cases library.parse bytes with
  | error message => exact iff_of_false nofun fun ⟨v, hv, _⟩ => nomatch hv
  | ok v =>
    constructor
    · exact fun h => ⟨v, rfl, h⟩
    · rintro ⟨v', hv, h⟩
      obtain rfl := Except.ok.inj hv
      exact h

/-- The configuration and the blob that the program starts with: both are files, and the first of
them holds a configuration. -/
structure Loads (machine : Machine (StateM Files)) (files : Files) (blobPath configPath : String)
    (blob : Bytes) (cfg : Verify.Config) : Prop where
  config : ∃ bytes, machine.storage.Shows configPath files bytes ∧
    Configures machine.library bytes cfg
  blob : machine.storage.Shows blobPath (machine.storage.afterRead configPath files) blob

/-- The files after the program has looked at both. -/
def afterLoad (machine : Machine (StateM Files)) (blobPath configPath : String)
    (files : Files) : Files :=
  machine.storage.afterRead blobPath (machine.storage.afterRead configPath files)

variable {machine files} {blobPath configPath : String} {blob blob' : Bytes}
  {cfg cfg' : Verify.Config}

theorem Loads.unique (h : Loads machine files blobPath configPath blob cfg)
    (h' : Loads machine files blobPath configPath blob' cfg') : blob = blob' ∧ cfg = cfg' := by
  obtain ⟨bytes, hshows, hcfg⟩ := h.config
  obtain ⟨bytes', hshows', hcfg'⟩ := h'.config
  obtain rfl := Storage.Entry.file.inj (hshows.symm.trans hshows')
  exact ⟨Storage.Entry.file.inj (h.blob.symm.trans h'.blob),
    Except.ok.inj ((configOf_eq_ok_iff.2 hcfg).symm.trans (configOf_eq_ok_iff.2 hcfg'))⟩

variable (machine files)

/-- The program verifies what it can load. -/
theorem run_loads (program blobArg configArg : String) (rest : List String) :
    (∃ blob cfg, Loads machine files (terminated blobArg) (terminated configArg) blob cfg ∧
      exitCode machine files program (blobArg :: configArg :: rest) =
        ((verify machine (terminated blobArg) blob cfg).run
          (afterLoad machine (terminated blobArg) (terminated configArg) files)).1.code) ∨
    (¬∃ blob cfg, Loads machine files (terminated blobArg) (terminated configArg) blob cfg) ∧
      exitCode machine files program (blobArg :: configArg :: rest) = 2 := by
  unfold exitCode run
  simp only [List.map_cons]
  rw [run_access]
  rcases machine.storage.run_readFile (terminated configArg) (.configOpen (terminated configArg))
      files with ⟨bytes, hbytes, hread⟩ | ⟨habsent, e, hread⟩
  · rw [hread]
    dsimp only
    cases hcfg : configOf machine.library (.ok bytes) with
    | error e =>
      refine .inr ⟨fun ⟨blob, cfg, ⟨bytes', hbytes', hcfg'⟩, _⟩ => ?_, rfl⟩
      obtain rfl := Storage.Entry.file.inj (hbytes.symm.trans hbytes')
      exact nomatch hcfg.symm.trans (configOf_eq_ok_iff.2 hcfg')
    | ok cfg =>
      -- The blob is opened in the files that the look at the configuration has left.
      dsimp only
      rw [run_access, Storage.readBlob]
      rcases machine.storage.run_readFile (terminated blobArg) (.blobOpen (terminated blobArg))
          (machine.storage.afterRead (terminated configArg) files) with
        ⟨blob, hblob, hread'⟩ | ⟨habsent, e, hread'⟩
      · rw [hread']
        exact .inl ⟨blob, cfg, ⟨⟨bytes, hbytes, configOf_eq_ok_iff.1 hcfg⟩, hblob⟩, rfl⟩
      · rw [hread']
        exact .inr ⟨fun ⟨blob, cfg, _, hblob⟩ => habsent ⟨blob, hblob⟩, rfl⟩
  · rw [hread]
    exact .inr ⟨fun ⟨blob, cfg, ⟨bytes, hbytes, _⟩, _⟩ => habsent ⟨bytes, hbytes⟩, rfl⟩

/-- The program loads its files and delivers a report. -/
def Succeeds (machine : Machine (StateM Files)) (files : Files) (blobPath configPath : String)
    (report : Verify.Report) : Prop :=
  ∃ blob cfg, Loads machine files blobPath configPath blob cfg ∧
    Delivers machine (afterLoad machine blobPath configPath files) blob cfg report

variable {machine files} in
theorem Succeeds.unique {report report' : Verify.Report}
    (h : Succeeds machine files blobPath configPath report)
    (h' : Succeeds machine files blobPath configPath report') : report = report' := by
  obtain ⟨blob, cfg, hl, hr⟩ := h
  obtain ⟨blob', cfg', hl', hr'⟩ := h'
  obtain ⟨rfl, rfl⟩ := hl.unique hl'
  exact Except.ok.inj (hr.run_eq.symm.trans hr'.run_eq)

/-- **The code is that of a report, or `2`.** -/
theorem code_run (program blobArg configArg : String) (rest : List String) :
    (∃ report, Succeeds machine files (terminated blobArg) (terminated configArg) report ∧
      exitCode machine files program (blobArg :: configArg :: rest) =
        if report.agrees then 0 else 1) ∨
    (¬∃ report, Succeeds machine files (terminated blobArg) (terminated configArg) report) ∧
      exitCode machine files program (blobArg :: configArg :: rest) = 2 := by
  rcases run_loads machine files program blobArg configArg rest with
    ⟨blob, cfg, hl, hrun⟩ | ⟨hnone, hcode⟩
  · rw [hrun]
    rcases code_verify machine (afterLoad machine (terminated blobArg) (terminated configArg) files)
        (terminated blobArg) blob cfg with ⟨report, hr, hcode⟩ | ⟨hnone, hcode⟩
    · exact .inl ⟨report, ⟨blob, cfg, hl, hr⟩, hcode⟩
    · refine .inr ⟨fun ⟨report, blob', cfg', hl', hr⟩ => ?_, hcode⟩
      obtain ⟨rfl, rfl⟩ := hl.unique hl'
      exact hnone ⟨report, hr⟩
  · exact .inr ⟨fun ⟨report, blob, cfg, hl, _⟩ => hnone ⟨blob, cfg, hl⟩, hcode⟩

theorem code_eq_iff (program blobArg configArg : String) (rest : List String) (b : Bool) :
    exitCode machine files program (blobArg :: configArg :: rest) = (if b then 0 else 1) ↔
      ∃ report, Succeeds machine files (terminated blobArg) (terminated configArg) report ∧
        report.agrees = b := by
  have htwo : 2 ≠ if b then 0 else 1 := by cases b <;> decide
  have hinj : ∀ a : Bool, (if a then 0 else 1) = (if b then 0 else 1) → a = b := by
    cases b <;> decide
  rcases code_run machine files program blobArg configArg rest with
    ⟨report, hs, hcode⟩ | ⟨hnone, hcode⟩
  · rw [hcode]
    refine ⟨fun h => ⟨report, hs, hinj _ h⟩, fun ⟨report', hs', hb⟩ => ?_⟩
    rw [hs.unique hs', hb]
  · rw [hcode]
    exact ⟨fun h => absurd h htwo, fun ⟨report, hs, _⟩ => absurd ⟨report, hs⟩ hnone⟩

theorem code_cases (program blobArg configArg : String) (rest : List String) :
    exitCode machine files program (blobArg :: configArg :: rest) = 0 ∨
    exitCode machine files program (blobArg :: configArg :: rest) = 1 ∨
    exitCode machine files program (blobArg :: configArg :: rest) = 2 := by
  rcases code_run machine files program blobArg configArg rest with ⟨report, -, hcode⟩ | ⟨-, hcode⟩
  · rw [hcode]
    cases report.agrees
    · exact .inr (.inl rfl)
    · exact .inl rfl
  · exact .inr (.inr hcode)

/-! ### What it takes for a verdict -/

/-- Everything went well on the way to a verdict on some tensors: the configuration opens and is
accepted; the blob opens, and over the link it fits the window, and the window the address space;
there is memory for the scratch buffer; the magic is accepted, and the tensors for all checks are
read through the backing and the decoder; and the table can be written if one is asked for. -/
structure Verified (machine : Machine (StateM Files)) (files : Files)
    (blobPath configPath : String) (blob : Bytes) (cfg : Verify.Config)
    (ts : List Blob.Tensor) : Prop where
  loads : Loads machine files blobPath configPath blob cfg
  fits : cfg.backing = .flash → blob.size ≤ cfg.window.toNat ∧
    cfg.link.engine.offset.toNat + cfg.window.toNat ≤ 2 ^ 24
  /-- No buffer is larger, on any machine. -/
  room : cfg.scratch < 2 ^ 63 ∧ machine.grants cfg.scratch = true
  reads : cfg.Reads blob ts
  opens : cfg.table ≠ "" → ∀ report, (Verify.run blob cfg).1 = .ok report →
    machine.storage.Opens cfg.table report.table.toUTF8.data
      (afterLoad machine blobPath configPath files)

variable {machine files} in
/-- An accepted configuration under which a verification delivers what `b` says is one under which
everything goes well, and the checks hold as `b` says. -/
theorem Loads.delivers_iff (hl : Loads machine files blobPath configPath blob cfg) (b : Bool) :
    (∃ report, Delivers machine (afterLoad machine blobPath configPath files) blob cfg report ∧
        report.agrees = b) ↔
      ∃ ts, Verified machine files blobPath configPath blob cfg ts ∧
        ((∀ p ∈ shares cfg.checks ts, p.1.Holds p.2) ↔ b = true) := by
  obtain ⟨bytes, -, v, -, hcfg⟩ := hl.config
  have hagrees {ts : List Blob.Tensor} {report : Verify.Report} (hreads : cfg.Reads blob ts)
      (hfits : cfg.backing = .flash → cfg.Fits blob)
      (hfindings : report.findings = Verify.findingsOf cfg.checks ts) :
      report.agrees = true ↔ ∀ p ∈ shares cfg.checks ts, p.1.Holds p.2 := by
    rw [Verify.Report.agrees, hfindings]
    exact Verify.agrees_findingsOf (hreads.answers hfits)
  constructor
  · rintro ⟨report, hr, rfl⟩
    obtain ⟨hroom, hrun⟩ := Verify.runWithin_eq_ok_iff.1 hr.run_eq
    have hfits := Verify.fits_of_run hrun
    obtain ⟨ts, hreads, hfindings⟩ := Verify.reads_of_run hrun
    refine ⟨ts, ⟨hl, fun hb => (Verify.Config.fits_iff hcfg).1 (hfits hb), hroom, hreads,
      fun ht report' hrun' => ?_⟩, (hagrees hreads hfits hfindings).symm⟩
    obtain rfl := Except.ok.inj (hrun.symm.trans hrun')
    exact hr.opens ht
  · rintro ⟨ts, hv, hb⟩
    have hfits (hflash : cfg.backing = .flash) : cfg.Fits blob :=
      (Verify.Config.fits_iff hcfg).2 (hv.fits hflash)
    obtain ⟨report, hrun, hfindings⟩ := Verify.run_of_reads hfits hv.reads
    refine ⟨report, ⟨Verify.runWithin_eq_ok_iff.2 ⟨hv.room, hrun⟩,
      fun ht => hv.opens ht report hrun⟩, ?_⟩
    exact Bool.eq_iff_iff.2 ((hagrees hv.reads hfits hfindings).trans hb)

/-- **The verdict is sound and complete.**  With two arguments or more, the code is `0` if and only
if everything went well and all checks hold, `1` if and only if everything went well and one check
does not hold, and `2` otherwise.  A report has one entry for each check, in their order, that says
what the check found in its own tensors.  What is expected of a check, and so whether it agrees,
changes no other entry. -/
theorem verdict (program blobArg configArg : String) (rest : List String) :
    (exitCode machine files program (blobArg :: configArg :: rest) = 0 ↔
      ∃ blob cfg ts,
        Verified machine files (terminated blobArg) (terminated configArg) blob cfg ts ∧
          ∀ p ∈ shares cfg.checks ts, p.1.Holds p.2) ∧
    (exitCode machine files program (blobArg :: configArg :: rest) = 1 ↔
      ∃ blob cfg ts,
        Verified machine files (terminated blobArg) (terminated configArg) blob cfg ts ∧
          ¬∀ p ∈ shares cfg.checks ts, p.1.Holds p.2) ∧
    (exitCode machine files program (blobArg :: configArg :: rest) = 0 ∨
      exitCode machine files program (blobArg :: configArg :: rest) = 1 ∨
      exitCode machine files program (blobArg :: configArg :: rest) = 2) ∧
    (∀ blob cfg report, (Verify.runWithin machine.grants blob cfg).1 = .ok report →
      ∃ ts, cfg.Reads blob ts ∧ (shares cfg.checks ts).map Prod.fst = cfg.checks ∧
        List.Forall₂ (fun f p => f.Reports p.1 p.2) report.findings (shares cfg.checks ts)) ∧
    ∀ blob cfg k expected,
      (Verify.runWithin machine.grants blob
          { cfg with checks := cfg.checks.modify k (.expecting expected) }).1 =
        (Verify.runWithin machine.grants blob cfg).1.map fun report =>
          { report with findings := report.findings.modify k (.expecting expected) } := by
  have hcode (b : Bool) :
      exitCode machine files program (blobArg :: configArg :: rest) = (if b then 0 else 1) ↔
        ∃ blob cfg ts,
          Verified machine files (terminated blobArg) (terminated configArg) blob cfg ts ∧
            ((∀ p ∈ shares cfg.checks ts, p.1.Holds p.2) ↔ b = true) := by
    rw [code_eq_iff]
    constructor
    · rintro ⟨report, ⟨blob, cfg, hl, hr⟩, hb⟩
      obtain ⟨ts, hv, hholds⟩ := (hl.delivers_iff b).1 ⟨report, hr, hb⟩
      exact ⟨blob, cfg, ts, hv, hholds⟩
    · rintro ⟨blob, cfg, ts, hv, hholds⟩
      obtain ⟨report, hr, hb⟩ := (hv.loads.delivers_iff b).2 ⟨ts, hv, hholds⟩
      exact ⟨report, ⟨blob, cfg, hv.loads, hr⟩, hb⟩
  refine ⟨by simpa using hcode true, by simpa using hcode false,
    code_cases machine files program blobArg configArg rest, fun blob cfg report hreport => ?_,
    Verify.runWithin_expecting⟩
  obtain ⟨-, hrun⟩ := Verify.runWithin_eq_ok_iff.1 hreport
  obtain ⟨ts, hreads, hfindings⟩ := Verify.reads_of_run hrun
  refine ⟨ts, hreads, Verify.map_fst_shares _ _, ?_⟩
  rw [hfindings]
  exact Verify.reports_findingsOf (hreads.answers (Verify.fits_of_run hrun))

/-- Some files by their names, without directories. -/
def shelf : Storage (StateM (List (String × Bytes))) where
  read path := return match (← get).lookup path with
    | some bytes => .file bytes
    | none => .absent
  write path bytes := do
    modify ((path, bytes) :: ·)
    return true
  makeDirectory _ := return .ok ()

/-- A machine with these files, and with memory for everything. -/
def shelfMachine : Machine (StateM (List (String × Bytes))) := ⟨shelf, Json.plain, fun _ => true⟩

/-- The sample blob, and a configuration that expects a hash of it, with other settings in front. -/
def sampleShelf (hash settings : String) : List (String × Bytes) :=
  [("w", Verify.sampleBlob), ("c", ("\x7b" ++ settings ++ "\"checks\":[\x7b\"tensors\":[2],"
    ++ "\"expected_hash\":" ++ hash ++ "\x7d]\x7d").toUTF8.data)]

/-- The settings for a blob behind a window of some size. -/
def windowSettings (size : String) : String :=
  "\"backing\":\"flash\",\"flash\":\x7b\"window_bytes\":" ++ size ++ "\x7d,"

/-- The sample has the hash `3` and not `4`, does not fit a window that is too small for it, and
cannot be read into a buffer that is too large for any machine. -/
theorem verdict_shelf :
    (∃ blob cfg ts,
      Verified shelfMachine (sampleShelf "3" (windowSettings "42")) "w" "c" blob cfg ts ∧
        ∀ p ∈ shares cfg.checks ts, p.1.Holds p.2) ∧
    (∃ blob cfg ts, Verified shelfMachine (sampleShelf "4" "") "w" "c" blob cfg ts ∧
      ¬∀ p ∈ shares cfg.checks ts, p.1.Holds p.2) ∧
    exitCode shelfMachine (sampleShelf "3" (windowSettings "41")) "v" ["w", "c"] = 2 ∧
    exitCode shelfMachine (sampleShelf "3" "\"scratch_capacity\":9223372036854775808,") "v"
      ["w", "c"] = 2 := by
  have hw : terminated "w" = "w" := by decide +kernel
  have hc : terminated "c" = "c" := by decide +kernel
  have h3 := (verdict shelfMachine (sampleShelf "3" (windowSettings "42")) "v" "w" "c" []).1.1
    (by decide +kernel)
  have h4 := (verdict shelfMachine (sampleShelf "4" "") "v" "w" "c" []).2.1.1 (by decide +kernel)
  rw [hw, hc] at h3 h4
  exact ⟨h3, h4, by decide +kernel, by decide +kernel⟩

end CommandLine
end WeightLink
