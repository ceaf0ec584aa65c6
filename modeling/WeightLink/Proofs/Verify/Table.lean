/-
# Reading a table back

The table of a report has a header, the rows of its findings, and two lines with a `#` that hold the
counters (`TableRows`, `tableRows_table`).  So the rows are found whatever the names are, and there
is a line for each finding exactly if no name has a newline (`length_rowLines_eq_iff`).

The file of a table holds it, and what can be read from it is what the names allow
(`CommandLine.table_read_back`).  A comma or a newline in a name is not told from one between fields
or rows (`CommandLine.separators_in_names`).
-/

import WeightLink.Proofs.Files.Retention
import WeightLink.Proofs.Verify.Rows

namespace WeightLink
namespace Verify

/-! ### The lines of a table -/

/-- The lines of the rows of some findings. -/
def rowLines (findings : List Finding) : List (List Char) :=
  (findings.map Finding.line).flatMap (List.splitOn '\n')

theorem rowLines_cons (f : Finding) (findings : List Finding) :
    rowLines (f :: findings) = f.line.splitOn '\n' ++ rowLines findings := rfl

/-- Lines and rows say the same. -/
theorem rowLines_eq_iff {findings others : List Finding} :
    rowLines findings = rowLines others ↔ written findings = written others := by
  constructor
  · intro h
    have hjoin (fs : List Finding) : (rowLines fs).flatMap (· ++ ['\n']) = written fs :=
      flatMap_splitOn _
    rw [← hjoin, h, hjoin]
  · intro h
    have hsplit (fs : List Finding) : (written fs).splitOn '\n' = rowLines fs ++ [[]] := by
      rw [← List.append_nil (written fs), written, splitOn_flatMap_append]
      rfl
    exact List.append_cancel_right ((hsplit _).symm.trans ((congrArg _ h).trans (hsplit _)))

/-- A newline in a name makes one more line. -/
theorem length_lines (f : Finding) :
    (f.line.splitOn '\n').length = f.name.toList.count '\n' + 1 := by
  rw [length_splitOn, Finding.line, List.count_append,
    List.count_eq_zero.2 (newline_not_mem_behind f), Nat.add_zero]

theorem length_le_rowLines (findings : List Finding) :
    findings.length ≤ (rowLines findings).length := by
  induction findings with
  | nil => exact Nat.le_refl 0
  | cons f findings ih =>
    rw [rowLines_cons, List.length_append, length_lines, List.length_cons]
    omega

/-- There are as many lines as findings exactly if no name has a newline. -/
theorem length_rowLines_eq_iff (findings : List Finding) :
    (rowLines findings).length = findings.length ↔ ∀ f ∈ findings, '\n' ∉ f.name.toList := by
  induction findings with
  | nil => exact iff_of_true rfl nofun
  | cons f findings ih =>
    have hle := length_le_rowLines findings
    rw [List.forall_mem_cons, ← ih, ← List.count_eq_zero, rowLines_cons, List.length_append,
      length_lines, List.length_cons]
    omega

theorem rowLines_eq_map {findings : List Finding}
    (h : ∀ f ∈ findings, '\n' ∉ f.name.toList) : rowLines findings = findings.map Finding.line := by
  induction findings with
  | nil => rfl
  | cons f findings ih =>
    obtain ⟨hf, hfindings⟩ := List.forall_mem_cons.1 h
    have hline : '\n' ∉ f.line := List.not_mem_append hf (newline_not_mem_behind f)
    rw [rowLines_cons, List.splitOn_eq_singleton hline, ih hfindings]
    rfl

/-- The rows of a table in a text: the lines between its header and the two lines with a `#` at its
end. -/
def TableRows (text : List Char) (rows : List (List Char)) : Prop :=
  ∃ titles figures, text.splitOn '\n' =
    "check,elements,hash,expected,match".toList :: (rows ++ ['#' :: titles, '#' :: figures, []])

theorem TableRows.unique {text : List Char} {rows rows' : List (List Char)}
    (h : TableRows text rows) (h' : TableRows text rows') : rows = rows' := by
  obtain ⟨titles, figures, h⟩ := h
  obtain ⟨titles', figures', h'⟩ := h'
  exact (List.append_inj' (List.cons.inj (h.symm.trans h')).2 rfl).1

/-- The counters in the last line of a table. -/
def Report.counters (r : Report) : List Nat :=
  let f := (r.flash.map FlashUse.stats).getD .zero
  [r.stream.tensors, r.stream.blocks, r.stream.bytes, f.total, f.reads, f.wakeCommands,
    f.latency.max]

/-- The last line of a table, without the `#`. -/
def Report.figures (r : Report) : List Char :=
  ' ' :: [','].intercalate (r.counters.map fun n => (toString n).toList)

theorem newline_not_mem_figures (r : Report) : '\n' ∉ r.figures := by
  have hnumber (n : Nat) : '\n' ∉ (toString n).toList := by
    rw [Nat.toString_eq_repr, Nat.toList_repr]
    exact (Numeral.writes_toDigits n).not_mem (by decide)
  unfold Report.figures Report.counters
  simp only [List.map_cons, List.map_nil, List.intercalate_cons_cons, List.intercalate_singleton]
  simp only [List.mem_cons, List.mem_append, hnumber, List.not_mem_nil, or_false, false_or]
  decide

/-- The titles of the counters, without the `#`. -/
def Report.titles : List Char :=
  " tensors,blocks,bytes,flash_cycles,flash_transactions,flash_wake_cmds,flash_max_latency".toList

theorem toList_totals (r : Report) :
    r.totals.toList = ['#' :: Report.titles, '#' :: r.figures].flatMap (· ++ ['\n']) := by
  have htitles : String.toList
      "# tensors,blocks,bytes,flash_cycles,flash_transactions,flash_wake_cmds,flash_max_latency\n" =
        '#' :: Report.titles ++ ['\n'] := by decide +kernel
  have hmark : (toString "# ").toList = ['#', ' '] := by decide +kernel
  have hcomma : (toString ",").toList = [','] := by decide +kernel
  have hend : (toString "\n").toList = ['\n'] := by decide +kernel
  unfold Report.totals Report.figures Report.counters
  dsimp only
  simp only [String.toList_append, hmark, hcomma, hend]
  rw [htitles]
  simp only [List.map_cons, List.map_nil, List.intercalate_cons_cons, List.intercalate_singleton,
    List.flatMap_cons, List.flatMap_nil, List.append_assoc, List.cons_append, List.nil_append,
    List.append_nil]

/-- The rows of a table are those of its findings. -/
theorem tableRows_table (r : Report) : TableRows r.table.toList (rowLines r.findings) := by
  have hheader : Report.tableHeader.toList =
      "check,elements,hash,expected,match".toList ++ ['\n'] := by decide +kernel
  have hrows : (String.join (r.findings.map Report.row)).toList =
      (r.findings.map Finding.line).flatMap (· ++ ['\n']) := by
    rw [String.toList_join, List.flatMap_map, List.flatMap_map]
    exact congrArg (List.flatMap · r.findings) (funext toList_row)
  have htext : r.table.toList = ("check,elements,hash,expected,match".toList ::
      (r.findings.map Finding.line ++
        ['#' :: Report.titles, '#' :: r.figures])).flatMap (· ++ ['\n']) ++ [] := by
    rw [Report.table, String.toList_append, String.toList_append, hheader, hrows, toList_totals]
    simp only [List.flatMap_cons, List.flatMap_append, List.append_assoc, List.append_nil]
  have hheaderLine : '\n' ∉ "check,elements,hash,expected,match".toList := by decide +kernel
  have htitlesLine : '\n' ∉ '#' :: Report.titles := by decide +kernel
  have hfiguresLine : '\n' ∉ '#' :: r.figures := by
    simpa using newline_not_mem_figures r
  refine ⟨Report.titles, r.figures, ?_⟩
  rw [htext, splitOn_flatMap_append, List.flatMap_cons, List.flatMap_append, List.flatMap_cons,
    List.flatMap_cons, List.splitOn_eq_singleton hheaderLine, List.splitOn_eq_singleton htitlesLine,
    List.splitOn_eq_singleton hfiguresLine]
  simp [rowLines]

/-- The findings of a run report on the checks in order. -/
theorem reports_of_run {blob : Bytes} {cfg : Config} {report : Report}
    (hrun : (run blob cfg).1 = .ok report) :
    List.Forall₂ (fun f check => ∃ ts, f.Reports check ts) report.findings cfg.checks := by
  obtain ⟨ts, hreads, hfindings⟩ := reads_of_run hrun
  have h := reports_findingsOf (hreads.answers (fits_of_run hrun))
  rw [← hfindings] at h
  rw [← map_fst_shares cfg.checks ts, List.forall₂_map_right_iff]
  exact h.imp fun f p hp => ⟨p.2, hp⟩

theorem names_of_run {blob : Bytes} {cfg : Config} {report : Report}
    (hrun : (run blob cfg).1 = .ok report) :
    report.findings.map Finding.name = cfg.checks.map Check.name := by
  rw [← List.forall₂_eq_eq_eq, List.forall₂_map_left_iff, List.forall₂_map_right_iff]
  refine (reports_of_run hrun).imp fun f check hreports => ?_
  obtain ⟨ts, h⟩ := hreports
  exact h.name_eq

end Verify

namespace CommandLine

open Verify (Finding Unambiguous TableRows rowLines)

variable {Files : Type} {s : Storage (StateM Files)} {files files' : Files} {path line : String}
  {blob : Bytes} {cfg : Verify.Config} {report : Verify.Report}

/-- **A table can be read back** as far as the names allow it.  Its rows are between the header and
the two lines with a `#`.  There is a line for each check in order exactly if no name has a newline.
Then the fields of a line are those of the finding of that check and of no other finding, and there
are five of them exactly if the name has no comma.

Findings whose names do not begin with a row, in particular those whose names have no newline, are
told apart by their rows, and all others have the same rows as some of these. -/
theorem table_read_back (hrun : (Verify.run blob cfg).1 = .ok report) (hs : s.Retains)
    (hwrite : (writeTable s path report).run files = (.ok line, files')) :
    ∃ (text : String) (rows : List (List Char)),
      s.Shows path files' text.toUTF8.data ∧ TableRows text.toList rows ∧
      List.Forall₂ (fun f check => ∃ ts, f.Reports check ts) report.findings cfg.checks ∧
      (rows.length = cfg.checks.length ↔ ∀ check ∈ cfg.checks, '\n' ∉ check.name.toList) ∧
      ((∀ check ∈ cfg.checks, '\n' ∉ check.name.toList) →
        List.Forall₂ (fun f row => f.InFields (row.splitOn ',') ∧
          (∀ g : Finding, g.InFields (row.splitOn ',') → g = f) ∧
          ((row.splitOn ',').length = 5 ↔ ',' ∉ f.name.toList)) report.findings rows ∧
        Unambiguous report.findings) ∧
      (Unambiguous report.findings ↔ ∀ other : Verify.Report, Unambiguous other.findings →
        TableRows other.table.toList rows → other.findings = report.findings) := by
  have hreports := Verify.reports_of_run hrun
  have hlength : report.findings.length = cfg.checks.length := hreports.length_eq
  have hnames : (∀ check ∈ cfg.checks, '\n' ∉ check.name.toList) ↔
      ∀ f ∈ report.findings, '\n' ∉ f.name.toList := by
    have h := congrArg (∀ name ∈ ·, '\n' ∉ String.toList name) (Verify.names_of_run hrun)
    simpa using h.symm
  refine ⟨report.table, rowLines report.findings, shows_table hs hwrite,
    Verify.tableRows_table report, hreports, ?_, fun hno => ⟨?_, ?_⟩, ?_, ?_⟩
  · rw [hnames, ← Verify.length_rowLines_eq_iff, hlength]
  · rw [Verify.rowLines_eq_map (hnames.1 hno), List.forall₂_map_right_iff, List.forall₂_same]
    exact fun f _ => ⟨Verify.inFields_line f, fun g hg => hg.unique (Verify.inFields_line f),
      Verify.length_fields_eq_five_iff f⟩
  · exact fun f hf h => hnames.1 hno f hf (Verify.newline_mem_of_startsWithRow h)
  · intro hreport other hother hrows
    have hsame := (Verify.tableRows_table other).unique hrows
    exact Verify.eq_of_written hother hreport (Verify.rowLines_eq_iff.1 hsame)
  · -- There are such findings with the same rows, and they make a report with these rows too.
    intro hall
    obtain ⟨findings, hfindings, hwritten⟩ := Verify.exists_unambiguous report.findings
    have hrows := Verify.tableRows_table { report with findings }
    rw [Verify.rowLines_eq_iff.2 hwritten] at hrows
    rw [← hall _ hfindings hrows]
    exact hfindings

/-- Two checks, the first with a comma in its name and another hash than is expected. -/
def labelledConfig : Verify.Config :=
  ⟨.memory, .host, 512, .default, 0x100000, [⟨"b,x", [2], some 4⟩, ⟨"", [], none⟩], "t"⟩

/-- The report on them. -/
def labelledReport : Verify.Report :=
  ⟨[⟨"b,x", 3, some 4, 2⟩, ⟨"", 0, none, 0⟩], 0x56574230, .baseline, ⟨1, 1, 44, 0⟩, none⟩

/-- There is room for any file in an empty directory. -/
theorem opens_empty (bytes : Bytes) : Directory.storage.Opens "t" bytes .empty := by
  have hname : terminated "t" = "t" := by decide +kernel
  have hnames : Path.names "t" = ["t"] := by
    -- There is one character, and it is not a slash.
    unfold Path.names String.splitOn
    rw [if_neg (by decide), String.splitOnAux, if_neg (by decide +kernel),
      if_neg (by decide +kernel), String.splitOnAux, if_pos (by decide +kernel)]
    decide +kernel
  have hlocate : Directory.empty.locate "t" = .ok ["t"] := by
    unfold Directory.locate
    rw [hname]
    dsimp only
    rw [hnames]
    decide +kernel
  have hparents : (Directory.storage.makeParents "t").run .empty = (.ok (), .empty) := by
    unfold Storage.makeParents
    rw [Path.parents_eq_nil hnames]
    rfl
  unfold Storage.Opens
  rw [hparents, Directory.run_write, Directory.write, hlocate]
  exact ⟨rfl, rfl⟩

/-- Its table is written into an empty directory, and has a row of six fields and one of five. -/
theorem table_read_back_labelled :
    (Verify.run Verify.sampleBlob labelledConfig).1 = .ok labelledReport ∧
    Directory.storage.Retains ∧
    ∃ line d, (writeTable Directory.storage "t" labelledReport).run .empty = (.ok line, d) ∧
    ∃ (text : String) (rows : List (List Char)),
      Directory.storage.Shows "t" d text.toUTF8.data ∧ TableRows text.toList rows ∧
      rows.length = 2 ∧
      List.Forall₂ (fun f row => f.InFields (row.splitOn ',') ∧
        (∀ g : Finding, g.InFields (row.splitOn ',') → g = f) ∧
        ((row.splitOn ',').length = 5 ↔ ',' ∉ f.name.toList)) labelledReport.findings rows ∧
      ∀ other : Verify.Report, Unambiguous other.findings → TableRows other.table.toList rows →
        other.findings = labelledReport.findings := by
  have hrun : (Verify.run Verify.sampleBlob labelledConfig).1 = .ok labelledReport :=
    eq_ok_of_toOption (by decide +kernel)
  rcases run_writeTable Directory.storage labelledReport .empty "t" with
    ⟨-, line, hline⟩ | ⟨hclosed, -⟩
  · have hwrite : (writeTable Directory.storage "t" labelledReport).run .empty = (.ok line, _) :=
      Prod.ext hline rfl
    obtain ⟨text, rows, hshows, hrows, -, hlength, hlines, hapart⟩ :=
      table_read_back hrun Directory.retains hwrite
    have hno : ∀ check ∈ labelledConfig.checks, '\n' ∉ check.name.toList := by decide +kernel
    obtain ⟨hfields, hreport⟩ := hlines hno
    exact ⟨hrun, Directory.retains, line, _, hwrite, text, rows, hshows, hrows, hlength.2 hno,
      hfields, hapart.1 hreport⟩
  · exact absurd (opens_empty _) hclosed

/-- A configuration of checks with some names that take no tensors. -/
def namedJson (names : List String) : Json :=
  .object [("checks", .array (names.map fun name =>
    .object [("name", .string name), ("tensors", .array [])]))]

/-- What it says. -/
def namedConfig (names : List String) : Verify.Config :=
  ⟨.memory, .host, 512, .default, 0x100000, names.map (⟨·, [], none⟩), ""⟩

/-- The report on these checks. -/
def namedReport (names : List String) : Verify.Report :=
  ⟨names.map (⟨·, 0, none, 0⟩), 0x56574230, .baseline, ⟨0, 0, 16, 0⟩, none⟩

/-- A comma in a name makes a sixth field, a newline makes a second line, and with both of them the
table of one check is the table of two. -/
theorem separators_in_names :
    (∀ names ∈ [["a,b"], ["a,0,0x00000000,,1\nb"], ["a", "b"]],
      Verify.Config.ofJson (namedJson names) = .ok (namedConfig names) ∧
      (Verify.run Verify.sampleBlob (namedConfig names)).1 = .ok (namedReport names)) ∧
    (∃ rows, TableRows (namedReport ["a,b"]).table.toList rows ∧
      rows.map (fun row => (row.splitOn ',').length) = [6]) ∧
    (∃ rows, TableRows (namedReport ["a,0,0x00000000,,1\nb"]).table.toList rows ∧
      rows.length = 2) ∧
    (namedReport ["a,0,0x00000000,,1\nb"]).table = (namedReport ["a", "b"]).table := by
  refine ⟨?_, ⟨_, Verify.tableRows_table _, by decide +kernel⟩,
    ⟨_, Verify.tableRows_table _, by decide +kernel⟩, by decide +kernel⟩
  simp only [List.forall_mem_cons]
  refine ⟨⟨?_, ?_⟩, ⟨?_, ?_⟩, ⟨?_, ?_⟩, nofun⟩ <;> exact eq_ok_of_toOption (by decide +kernel)

end CommandLine
end WeightLink
