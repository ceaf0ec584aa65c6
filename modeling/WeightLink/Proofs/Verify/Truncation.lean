/-
# Blobs that are cut off

In memory the size of a blob is known, and a blob that is cut off in its header or in a record
that a verification consumes is refused as ill-formed.  Over the link only the window has a size.
A report is then one on the blob with erased bytes behind it (`reports_padded`): a word of the
header or of a record that is cut off shows an erased most significant byte, which is no magic and
no number of blocks that fits, but blocks that are cut off are read as erased bytes
(`torn_block_reported`).
-/

import WeightLink.Proofs.Verify.Backing

namespace WeightLink
namespace Verify

open Blob (Parser Record Agree accepts recordAt wordAt)

/-! ### Words that are cut off -/

/-- A word whose last byte is erased is large. -/
theorem le_wordAt_of_erased {bytes : Bytes} {position : Nat}
    (h : bytes[position + 3]? = some Flash.Image.erasedByte) :
    0xFF000000 ≤ (wordAt bytes position).toNat := by
  have hlast : Blob.byteAt bytes (position + 3) = Flash.Image.erasedByte :=
    congrArg (Option.getD · 0) h
  rw [wordAt, Word.toNat_ofBytes, hlast]
  change _ ≤ _ + 16777216 * 255
  omega

variable {blob bytes : Bytes} {n k position : Nat}

theorem padded_erased (hk : bytes.size ≤ k) (hn : k < n) :
    (padded bytes n)[k]? = some Flash.Image.erasedByte := by
  rw [getElem?_padded hn, Array.getElem?_eq_none hk]
  rfl

/-- What describes a record is cut off, so its blocks do not fit. -/
theorem lt_stop_padded (hn : bytes.size ≤ n) (hmax : n ≤ Flash.Device.maxCapacity)
    (hcut : bytes.size < position + Blob.recordBytes) :
    (padded bytes n).size < (recordAt (padded bytes n) position).stop := by
  rw [size_padded hn]
  unfold Flash.Device.maxCapacity at hmax
  unfold Blob.recordBytes at hcut
  by_cases hin : position + 7 < n
  · have hlarge : 0xFF000000 ≤ (recordAt (padded bytes n) position).blocks.toNat :=
      le_wordAt_of_erased (padded_erased (by omega) hin)
    unfold Record.stop Blob.blockBytes
    omega
  · have hstop := Blob.le_stop_recordAt (padded bytes n) position
    unfold Blob.recordBytes at hstop
    omega

/-- Of a blob with a magic, the magic is not cut off. -/
theorem four_le_of_accepts (hn : bytes.size ≤ n) (h : accepts (padded bytes n) = true) :
    4 ≤ bytes.size := by
  obtain ⟨hheader, hmagic⟩ := of_decide_eq_true h
  rw [size_padded hn] at hheader
  apply Nat.le_of_not_lt
  intro hlt
  have hlarge : 0xFF000000 ≤ (wordAt (padded bytes n) 0).toNat :=
    le_wordAt_of_erased (padded_erased (by omega) (Nat.lt_of_lt_of_le (by decide) hheader))
  refine hmagic (Blob.Variant.ofMagic_eq_unknown_iff.2 ⟨?_, ?_⟩)
  · rintro he
    rw [he] at hlarge
    exact absurd hlarge (by decide)
  · rintro he
    rw [he] at hlarge
    exact absurd hlarge (by decide)

/-! ### Reports over the link -/

variable {cfg : Config} {report : Report}

/-- A window in which something is accepted shows the blob. -/
theorem shown_of_accepts (h : accepts (shown blob cfg) = true) :
    shown blob cfg = padded blob cfg.window.toNat := by
  unfold shown at h ⊢
  split at h
  · exact if_pos ‹_›
  · exact absurd (four_le_of_accepts (Nat.zero_le _) h) (by decide)

/-- A report over the link is the report on the blob with erased bytes behind it. -/
theorem parse_of_report (h : (run blob { cfg with backing := .flash }).1 = .ok report) :
    ∃ use fs q, parse (padded blob cfg.window.toNat) cfg.checks (start cfg) = .ok (fs, q) ∧
      report = reportOf q (some use) fs := by
  obtain ⟨reader, fs, last, events, -, -, hparse, hreport⟩ := reader_of_report h
  obtain ⟨ha, -⟩ := parse_eq_ok hparse
  rw [shown_of_accepts ha] at hparse
  exact ⟨flashUse last, fs, last.bare, hparse, hreport⟩

theorem parseReport_error {flash : Option FlashUse} {e : Fault}
    (h : parse bytes cfg.checks (start cfg) = .error e) :
    parseReport bytes cfg flash = .error e := by
  rw [parseReport, h]
  rfl

/-! ### What is cut off -/

/-- The magic, and what describes some records, lie inside the bytes. -/
structure Described (bytes : Bytes) (records : List Record) : Prop where
  magic_le : 4 ≤ bytes.size
  start_le : ∀ record ∈ records, record.start ≤ bytes.size

instance (bytes : Bytes) (records : List Record) : Decidable (Described bytes records) :=
  decidable_of_iff (4 ≤ bytes.size ∧ ∀ record ∈ records, record.start ≤ bytes.size)
    ⟨fun ⟨hm, hs⟩ => ⟨hm, hs⟩, fun ⟨hm, hs⟩ => ⟨hm, hs⟩⟩

variable {full : Bytes} {fs : List Finding} {q : Parser}

/-- In memory, bytes that do not hold all that a report needs are refused. -/
theorem memory_torn (hab : Agree blob.size full blob)
    (h : parse full cfg.checks (start cfg) = .ok (fs, q))
    (hneeds : ¬Complete blob (consumed full cfg.checks)) :
    ∃ e, (run blob { cfg with backing := .memory }).1 = .error e ∧ e.kind = .format := by
  have hcut := parse_cut hab (fun ha => Nat.le_trans (by decide) (of_decide_eq_true ha).1)
    (fun position hlt => Nat.lt_of_lt_of_le hlt (Blob.le_stop_recordAt blob position)) h
  rw [run_memory]
  rcases hcut with ⟨ha, hall, -⟩ | ⟨-, e, he, hk⟩
  · exact absurd ⟨(of_decide_eq_true ha).1, fun record hr => (hall record hr).2⟩ hneeds
  · exact ⟨e, parseReport_error he, hk⟩

/-- **With erased bytes behind it, a blob is verified exactly if it holds the magic and what
describes the records**, and the records lie inside the window.  Erased bytes are no magic and no
number of blocks that fits. -/
theorem padded_cut (hfits : cfg.Fits blob) (hab : Agree blob.size full blob)
    (h : parse full cfg.checks (start cfg) = .ok (fs, q)) :
    let records := consumed full cfg.checks
    let window := padded blob cfg.window.toNat
    (Described blob records ∧ Complete window records ∧
      ∃ gs, parse window cfg.checks (start cfg) = .ok (gs, q)) ∨
    ¬(Described blob records ∧ Complete window records) ∧
      ∃ e, parse window cfg.checks (start cfg) = .error e ∧ e.kind = .format := by
  intro records window
  have hagree : Agree blob.size full window := hab.trans (agree_padded blob _)
  rcases parse_cut hagree (four_le_of_accepts hfits.blob_le) (fun _ => lt_stop_padded hfits.blob_le
    (Nat.le_trans (Nat.le_add_left _ _) hfits.end_le)) h with ⟨ha, hall, hgs⟩ | ⟨hneeds, he⟩
  · exact .inl ⟨⟨four_le_of_accepts hfits.blob_le ha, fun record hr => (hall record hr).1⟩,
      ⟨(of_decide_eq_true ha).1, fun record hr => (hall record hr).2⟩, hgs⟩
  · refine .inr ⟨fun ⟨hd, hc⟩ => ?_, he⟩
    have ha := (parse_eq_ok h).1
    rw [← (opened_congr (p := start cfg) hagree hd.magic_le (of_decide_eq_true ha).1
      hc.header_le).1, ha] at hneeds
    obtain ⟨record, hr, hlt⟩ := hneeds.resolve_left (by simp)
    exact hlt.elim (Nat.not_lt_of_le (hd.start_le record hr))
      (Nat.not_lt_of_le (hc.stop_le record hr))

/-- Over the link, bytes that do not hold the magic and what describes the records are refused. -/
theorem flash_torn (hfits : cfg.Fits blob) (hab : Agree blob.size full blob)
    (h : parse full cfg.checks (start cfg) = .ok (fs, q))
    (hneeds : ¬(Described blob (consumed full cfg.checks) ∧
      Complete (padded blob cfg.window.toNat) (consumed full cfg.checks))) :
    ∃ e, (run blob { cfg with backing := .flash }).1 = .error e ∧
      (e.kind = .format ∨ cfg.link.Hangs e) := by
  have hparse : ∃ e, parse (shown blob cfg) cfg.checks (start cfg) = .error e ∧
      e.kind = .format := by
    cases ha : accepts (shown blob cfg) with
    | false =>
      rw [parse, ha]
      exact ⟨_, rfl, rfl⟩
    | true =>
      rw [shown_of_accepts ha]
      rcases padded_cut hfits hab h with ⟨hd, hc, -⟩ | ⟨-, he⟩
      · exact absurd ⟨hd, hc⟩ hneeds
      · exact he
  obtain ⟨e, he, hk⟩ := hparse
  rcases run_flash hfits with ⟨use, huse⟩ | ⟨e', he', hh⟩
  · exact ⟨e, huse.trans (parseReport_error he), .inl hk⟩
  · exact ⟨e', he', .inr hh⟩

/-- Over the link of an awake device, bytes that hold the magic and what describes the records are
reported on, whatever else they lack. -/
theorem flash_described (hfits : cfg.Fits blob) (hab : Agree blob.size full blob)
    (hawake : cfg.link.engine.wakeOnBoot = true ∨ cfg.link.deviceRequiresWake = false)
    (h : parse full cfg.checks (start cfg) = .ok (fs, q))
    (hd : Described blob (consumed full cfg.checks))
    (hc : Complete (padded blob cfg.window.toNat) (consumed full cfg.checks)) :
    (∃ use gs, (run blob { cfg with backing := .flash }).1 = .ok (reportOf q (some use) gs)) ∨
    ∃ e, (run blob { cfg with backing := .flash }).1 = .error e ∧ cfg.link.Hangs e := by
  obtain ⟨gs, hgs⟩ : ∃ gs, parse (shown blob cfg) cfg.checks (start cfg) = .ok (gs, q) := by
    rw [shown_awake hawake]
    rcases padded_cut hfits hab h with ⟨-, -, hgs⟩ | ⟨hneeds, -⟩
    · exact hgs
    · exact absurd ⟨hd, hc⟩ hneeds
  refine (run_flash hfits).imp (fun ⟨use, huse⟩ => ⟨use, gs, ?_⟩) id
  rw [huse, parseReport, hgs]
  rfl

/-- **A verification over the link reports on the blob with erased bytes behind it.**  The magic
and what describes each consumed record are then bytes of the blob, but not the blocks: in memory
the same blob is reported on alike if it also holds these, and refused if it does not.  Cutting off
a blob in what is consumed is always noticed in memory, and over the link exactly if the magic or
what describes a record is cut off. -/
theorem reports_padded (blob : Bytes) (cfg : Config) :
    (∀ report, (run blob { cfg with backing := .flash }).1 = .ok report →
      let window := padded blob cfg.window.toNat
      let records := consumed window cfg.checks
      Described blob records ∧ Complete window records ∧
      (run window { cfg with backing := .memory }).1 = .ok { report with flash := none } ∧
      (Complete blob records →
        (run blob { cfg with backing := .memory }).1 = .ok { report with flash := none }) ∧
      (¬Complete blob records →
        ∃ e, (run blob { cfg with backing := .memory }).1 = .error e ∧ e.kind = .format)) ∧
    ∀ report k, (run blob { cfg with backing := .memory }).1 = .ok report →
      let torn := blob.take k
      let records := consumed blob cfg.checks
      (¬Complete torn records →
        ∃ e, (run torn { cfg with backing := .memory }).1 = .error e ∧ e.kind = .format) ∧
      (cfg.Fits torn →
        ¬(Described torn records ∧ Complete (padded torn cfg.window.toNat) records) →
        ∃ e, (run torn { cfg with backing := .flash }).1 = .error e ∧
          (e.kind = .format ∨ cfg.link.Hangs e)) ∧
      (cfg.Fits torn →
        (cfg.link.engine.wakeOnBoot = true ∨ cfg.link.deviceRequiresWake = false) →
        Described torn records → Complete (padded torn cfg.window.toNat) records →
        (∃ use findings, (run torn { cfg with backing := .flash }).1 =
          .ok { report with flash := some use, findings }) ∨
        ∃ e, (run torn { cfg with backing := .flash }).1 = .error e ∧ cfg.link.Hangs e) := by
  constructor
  · intro report h window records
    have hfits := fits_of_report h
    obtain ⟨use, fs, q, hparse, rfl⟩ := parse_of_report h
    have hagree : Agree blob.size window blob := (agree_padded blob _).symm
    refine ⟨?_, ?_, ?_, fun hc => ?_, memory_torn hagree hparse⟩
    · rcases padded_cut hfits hagree hparse with ⟨hd, -⟩ | ⟨-, e, he, -⟩
      · exact hd
      · exact nomatch he.symm.trans hparse
    · exact complete_of_parse hparse
    · rw [run_memory, parseReport, hparse]
      rfl
    · rw [run_memory, parseReport,
        (parse_congr hagree (Nat.le_refl _) hparse hc.header_le hc.stop_le).1]
      rfl
  · intro report k h torn records
    rw [run_memory] at h
    obtain ⟨fs, q, hparse, rfl⟩ := parseReport_eq_ok h
    have hagree : Agree torn.size blob torn := .take blob k
    exact ⟨memory_torn hagree hparse, fun hfits => flash_torn hfits hagree hparse,
      fun hfits hawake => flash_described hfits hagree hawake hparse⟩

/-- The kind of the fault of a verification that fails. -/
def faultKind : Except Fault Report → Option Fault.Kind
  | .ok _ => none
  | .error e => some e.kind

theorem faultKind_eq_some {r : Except Fault Report} {kind : Fault.Kind}
    (h : faultKind r = some kind) : ∃ e, r = .error e ∧ e.kind = kind := by
  cases r with
  | ok report => exact nomatch h
  | error e => exact ⟨e, rfl, Option.some.inj h⟩

/-- The sample verification over the link of a device that needs no waking. -/
def tornConfig : Config := { sampleConfig with link := ⟨⟨1, 0, false, 0⟩, 0x200000, false, 0⟩ }

/-- Behind the first byte of its block the sample is cut off. -/
def tornBlob : Bytes := sampleBlob.take 25

/-- The rest of the block is read as erased bytes, so the hash is another. -/
theorem run_tornBlob : ∃ report,
    (run tornBlob { tornConfig with backing := .flash }).1 = .ok report ∧
      report.findings = [⟨"w", 0xFFFFFFF4, none, 2⟩] := by
  have h : (run tornBlob { tornConfig with backing := .flash }).1.toOption.map Report.findings =
      some [⟨"w", 0xFFFFFFF4, none, 2⟩] := by decide +kernel
  obtain ⟨report, hreport, hfindings⟩ := Option.map_eq_some_iff.1 h
  exact ⟨report, eq_ok_of_toOption hreport, hfindings⟩

/-- A part of a block is reported on over the link, and so is the magic alone if no tensor is asked
for.  In memory neither is.  A link that hangs does not say what is wrong with the blob. -/
theorem torn_block_reported :
    ((∃ report, (run tornBlob { tornConfig with backing := .flash }).1 = .ok report) ∧
      ¬Complete tornBlob (consumed tornBlob tornConfig.checks) ∧
      ∃ e, (run tornBlob { tornConfig with backing := .memory }).1 = .error e ∧
        e.kind = .format) ∧
    ((∃ report, (run (sampleBlob.take 4) { tornConfig with backing := .flash, checks := [] }).1 =
        .ok report) ∧
      ∃ e, (run (sampleBlob.take 4) { tornConfig with backing := .memory, checks := [] }).1 =
        .error e ∧ e.kind = .format) ∧
    ∃ e, (run tornBlob { tornConfig with
      backing := .flash, link := { tornConfig.link with maxWaitCycles := 1 } }).1 = .error e ∧
        e.kind = .hang := by
  obtain ⟨report, hreport, -⟩ := run_tornBlob
  obtain ⟨magicOnly, hmagic⟩ : ∃ report, (run (sampleBlob.take 4)
      { tornConfig with backing := .flash, checks := [] }).1.toOption = some report :=
    Option.isSome_iff_exists.1 (by decide +kernel)
  refine ⟨⟨⟨report, hreport⟩, by decide +kernel, faultKind_eq_some (by decide +kernel)⟩,
    ⟨⟨magicOnly, eq_ok_of_toOption hmagic⟩, faultKind_eq_some (by decide +kernel)⟩,
    faultKind_eq_some (by decide +kernel)⟩

/-- What is left of the sample: all that a record needs to be described, or less. -/
theorem reports_padded_torn :
    (∃ report, (run tornBlob { tornConfig with backing := .flash }).1 = .ok report ∧
      Described tornBlob (consumed (padded tornBlob 43) tornConfig.checks) ∧
      (run (padded tornBlob 43) { tornConfig with backing := .memory }).1 =
        .ok { report with flash := none } ∧
      ∃ e, (run tornBlob { tornConfig with backing := .memory }).1 = .error e ∧
        e.kind = .format) ∧
    (run sampleBlob { tornConfig with backing := .memory }).1 = .ok sampleReport ∧
    (∃ e, (run (sampleBlob.take 23) { tornConfig with backing := .memory }).1 = .error e ∧
      e.kind = .format) ∧
    (∃ e, (run (sampleBlob.take 23) { tornConfig with backing := .flash }).1 = .error e ∧
      (e.kind = .format ∨ tornConfig.link.Hangs e)) ∧
    ((∃ use findings, (run (sampleBlob.take 24) { tornConfig with backing := .flash }).1 =
        .ok { sampleReport with flash := some use, findings }) ∨
      ∃ e, (run (sampleBlob.take 24) { tornConfig with backing := .flash }).1 = .error e ∧
        tornConfig.link.Hangs e) := by
  obtain ⟨report, hflash, -⟩ := run_tornBlob
  have hmemory : (run sampleBlob { tornConfig with backing := .memory }).1 = .ok sampleReport :=
    eq_ok_of_toOption (by decide +kernel)
  obtain ⟨hd, -, hpadded, -, hmissing⟩ := (reports_padded tornBlob tornConfig).1 report hflash
  have h23 := (reports_padded sampleBlob tornConfig).2 sampleReport 23 hmemory
  have h24 := (reports_padded sampleBlob tornConfig).2 sampleReport 24 hmemory
  exact ⟨⟨report, hflash, hd, hpadded, hmissing (by decide +kernel)⟩, hmemory,
    h23.1 (by decide +kernel), h23.2.1 (by decide +kernel) (by decide +kernel),
    h24.2.2 (by decide +kernel) (.inr rfl) (by decide +kernel) (by decide +kernel)⟩

end Verify
end WeightLink
