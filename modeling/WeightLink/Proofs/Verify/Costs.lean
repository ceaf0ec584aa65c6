/-
# What a verification over the link costs

A report over the link says how many words were fetched and what the link has counted meanwhile.
None of this is left to chance (`costs_exact`).  The reader goes through the blob in one pass
(`runChecks_passes`), so that each word of the magic and of the consumed records is fetched once,
and no other word is, although blocks start and end inside words; and the counters of the link
are those of as many answered reads (`Flash.Link.Ledger`).
-/

import WeightLink.Proofs.Source.Forward
import WeightLink.Proofs.Verify.Backing

namespace WeightLink
namespace Verify

open WeightLink.Action (Triple)
open Blob (Parser Reader Record)
open Blob.Reader (Between)
open Flash (FlashSource)

/-! ### The checks read the blob in one pass -/

section Passes

variable {σ : Type} [Source σ] {fresh : σ → Prop} {I : Nat → σ → Prop}

theorem sumTensors_passes (h : Source.Passes fresh I) (counts : List UInt32) :
    Triple (Between I) (sumTensors counts : Action (Reader σ) (UInt32 × Nat))
      (fun _ => Between I) fun _ _ => True := by
  induction counts with
  | nil => exact .pure fun _ hr => hr
  | cons count counts ih =>
    exact .bind (Blob.Reader.tensor_passes h count) fun _ => .bind ih fun _ => .pure fun _ hr => hr

theorem runEach_passes (h : Source.Passes fresh I) (checks : List Check) :
    Triple (Between I) (runEach checks : Action (Reader σ) (List Finding))
      (fun _ => Between I) fun _ _ => True := by
  induction checks with
  | nil => exact .pure fun _ hr => hr
  | cons check checks ih =>
    have hcheck : Triple (Between I) (runCheck check : Action (Reader σ) Finding)
        (fun _ => Between I) fun _ _ => True :=
      .bind (sumTensors_passes h check.tensors) fun _ => .pure fun _ hr => hr
    exact .bind hcheck fun _ => .bind ih fun _ => .pure fun _ hr => hr

/-- **After all checks, all bytes in front of the cursor are read.** -/
theorem runChecks_passes (h : Source.Passes fresh I) (checks : List Check) :
    Triple (fun r => fresh r.source) (runChecks checks : Action (Reader σ) (List Finding))
      (fun _ => Between I) fun _ _ => True := by
  refine .bind (Blob.Reader.reset_passes h) fun ok => ?_
  cases ok with
  | true =>
    exact (runEach_passes h checks).imp (fun _ hr => hr rfl) (fun _ _ hr => hr) fun _ _ he => he
  | false => exact .get fun _ _ => .fail fun _ _ => trivial

end Passes

/-! ### What is fetched -/

variable {blob bytes : Bytes} {cfg : Config} {report : Report} {fs : List Finding} {q : Parser}

/-- The word at an address holds a byte of the magic or of one of some records. -/
def Needed (records : List Record) (address : UInt32) : Prop :=
  ∃ position, address = Flash.Window.wordAddress position ∧
    (position < 4 ∨ ∃ record ∈ records, record.position ≤ position ∧ position < record.stop)

/-- A parser counts the bytes up to its cursor, which is the end of a word. -/
theorem cursor_of_parse {p : Parser} (h : parse bytes cfg.checks p = .ok (fs, q)) :
    Blob.headerBytes ≤ q.cursor ∧ q.cursor % 4 = 0 ∧ q.stats.bytes = q.cursor ∧
      q.cursor ≤ Blob.alignUp bytes.size := by
  obtain ⟨ha, ts, hts, -⟩ := parse_eq_ok h
  have hopened : (p.opened bytes).cursor = Blob.headerBytes ∧
      (p.opened bytes).stats.bytes = Blob.headerBytes := by
    simp [Parser.opened, ha]
  have hheader : Blob.headerBytes ≤ bytes.size := (of_decide_eq_true ha).1
  obtain ⟨hle, hz, hbytes⟩ := Parser.tensors_cursor hts (by rw [hopened.1]; rfl)
  have hend := Parser.cursor_le_of_tensors hts
  have hup := (Blob.alignUp_spec bytes.size).1
  rw [hopened.1] at hle hbytes hend
  rw [hopened.2] at hbytes
  exact ⟨hle, hz, by omega, by omega⟩

/-- **The words in front of the cursor are those of the magic and of the consumed records.** -/
theorem mem_fetched {p : Parser} (h : parse bytes cfg.checks p = .ok (fs, q)) (address : UInt32) :
    address ∈ 0 :: Flash.Window.wordsIn Blob.headerBytes q.cursor ↔
      Needed (consumed bytes cfg.checks) address := by
  obtain ⟨-, ts, hts, -⟩ := parse_eq_ok h
  have hheader : (p.opened bytes).cursor = 16 := rfl
  have htile := Parser.tensors_tile hts (by rw [hheader])
  rw [List.mem_cons, Flash.Window.mem_wordsIn]
  constructor
  · rintro (rfl | ⟨position, hzero, hle, hlt, rfl⟩)
    · exact ⟨0, rfl, .inl (by decide)⟩
    · obtain ⟨record, hr, hin, hstop⟩ := (htile position).2 ⟨hle, hlt⟩
      -- What is in the padding is not the first byte of a word.
      unfold Blob.alignUp at hstop
      exact ⟨position, rfl, .inr ⟨record, hr, hin, by omega⟩⟩
  · rintro ⟨position, rfl, hmagic | ⟨record, hr, hin, hstop⟩⟩
    · refine .inl ?_
      rw [Flash.Window.wordAddress, Nat.div_eq_of_lt hmagic]
      rfl
    · obtain ⟨hle, hlt⟩ := (htile position).1
        ⟨record, hr, hin, Nat.lt_of_lt_of_le hstop (Blob.alignUp_spec _).1⟩
      rw [hheader] at hle
      refine .inr ⟨position / 4 * 4, by omega, ?_, by omega, ?_⟩
      · change 16 ≤ _
        omega
      · rw [Flash.Window.wordAddress, Flash.Window.wordAddress, Nat.mul_div_cancel _ (by decide)]

theorem nodup_fetched {n : Nat} (hn : n ≤ 2 ^ 32) :
    (0 :: Flash.Window.wordsIn Blob.headerBytes n).Nodup := by
  refine List.nodup_cons.2 ⟨fun hmem => ?_, Flash.Window.nodup_wordsIn hn⟩
  obtain ⟨position, hz, hle, hlt, he⟩ := Flash.Window.mem_wordsIn.1 hmem
  have hnat := Flash.Window.toNat_wordAddress (Nat.lt_of_lt_of_le hlt hn)
  rw [← he] at hnat
  change 0 = _ at hnat
  unfold Blob.headerBytes at hle
  omega

/-! ### What is counted -/

/-- The figures of a verification over the link that went through some bytes of the blob. -/
structure FlashUse.Exact (cfg : Flash.Engine.Config) (bytes : Nat) (use : FlashUse) : Prop where
  whole_words : bytes % 4 = 0
  /-- Of the header one word is fetched, and three are not. -/
  wordReads_eq : use.wordReads + 3 = bytes / 4
  reads_eq : use.stats.reads = use.wordReads
  count_eq : use.stats.latency.count = use.wordReads
  total_eq : use.stats.latency.total = use.stats.total
  /-- No counter of 64 bits wraps. -/
  total_lt : use.stats.total < 2 ^ 64
  stall_eq : use.stats.stall + use.stats.reads = use.stats.total
  wakeCommands_eq : use.stats.wakeCommands = if cfg.wakeOnBoot then 3 else 0
  busy_eq : use.stats.busy + use.stats.reads +
    (if cfg.wakeOnBoot then 3 * (cfg.wakeDelay.toNat + 1) else 0) = use.stats.total
  writeAcks_eq : use.stats.writeAcks = 0
  min_le : use.stats.latency.count * use.stats.latency.min ≤ use.stats.latency.total
  le_max : use.stats.latency.total ≤ use.stats.latency.count * use.stats.latency.max

/-- **The figures are those of the reads that one pass takes.** -/
theorem exact_of_readTo {link : Flash.Link.Config} {first : Flash.Link}
    (hfirst : Flash.Link.Ledger link 0 first) {last : Reader FlashSource}
    (hread : FlashSource.ReadTo first (0 :: Flash.Window.wordsIn Blob.headerBytes last.cursor)
      last.cursor last.source)
    (hheader : Blob.headerBytes ≤ last.cursor) (hz : last.cursor % 4 = 0)
    (hend : last.cursor ≤ Flash.Window.maxSize) :
    (flashUse last).Exact link.engine last.cursor := by
  unfold Flash.Window.maxSize at hend
  have hcount : last.source.window.wordReads + 3 = last.cursor / 4 := by
    rw [hread.wordReads_eq, List.length_cons, Flash.Window.length_wordsIn]
    unfold Blob.headerBytes at hheader ⊢
    omega
  have h := hread.served.ledger hfirst
  rw [← hread.wordReads_eq, Nat.zero_add] at h
  obtain ⟨hcommands, hpaused⟩ := h.woken (by
    rw [hread.wordReads_eq]
    exact Nat.succ_pos _)
  have hlt := h.total_lt (by omega)
  have htotal := h.latency.total_eq
  rw [Nat.mod_eq_of_lt hlt] at htotal
  have hmin := h.latency.min_le
  have hmax := h.latency.le_max
  rw [← h.latency.count_eq, ← htotal] at hmin hmax
  have hbusy := h.counted.busy_eq
  rw [hpaused] at hbusy
  exact ⟨hz, hcount, h.reads_eq, h.latency.count_eq, htotal, hlt, h.counted.stall_eq,
    h.counted.wakeCommands_eq.trans hcommands, hbusy, h.counted.writeAcks_eq, hmin, hmax⟩

/-- **The cost figures of a verification over the link are exact.**  Each word that holds a byte of
the magic or of a consumed record is fetched once, and nothing else is read over the link.  So there
are as many reads as the consumed bytes have words, without the three words of the header behind
the magic.  All cycles of a read but the last one are stalls, and all of them are its latency.  A
frame is on the link after every cycle but the last one of a read and those for which the handshake
keeps the device released. -/
theorem costs_exact (h : (run blob { cfg with backing := .flash }).1 = .ok report) :
    ∃ reader, flashReader blob cfg = .ok reader ∧
      let last := ((runChecks cfg.checks).run reader).state
      report.flash = some (flashUse last) ∧
      (flashUse last).Exact cfg.link.engine report.stream.bytes ∧
      ∃ fetched, Flash.Link.Served fetched reader.source.link last.source.link ∧
        fetched.length = last.source.window.wordReads ∧ fetched.Nodup ∧
        ∀ address, address ∈ fetched ↔ Needed (consumed (shown blob cfg) cfg.checks) address := by
  obtain ⟨reader, fs, last, events, hreader, hrun, hparse, rfl⟩ := reader_of_report h
  refine ⟨reader, hreader, ?_⟩
  rw [hrun]
  obtain ⟨hblob, hroom, -, link, device, hl, -, rfl⟩ := flashReader_eq_ok hreader
  obtain ⟨-, hconfig, hengine, hstats, -⟩ := Flash.Link.create_eq_ok hl
  have hmax : cfg.window.toNat ≤ Flash.Window.maxSize := Nat.le_trans (Nat.le_add_left _ _) hroom
  have hfirst : Flash.Link.Ledger cfg.deviceLink 0 { link with device } :=
    Flash.Link.ledger_powerOn hconfig hengine hstats
  obtain ⟨-, hread⟩ := (runChecks_passes (FlashSource.passes { link with device })
    cfg.checks).result_ok (FlashSource.readTo_zero hmax _) (congrArg Outcome.result hrun)
  rw [hrun] at hread
  obtain ⟨hheader, hz, hbytes, hend⟩ := cursor_of_parse hparse
  have hcursor : last.cursor ≤ Flash.Window.maxSize := by
    change last.cursor ≤ _ at hend
    rw [size_shown hblob] at hend
    unfold Blob.alignUp at hend
    unfold Flash.Window.maxSize at hmax ⊢
    omega
  have hexact := exact_of_readTo hfirst hread hheader hz hcursor
  have hstream : last.stats.bytes = last.cursor := hbytes
  rw [← hstream] at hexact
  exact ⟨rfl, hexact, _, hread.served, hread.wordReads_eq.symm,
    nodup_fetched (Nat.le_trans hcursor (by decide)), mem_fetched hparse⟩

/-- The sample verification over a link that has to wake its device, behind a fast clock. -/
def wakingConfig : Config := { sampleConfig with link := ⟨⟨1, 0, true, 2⟩, 0x200000, true, 0⟩ }

/-- The block of the sample starts with a word and ends inside one.  Its padding costs nothing. -/
theorem costs_exact_waking : ∃ report use,
    (run sampleBlob { wakingConfig with backing := .flash }).1 = .ok report ∧
      report.stream.bytes = 44 ∧ report.flash = some use ∧ use.wordReads = 8 ∧
      use.stats.stall + 8 = use.stats.total ∧ use.stats.busy + 17 = use.stats.total ∧
      use.stats.wakeCommands = 3 := by
  have hbytes : (run sampleBlob { wakingConfig with backing := .flash }).1.toOption.map
      (fun report => report.stream.bytes) = some 44 := by decide +kernel
  obtain ⟨report, hreport, hbytes⟩ := Option.map_eq_some_iff.1 hbytes
  have h := eq_ok_of_toOption hreport
  obtain ⟨reader, -, hflash, hexact, -⟩ := costs_exact h
  rw [hbytes] at hexact
  have hwords := hexact.wordReads_eq
  have hreads := hexact.reads_eq
  have hstall := hexact.stall_eq
  have hbusy := hexact.busy_eq
  change _ + 3 * (2 + 1) = _ at hbusy
  exact ⟨report, _, h, hbytes, hflash, by omega, by omega, by omega, hexact.wakeCommands_eq⟩

end Verify
end WeightLink
