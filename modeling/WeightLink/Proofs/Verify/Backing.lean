/-
# The choice of the backing

A blob that fits the window of the flash link can be programmed (`Config.Fits`), and then the
window shows the blob with erased bytes behind it, up to the size of the window (`shown`).  A
verification over the link finds what is found in those bytes, unless the link hangs
(`run_flash`).  So a blob that is verified in memory is verified alike over the link
(`backings_agree`).
-/

import WeightLink.Proofs.Source.Ready
import WeightLink.Proofs.Verify.Parsing
import WeightLink.Proofs.Verify.Settings

namespace WeightLink
namespace Verify

open WeightLink.Action (Triple)
open Blob (Parser Reader Agree accepts)
open Flash (FlashSource)

/-! ### What the window shows -/

/-- Bytes with erased ones behind them, up to a size. -/
def padded (bytes : Bytes) (size : Nat) : Bytes :=
  bytes ++ Array.replicate (size - bytes.size) Flash.Image.erasedByte

/-- The bytes that the window shows of a blob: none of them if nobody wakes the device. -/
def shown (blob : Bytes) (cfg : Config) : Bytes :=
  if cfg.link.engine.wakeOnBoot || !cfg.link.deviceRequiresWake then padded blob cfg.window.toNat
  else padded #[] cfg.window.toNat

/-- A blob fits the window, and the window and the device fit the address space. -/
structure Config.Fits (cfg : Config) (blob : Bytes) : Prop where
  blob_le : blob.size ≤ cfg.window.toNat
  window_pos : 0 < cfg.window.toNat
  end_le : cfg.link.engine.offset.toNat + cfg.window.toNat ≤ Flash.Device.maxCapacity
  device_le : cfg.link.deviceBytes ≤ Flash.Device.maxCapacity

instance (cfg : Config) (blob : Bytes) : Decidable (cfg.Fits blob) :=
  decidable_of_iff (blob.size ≤ cfg.window.toNat ∧ 0 < cfg.window.toNat ∧
      cfg.link.engine.offset.toNat + cfg.window.toNat ≤ Flash.Device.maxCapacity ∧
      cfg.link.deviceBytes ≤ Flash.Device.maxCapacity)
    ⟨fun ⟨hb, hw, he, hd⟩ => ⟨hb, hw, he, hd⟩, fun ⟨hb, hw, he, hd⟩ => ⟨hb, hw, he, hd⟩⟩

/-- The settings of the link, with a device that holds the window. -/
def Config.deviceLink (cfg : Config) : Flash.Link.Config :=
  { cfg.link with
    deviceBytes := max cfg.link.deviceBytes (cfg.link.engine.offset.toNat + cfg.window.toNat) }

variable {blob bytes : Bytes} {cfg : Config} {n i : Nat}

theorem size_padded (h : bytes.size ≤ n) : (padded bytes n).size = n := by
  simp [padded]
  omega

theorem agree_padded (bytes : Bytes) (n : Nat) : Agree bytes.size bytes (padded bytes n) :=
  .append bytes _

theorem getElem?_padded (h : i < n) :
    (padded bytes n)[i]? = some (bytes[i]?.getD Flash.Image.erasedByte) := by
  unfold padded
  by_cases hi : i < bytes.size
  · rw [Array.getElem?_append_left hi, Array.getElem?_eq_getElem hi]
    rfl
  · rw [Array.getElem?_append_right (by omega), Array.getElem?_replicate, if_pos (by omega),
      Array.getElem?_eq_none (by omega)]
    rfl

theorem getElem?_shown (h : i < cfg.window.toNat) : (shown blob cfg)[i]? =
    some (if cfg.link.engine.wakeOnBoot || !cfg.link.deviceRequiresWake then
      blob[i]?.getD Flash.Image.erasedByte else Flash.Image.erasedByte) := by
  unfold shown
  split
  · exact getElem?_padded h
  · exact getElem?_padded h

/-- The window of a device that is awake shows the blob. -/
theorem shown_awake
    (h : cfg.link.engine.wakeOnBoot = true ∨ cfg.link.deviceRequiresWake = false) :
    shown blob cfg = padded blob cfg.window.toNat := by
  unfold shown
  rw [if_pos (by simpa using h)]

theorem size_shown (h : blob.size ≤ cfg.window.toNat) :
    (shown blob cfg).size = cfg.window.toNat := by
  unfold shown
  split
  · exact size_padded h
  · exact size_padded (Nat.zero_le _)

/-! ### Programming -/

/-- What a reader over the link starts with: a link after power-on in whose device the blob was
programmed, and a window that holds no word. -/
theorem flashReader_eq_ok {reader : Reader FlashSource} (h : flashReader blob cfg = .ok reader) :
    blob.size ≤ cfg.window.toNat ∧
    cfg.link.engine.offset.toNat + cfg.window.toNat ≤ Flash.Device.maxCapacity ∧
    0 < cfg.window.toNat ∧
    ∃ link device, Flash.Link.create cfg.deviceLink = .ok link ∧
      link.device.load cfg.link.engine.offset.toNat (.held blob) = .ok device ∧
      reader = .create ⟨⟨cfg.window.toNat, none, 0⟩, { link with device }⟩ cfg.decoder
        cfg.scratch := by
  unfold flashReader at h
  obtain ⟨hblob, h⟩ := guarded_eq_ok_iff.1 h
  obtain ⟨hend, h⟩ := guarded_eq_ok_iff.1 h
  obtain ⟨link, hl, h⟩ := eq_ok_of_bind h
  obtain ⟨device, hd, h⟩ := eq_ok_of_bind h
  obtain ⟨window, hw, h⟩ := eq_ok_of_bind h
  unfold Flash.Window.create at hw
  split at hw
  · exact nomatch hw
  · obtain rfl := Except.ok.inj hw
    exact ⟨Nat.le_of_not_lt hblob, Nat.le_of_not_lt hend, by omega, link, device, hl, hd,
      (Except.ok.inj h).symm⟩

theorem fits_of_flashReader {reader : Reader FlashSource}
    (h : flashReader blob cfg = .ok reader) : cfg.Fits blob := by
  obtain ⟨hblob, hend, hpos, link, device, hl, -, -⟩ := flashReader_eq_ok h
  obtain ⟨hmax, -⟩ := Flash.Link.create_eq_ok hl
  exact ⟨hblob, hpos, hend, Nat.le_trans (Nat.le_max_left _ _) hmax⟩

/-- A blob that fits is programmed, and the reader is ready to read what the window shows. -/
theorem flashReader_follows (h : cfg.Fits blob) : ∃ reader f,
    flashReader blob cfg = .ok reader ∧
    (∀ i (hi : i < (shown blob cfg).size),
      (shown blob cfg)[i] = f (Flash.Window.wordAddress i) (i % 4)) ∧
    Reader.Follows (fun s => FlashSource.Ready cfg.deviceLink (shown blob cfg).size f s ∧ s.Honest)
      (start cfg) reader := by
  obtain ⟨hblob, hpos, hend, hdevice⟩ := h
  have hsize := size_shown hblob
  have hroom : cfg.link.engine.offset.toNat + cfg.window.toNat ≤ cfg.deviceLink.deviceBytes :=
    Nat.le_max_right _ _
  obtain ⟨link, hl⟩ := Flash.Link.create_of_le cfg.deviceLink (by omega)
    (Nat.max_le.2 ⟨hdevice, hend⟩)
  obtain ⟨-, -, -, -, himage⟩ := Flash.Link.create_eq_ok hl
  have hfree := Flash.Link.reading_create hl
  have hcap : cfg.link.engine.offset.toNat + blob.size ≤ link.device.image.capacity := by
    rw [himage]
    exact Nat.le_trans (Nat.add_le_add_left hblob _) hroom
  obtain ⟨device, hd⟩ := Flash.Device.load_of_le hcap
  have hw : Flash.Window.create cfg.window.toNat = .ok ⟨cfg.window.toNat, none, 0⟩ := by
    unfold Flash.Device.maxCapacity at hend
    unfold Flash.Window.create Flash.Window.maxSize
    rw [if_neg (by omega)]
  refine ⟨.create ⟨⟨cfg.window.toNat, none, 0⟩, { link with device }⟩ cfg.decoder cfg.scratch,
    Flash.Link.wordByte { link with device }, ?_, fun i hi => ?_,
    ⟨⟨.load _ _ (.create hl) hfree hd, hfree, hsize.symm, rfl⟩, fun _ hh => nomatch hh⟩, rfl⟩
  · unfold flashReader
    rw [if_neg (Nat.not_lt_of_le hblob), if_neg (Nat.not_lt_of_le hend)]
    change (Flash.Link.create cfg.deviceLink >>= _) = _
    rw [hl]
    change (link.device.load cfg.link.engine.offset.toNat (.held blob) >>= _) = _
    rw [hd]
    change (Flash.Window.create cfg.window.toNat >>= _) = _
    rw [hw]
    rfl
  · have hi' : i < cfg.window.toNat := hsize ▸ hi
    have hin : cfg.link.engine.offset.toNat + i < cfg.deviceLink.deviceBytes := by omega
    apply Option.some.inj
    rw [Flash.Link.wordByte_programmed hl hd hin, ← Array.getElem?_eq_getElem hi,
      getElem?_shown hi']
    rfl

theorem parseReport_eq_ok {flash : Option FlashUse} {report : Report}
    (h : parseReport bytes cfg flash = .ok report) : ∃ fs q,
    parse bytes cfg.checks (start cfg) = .ok (fs, q) ∧ report = reportOf q flash fs := by
  unfold parseReport at h
  cases hp : parse bytes cfg.checks (start cfg) with
  | error e =>
    rw [hp] at h
    exact nomatch h
  | ok x =>
    rw [hp] at h
    exact ⟨x.1, x.2, rfl, (Except.ok.inj h).symm⟩

/-- Over the link, a report needs a reader. -/
theorem run_flash_eq (blob : Bytes) (cfg : Config) :
    (run blob { cfg with backing := .flash }).1 = flashReader blob cfg >>= fun reader =>
      ((runChecks cfg.checks).run reader).result.map
        (reportOf ((runChecks cfg.checks).run reader).state
          (some (flashUse ((runChecks cfg.checks).run reader).state))) := by
  have hsame : flashReader blob { cfg with backing := .flash } = flashReader blob cfg := rfl
  unfold run
  dsimp only
  rw [hsame]
  cases flashReader blob cfg <;> rfl

theorem fits_of_report {report : Report}
    (h : (run blob { cfg with backing := .flash }).1 = .ok report) : cfg.Fits blob := by
  rw [run_flash_eq] at h
  obtain ⟨reader, hr, -⟩ := eq_ok_of_bind h
  exact fits_of_flashReader hr

/-- What the checks find over the link. -/
theorem runChecks_flash (h : cfg.Fits blob) : ∃ reader, flashReader blob cfg = .ok reader ∧
    match (runChecks cfg.checks).run reader with
    | ⟨.ok fs, last, _⟩ => parse (shown blob cfg) cfg.checks (start cfg) = .ok (fs, last.bare)
    | ⟨.error e, _, _⟩ =>
      cfg.link.Hangs e ∨ parse (shown blob cfg) cfg.checks (start cfg) = .error e := by
  obtain ⟨reader, f, hreader, hbytes, hfollows⟩ := flashReader_follows h
  have hsize : (shown blob cfg).size ≤ Flash.Window.maxSize := by
    rw [size_shown h.blob_le]
    exact Nat.le_trans (Nat.le_add_left _ _) h.end_le
  have hrun := runChecks_follows (FlashSource.shows hsize hbytes) (start cfg) cfg.checks reader
    hfollows
  refine ⟨reader, hreader, ?_⟩
  revert hrun
  rcases (runChecks cfg.checks).run reader with ⟨e | fs, last, es⟩
  · exact id
  · exact And.right

/-- **Over the link, a verification is a function of what the window shows**, unless the link
hangs. -/
theorem run_flash (h : cfg.Fits blob) :
    (∃ use, (run blob { cfg with backing := .flash }).1 =
      parseReport (shown blob cfg) cfg (some use)) ∨
    ∃ e, (run blob { cfg with backing := .flash }).1 = .error e ∧ cfg.link.Hangs e := by
  obtain ⟨reader, hreader, hrun⟩ := runChecks_flash h
  rw [run_flash_eq, hreader]
  simp only [bind, Except.bind]
  revert hrun
  rcases (runChecks cfg.checks).run reader with ⟨e | fs, last, es⟩
  · rintro (he | he)
    · exact .inr ⟨e, rfl, he⟩
    · exact .inl ⟨flashUse last, by rw [parseReport, he]; rfl⟩
  · intro hfs
    exact .inl ⟨flashUse last, by rw [parseReport, hfs]; rfl⟩

/-- A report over the link is what a reader of the link finds in what the window shows. -/
theorem reader_of_report {report : Report}
    (h : (run blob { cfg with backing := .flash }).1 = .ok report) :
    ∃ reader fs last events, flashReader blob cfg = .ok reader ∧
      (runChecks cfg.checks).run reader = ⟨.ok fs, last, events⟩ ∧
      parse (shown blob cfg) cfg.checks (start cfg) = .ok (fs, last.bare) ∧
      report = reportOf last (some (flashUse last)) fs := by
  rw [run_flash_eq] at h
  obtain ⟨reader, hreader, h⟩ := eq_ok_of_bind h
  obtain ⟨_, hreader', hparse⟩ := runChecks_flash (fits_of_flashReader hreader)
  obtain rfl := Except.ok.inj (hreader.symm.trans hreader')
  revert h hparse
  rcases hrun : (runChecks cfg.checks).run reader with ⟨e | fs, last, events⟩
  · exact fun h => nomatch h
  · exact fun h hparse => ⟨reader, fs, last, events, hreader, hrun, hparse,
      (Except.ok.inj h).symm⟩

/-! ### Accepted configurations -/

/-- Whatever is configured, the window is not empty and the device has the default size. -/
theorem Config.linkOf_bounds {fields : List (String × Json)} {x : Flash.Link.Config × UInt32}
    (h : Config.linkOf fields = .ok x) :
    0 < x.2.toNat ∧ x.1.deviceBytes = Flash.Device.defaultCapacity := by
  unfold linkOf at h
  split at h
  · obtain rfl := Except.ok.inj h
    exact ⟨by decide, rfl⟩
  · obtain ⟨-, -, -, -, -, -, -, hdevice, -, hpos, -⟩ := linkOfFields_parts.1 h
    exact ⟨hpos, hdevice⟩
  · exact nomatch h

theorem Config.ofJson_bounds {v : Json} (h : Config.ofJson v = .ok cfg) :
    0 < cfg.window.toNat ∧ cfg.link.deviceBytes = Flash.Device.defaultCapacity := by
  unfold ofJson at h
  split at h
  · obtain ⟨-, -, -, -, hlink, -⟩ := ofFields_parts.1 h
    exact linkOf_bounds hlink
  · exact nomatch h

/-- **What is verified in memory is verified alike over the link.** -/
theorem backings_agree {v : Json} {report : Report} (hcfg : Config.ofJson v = .ok cfg)
    (hmax : cfg.link.maxWaitCycles = 0)
    (hawake : cfg.link.engine.wakeOnBoot = true ∨ cfg.link.deviceRequiresWake = false)
    (hblob : blob.size ≤ cfg.window.toNat)
    (hend : cfg.link.engine.offset.toNat + cfg.window.toNat ≤ 2 ^ 24)
    (h : (run blob { cfg with backing := .memory }).1 = .ok report) :
    ∃ use, (run blob { cfg with backing := .flash }).1 = .ok { report with flash := some use } := by
  obtain ⟨hpos, hdevice⟩ := Config.ofJson_bounds hcfg
  have hfits : cfg.Fits blob := ⟨hblob, hpos, hend, by rw [hdevice]; decide⟩
  rw [run_memory] at h
  obtain ⟨fs, q, hparse, rfl⟩ := parseReport_eq_ok h
  obtain ⟨hheader, hstop⟩ := complete_of_parse hparse
  obtain ⟨hpadded, -⟩ := parse_congr (agree_padded blob cfg.window.toNat)
    (by rwa [size_padded hblob]) hparse hheader hstop
  rcases run_flash hfits with ⟨use, huse⟩ | ⟨e, -, he⟩
  · refine ⟨use, ?_⟩
    rw [huse, shown_awake hawake, parseReport]
    exact congrArg (Except.map _) hpadded
  · exact absurd hmax he.2

/-- An offset that no word starts at, a slow clock, and a window that ends inside a word and with
the address space. -/
def sampleJson : Json := .object
  [("checks", .array
      [.object [("name", .string "w"), ("tensors", .array [.number (.unsigned 2)])]]),
    ("flash", .object
      [("clk_div", .number (.unsigned 1)), ("offset", .number (.unsigned 0xFFFFD5)),
        ("wake_delay", .number (.unsigned 2)), ("window_bytes", .number (.unsigned 43))])]

/-- What it says. -/
def sampleConfig : Config :=
  ⟨.memory, .host, 512, ⟨⟨0xFFFFD5, 1, true, 2⟩, 0x200000, true, 0⟩, 43, [⟨"w", [2], none⟩], ""⟩

/-- A record of one block with two elements. -/
def sampleBlob : Bytes :=
  #[0x30, 0x42, 0x57, 0x56, 0, 0, 0, 0, 0, 0, 0, 0, 0, 0, 0, 0,
    2, 0, 0, 0, 1, 0, 0, 0,
    0x50, 0x80, 0x12, 0x3F, 0, 0, 0, 0, 0, 0, 0, 0, 0, 0, 0, 0, 0, 0]

/-- The report on it. -/
def sampleReport : Report :=
  ⟨[⟨"w", 3, none, 2⟩], 0x56574230, .baseline, ⟨1, 1, 44, 0⟩, none⟩

theorem backings_agree_sample : Config.ofJson sampleJson = .ok sampleConfig ∧
    (run sampleBlob { sampleConfig with backing := .memory }).1 = .ok sampleReport ∧
    ∃ use, (run sampleBlob { sampleConfig with backing := .flash }).1 =
      .ok { sampleReport with flash := some use } := by
  have hcfg : Config.ofJson sampleJson = .ok sampleConfig := eq_ok_of_toOption (by decide +kernel)
  have h : (run sampleBlob { sampleConfig with backing := .memory }).1 = .ok sampleReport :=
    eq_ok_of_toOption (by decide +kernel)
  exact ⟨hcfg, h, backings_agree hcfg rfl (.inl rfl) (by decide) (by decide) h⟩

end Verify
end WeightLink
