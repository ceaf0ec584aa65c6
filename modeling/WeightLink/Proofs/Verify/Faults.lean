/-
# How a verification fails

Bounds are checked in five places on the way from a configuration to the bytes of a blob: by the
configuration, by the runner, by the device, when it is programmed, and by the sources.  For an
accepted configuration only the check of the runner can refuse anything (`run_oversized`).  Once it
passes, what can go wrong is a blob that is not well formed, a tensor that does not fit the scratch
buffer, and a link that hangs (`kind_of_run`).  So no other check is ever met, whatever the blob
holds (`run_faults`).
-/

import WeightLink.Proofs.Verify.Backing

namespace WeightLink

namespace Blob.Parser

/-- Tensors are refused as ill-formed or for want of room. -/
theorem kind_of_tensors {bytes : Bytes} {counts : List UInt32} {p : Parser} {e : Fault}
    (h : p.tensors bytes counts = .error e) : e.kind = .format ∨ e.kind = .overrun := by
  induction counts generalizing p with
  | nil => exact nomatch h
  | cons count counts ih =>
    cases hfirst : p.tensor bytes count with
    | ok x =>
      rw [tensors_cons hfirst] at h
      cases hrest : x.2.tensors bytes counts with
      | ok y => simp [hrest, Except.map] at h
      | error e' =>
        rw [hrest] at h
        obtain rfl := Except.error.inj h
        exact ih hrest
    | error e' =>
      rw [tensors_cons_error hfirst] at h
      obtain rfl := Except.error.inj h
      rw [tensor] at hfirst
      rcases p.record_cases bytes count with ⟨-, e, he, hk⟩ | ⟨-, -, e, he, hk⟩ | ⟨-, -, ho⟩
      · rw [he] at hfirst
        exact .inl (Except.error.inj hfirst ▸ hk)
      · rw [he] at hfirst
        exact .inr (Except.error.inj hfirst ▸ hk)
      · simp [ho, Except.map] at hfirst

end Blob.Parser

namespace Verify

variable {blob bytes : Bytes} {cfg : Config} {e : Fault}

/-- With the bytes at hand, a verification fails in the same two ways. -/
theorem kind_of_parse {checks : List Check} {p : Blob.Parser}
    (h : parse bytes checks p = .error e) : e.kind = .format ∨ e.kind = .overrun := by
  unfold parse at h
  cases ha : Blob.accepts bytes with
  | false =>
    rw [ha] at h
    obtain rfl := Except.error.inj h
    exact .inl rfl
  | true =>
    rw [ha, if_pos rfl] at h
    cases ht : (p.opened bytes).tensors bytes (counts checks) with
    | ok x => simp [ht, Except.map] at h
    | error e' =>
      rw [ht] at h
      obtain rfl := Except.error.inj h
      exact Blob.Parser.kind_of_tensors ht

theorem kind_of_parseReport {flash : Option FlashUse} (h : parseReport bytes cfg flash = .error e) :
    e.kind = .format ∨ e.kind = .overrun := by
  unfold parseReport at h
  cases hp : parse bytes cfg.checks (start cfg) with
  | ok x => simp [hp, Except.map] at h
  | error e' =>
    rw [hp] at h
    obtain rfl := Except.error.inj h
    exact kind_of_parse hp

/-- Over the link, the blob exceeds the window, or the window the address space. -/
def Config.Oversized (cfg : Config) (blob : Bytes) : Prop :=
  cfg.backing = .flash ∧ (cfg.window.toNat < blob.size ∨
    2 ^ 24 < cfg.link.engine.offset.toNat + cfg.window.toNat)

/-- An accepted configuration leaves the size of the blob and the end of the window to be
checked. -/
theorem Config.fits_iff {v : Json} (hcfg : Config.ofJson v = .ok cfg) : cfg.Fits blob ↔
    blob.size ≤ cfg.window.toNat ∧
      cfg.link.engine.offset.toNat + cfg.window.toNat ≤ 2 ^ 24 := by
  obtain ⟨hpos, hdevice⟩ := Config.ofJson_bounds hcfg
  constructor
  · exact fun h => ⟨h.blob_le, h.end_le⟩
  · exact fun ⟨hblob, hend⟩ => ⟨hblob, hpos, hend, by rw [hdevice]; decide⟩

theorem Config.fits_of_not_oversized {v : Json} (hcfg : Config.ofJson v = .ok cfg)
    (h : ¬cfg.Oversized blob) (hflash : cfg.backing = .flash) : cfg.Fits blob := by
  rw [Config.fits_iff hcfg, ← Nat.not_lt, ← Nat.not_lt, ← not_or]
  exact fun hsize => h ⟨hflash, hsize⟩

/-- What does not fit is refused before there is a link. -/
theorem run_oversized (h : cfg.Oversized blob) :
    (run blob cfg).1 = .error (.blobOverWindow blob.size cfg.window.toNat) ∨
      (run blob cfg).1 = .error .windowOverDevice := by
  obtain ⟨hflash, hsize⟩ := h
  by_cases hblob : cfg.window.toNat < blob.size
  · left
    have hreader : flashReader blob cfg = .error (.blobOverWindow blob.size cfg.window.toNat) := by
      unfold flashReader
      rw [if_pos hblob]
      rfl
    simp only [run, hflash, hreader]
  · right
    have hend : Flash.Device.maxCapacity < cfg.link.engine.offset.toNat + cfg.window.toNat :=
      hsize.resolve_left hblob
    have hreader : flashReader blob cfg = .error .windowOverDevice := by
      unfold flashReader
      rw [if_neg hblob, if_pos hend]
      rfl
    simp only [run, hflash, hreader]

/-- What fits fails for what is in the blob, or with the link. -/
theorem kind_of_run (hfits : cfg.backing = .flash → cfg.Fits blob)
    (h : (run blob cfg).1 = .error e) :
    e.kind = .format ∨ e.kind = .overrun ∨ cfg.backing = .flash ∧ cfg.link.Hangs e := by
  cases hb : cfg.backing with
  | memory =>
    have hsame : cfg = { cfg with backing := .memory } := by rw [← hb]
    rw [hsame, run_memory] at h
    exact (kind_of_parseReport h).imp_right .inl
  | flash =>
    have hsame : cfg = { cfg with backing := .flash } := by rw [← hb]
    rcases run_flash (hfits hb) with ⟨use, huse⟩ | ⟨e', he, hhang⟩
    · rw [hsame, huse] at h
      exact (kind_of_parseReport h).imp_right .inl
    · rw [hsame, he] at h
      obtain rfl := Except.error.inj h
      exact .inr (.inr ⟨rfl, hhang⟩)

/-- The faults of a verification: one of the runner, or one of the blob or the link. -/
theorem run_error_cases {v : Json} (hcfg : Config.ofJson v = .ok cfg)
    (h : (run blob cfg).1 = .error e) :
    (cfg.Oversized blob ∧
      (e = .blobOverWindow blob.size cfg.window.toNat ∨ e = .windowOverDevice)) ∨
    (¬cfg.Oversized blob ∧ (e.kind = .format ∨ e.kind = .overrun ∨
      e.kind = .hang ∧ cfg.backing = .flash ∧ 0 < cfg.link.maxWaitCycles)) := by
  by_cases hover : cfg.Oversized blob
  · refine .inl ⟨hover, ?_⟩
    rcases run_oversized hover with he | he
    · exact .inl (Except.error.inj (h.symm.trans he))
    · exact .inr (Except.error.inj (h.symm.trans he))
  · refine .inr ⟨hover, ?_⟩
    rcases kind_of_run (Config.fits_of_not_oversized hcfg hover) h with hk | hk | ⟨hflash, hk⟩
    · exact .inl hk
    · exact .inr (.inl hk)
    · exact .inr (.inr ⟨hk.1, hflash, Nat.pos_of_ne_zero hk.2⟩)

/-- **A verification fails only as documented.**  With an accepted configuration, every blob gives
a report, or is refused as ill-formed, for want of room, because the link hangs, which takes the
link and a budget, or as an argument.  The last is so exactly if there is a link and the blob
exceeds the window, or the window the address space.  So no check of bounds behind that of the
runner ever fails. -/
theorem run_faults {v : Json} (hcfg : Config.ofJson v = .ok cfg) (blob : Bytes) :
    ((∃ report, (run blob cfg).1 = .ok report) ∨
      ∃ e, (run blob cfg).1 = .error e ∧
        (e.kind = .format ∨ e.kind = .overrun ∨
          (e.kind = .hang ∧ cfg.backing = .flash ∧ 0 < cfg.link.maxWaitCycles) ∨
          e.kind = .argument)) ∧
    ((∃ e, (run blob cfg).1 = .error e ∧ e.kind = .argument) ↔
      cfg.backing = .flash ∧ (cfg.window.toNat < blob.size ∨
        2 ^ 24 < cfg.link.engine.offset.toNat + cfg.window.toNat)) ∧
    ∀ offset count size, (run blob cfg).1 ≠ .error (.imageBounds offset count size) ∧
      (run blob cfg).1 ≠ .error (.memoryBounds offset count size) ∧
      (run blob cfg).1 ≠ .error (.flashBounds offset count size) ∧
      (run blob cfg).1 ≠ .error (.deviceCapacity size) ∧
      (run blob cfg).1 ≠ .error (.windowSize size) := by
  refine ⟨?_, ⟨fun ⟨e, he, harg⟩ => ?_, fun hover => ?_⟩, fun offset count size => ?_⟩
  · cases he : (run blob cfg).1 with
    | ok report => exact .inl ⟨report, rfl⟩
    | error e =>
      refine .inr ⟨e, rfl, ?_⟩
      rcases run_error_cases hcfg he with ⟨-, rfl | rfl⟩ | ⟨-, hk | hk | hk⟩
      · exact .inr (.inr (.inr rfl))
      · exact .inr (.inr (.inr rfl))
      · exact .inl hk
      · exact .inr (.inl hk)
      · exact .inr (.inr (.inl hk))
  · rcases run_error_cases hcfg he with ⟨hover, -⟩ | ⟨-, hk⟩
    · exact hover
    · simp [harg] at hk
  · rcases run_oversized hover with he | he
    · exact ⟨_, he, rfl⟩
    · exact ⟨_, he, rfl⟩
  · -- Such a fault is not one of the runner, and of none of the other kinds.
    refine ⟨fun he => ?_, fun he => ?_, fun he => ?_, fun he => ?_, fun he => ?_⟩ <;>
      simpa [Fault.kind] using run_error_cases hcfg he

/-- The settings of the sample, over the link. -/
def linkJson : Json := .object
  [("backing", .string "flash"),
    ("checks", .array
      [.object [("name", .string "w"), ("tensors", .array [.number (.unsigned 2)])]]),
    ("flash", .object
      [("max_wait_cycles", .number (.unsigned 1)), ("offset", .number (.unsigned 0xFFFFD5)),
        ("window_bytes", .number (.unsigned 43))])]

/-- What they say. -/
def linkConfig : Config :=
  { sampleConfig with
    backing := .flash
    link := ⟨⟨0xFFFFD5, 0, true, 16⟩, 0x200000, true, 1⟩ }

/-- One byte more than the window has makes no sense as an argument.  An empty blob fails too, but
for another reason. -/
theorem run_faults_link : Config.ofJson linkJson = .ok linkConfig ∧
    (∃ e, (run (Array.replicate 44 0) linkConfig).1 = .error e ∧ e.kind = .argument) ∧
    (∀ e, (run #[] linkConfig).1 = .error e → e.kind ≠ .argument) ∧
    (run #[] linkConfig).1.toOption = none := by
  have hcfg : Config.ofJson linkJson = .ok linkConfig := eq_ok_of_toOption (by decide +kernel)
  refine ⟨hcfg, (run_faults hcfg _).2.1.2 ⟨rfl, .inl (by decide)⟩, fun e he harg => ?_,
    by decide +kernel⟩
  exact absurd ((run_faults hcfg _).2.1.1 ⟨e, he, harg⟩) (by decide +kernel)

end Verify
end WeightLink
