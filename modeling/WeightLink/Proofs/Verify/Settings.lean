/-
# What a configuration says

A configuration is accepted exactly if what it says under each key makes sense (`Config.Accepted`),
and then every setting is what is stored under its key, or its default if nothing is stored there
(`Config.Described`).  Nothing is rounded or wrapped on the way, no other key matters, and what does
not make sense is refused as an argument (`Config.parsing_exact`).

There is one equation for the link (`Config.linkOf_eq_ok_iff`), one for an entry of the checks
(`Config.checkOf_eq_ok_iff`), and one for the whole (`Config.ofFields_eq_ok_iff`).  For each of them
there is also a lemma that what makes sense can be read.
-/

import Mathlib.Data.Set.List
import WeightLink.Proofs.Verify.Keys
import WeightLink.Proofs.Verify.Readers
import WeightLink.Proofs.Verify.Refusal

namespace WeightLink
namespace Verify.Config

open Json (Holds Takes IsText IsTruth IsNatural IsWord Between)

variable {fields : List (String × Json)} {key : String}

/-! ### The flash link -/

/-- The settings of the link make sense. -/
structure LinkAccepted (fields : List (String × Json)) : Prop where
  offset : Holds (Between 0 (2 ^ 24 - 1)) fields "offset"
  divider : Holds (Between 0 (2 ^ 32 - 1)) fields "clk_div"
  wakeOnBoot : Holds (fun v => ∃ b, IsTruth v b) fields "wake_on_boot"
  wakeDelay : Holds (Between 0 (2 ^ 32 - 1)) fields "wake_delay"
  window : Holds (Between 1 (2 ^ 24)) fields "window_bytes"
  maxWaitCycles : Holds (Between 0 (2 ^ 64 - 1)) fields "max_wait_cycles"
  deviceRequiresWake : Holds (fun v => ∃ b, IsTruth v b) fields "device_requires_wake"

/-- The settings of the link, and the size of the window, are these. -/
structure LinkDescribed (fields : List (String × Json)) (link : Flash.Link.Config)
    (window : UInt32) : Prop where
  offset : Takes IsWord fields "offset" 0x100000 link.engine.offset
  divider : Takes IsWord fields "clk_div" 0 link.engine.divider
  wakeOnBoot : Takes IsTruth fields "wake_on_boot" true link.engine.wakeOnBoot
  wakeDelay : Takes IsWord fields "wake_delay" 16 link.engine.wakeDelay
  window : Takes IsWord fields "window_bytes" 0x100000 window
  maxWaitCycles : Takes IsNatural fields "max_wait_cycles" 0 link.maxWaitCycles
  deviceRequiresWake : Takes IsTruth fields "device_requires_wake" true link.deviceRequiresWake
  /-- There is no key for the size of the device. -/
  deviceBytes : link.deviceBytes = 0x200000

/-- Each setting is read on its own, and then the offset and the window are held against the
address space. -/
theorem linkOfFields_parts {x : Flash.Link.Config × UInt32} : linkOfFields fields = .ok x ↔
    wordOr fields "flash." "offset" 0x100000 = .ok x.1.engine.offset ∧
    wordOr fields "flash." "clk_div" 0 = .ok x.1.engine.divider ∧
    boolOr fields "flash." "wake_on_boot" true = .ok x.1.engine.wakeOnBoot ∧
    wordOr fields "flash." "wake_delay" 16 = .ok x.1.engine.wakeDelay ∧
    wordOr fields "flash." "window_bytes" 0x100000 = .ok x.2 ∧
    unsignedOr fields "flash." "max_wait_cycles" 0 maxWord64 = .ok x.1.maxWaitCycles ∧
    boolOr fields "flash." "device_requires_wake" true = .ok x.1.deviceRequiresWake ∧
    x.1.deviceBytes = 0x200000 ∧ x.1.engine.offset.toNat < 2 ^ 24 ∧
    1 ≤ x.2.toNat ∧ x.2.toNat ≤ 2 ^ 24 := by
  have hoffset : ∀ w : UInt32, ¬Flash.Device.maxCapacity ≤ w.toNat ↔ w.toNat < 2 ^ 24 :=
    fun w => Nat.not_le
  have hwindow : ∀ w : UInt32,
      ¬(w = 0 ∨ Flash.Window.maxSize < w.toNat) ↔ 1 ≤ w.toNat ∧ w.toNat ≤ 2 ^ 24 := by
    intro w
    rw [not_or, ← UInt32.toNat_inj, Nat.not_lt, Nat.one_le_iff_ne_zero]
    rfl
  constructor
  · intro h
    obtain ⟨offset, ho, h⟩ := eq_ok_of_bind h
    obtain ⟨divider, hd, h⟩ := eq_ok_of_bind h
    obtain ⟨wakeOnBoot, hb, h⟩ := eq_ok_of_bind h
    obtain ⟨wakeDelay, hw, h⟩ := eq_ok_of_bind h
    obtain ⟨window, hs, h⟩ := eq_ok_of_bind h
    obtain ⟨maxWaitCycles, hm, h⟩ := eq_ok_of_bind h
    obtain ⟨deviceRequiresWake, hr, h⟩ := eq_ok_of_bind h
    obtain ⟨hhigh, h⟩ := guarded_eq_ok_iff.1 h
    obtain ⟨hsize, h⟩ := guarded_eq_ok_iff.1 h
    obtain rfl := Except.ok.inj h
    exact ⟨ho, hd, hb, hw, hs, hm, hr, rfl, (hoffset _).1 hhigh, (hwindow _).1 hsize⟩
  · obtain ⟨⟨⟨offset, divider, wakeOnBoot, wakeDelay⟩, deviceBytes, deviceRequiresWake,
      maxWaitCycles⟩, window⟩ := x
    rintro ⟨ho, hd, hb, hw, hs, hm, hr, rfl, hhigh, hsize⟩
    have hhigh := (hoffset offset).2 hhigh
    have hsize := (hwindow window).2 hsize
    exact bind_eq_ok_iff.2 ⟨offset, ho, bind_eq_ok_iff.2 ⟨divider, hd, bind_eq_ok_iff.2
      ⟨wakeOnBoot, hb, bind_eq_ok_iff.2 ⟨wakeDelay, hw, bind_eq_ok_iff.2 ⟨window, hs,
      bind_eq_ok_iff.2 ⟨maxWaitCycles, hm, bind_eq_ok_iff.2 ⟨deviceRequiresWake, hr,
      guarded_eq_ok_iff.2 ⟨hhigh, guarded_eq_ok_iff.2 ⟨hsize, rfl⟩⟩⟩⟩⟩⟩⟩⟩⟩

theorem linkOfFields_eq_ok_iff {x : Flash.Link.Config × UInt32} :
    linkOfFields fields = .ok x ↔ LinkAccepted fields ∧ LinkDescribed fields x.1 x.2 := by
  rw [linkOfFields_parts]
  simp only [wordOr_eq_ok_iff, boolOr_eq_ok_iff, unsignedOr_eq_ok_iff]
  constructor
  · rintro ⟨ho, hd, hb, hw, hs, ⟨hm, hlimit⟩, hr, hdevice, hhigh, hpos, hmax⟩
    refine ⟨⟨ho.holds fun v hv => ?_, hd.holds fun v hv => hv.between,
      hb.holds fun v hv => ⟨_, hv⟩, hw.holds fun v hv => hv.between, hs.holds fun v hv => ?_,
      hlimit, hr.holds fun v hv => ⟨_, hv⟩⟩, ⟨ho, hd, hb, hw, hs, hm, hr, hdevice⟩⟩
    · rw [hv]
      exact Json.between_ofWord_iff.2 ⟨Nat.zero_le _, Nat.le_of_lt_succ hhigh⟩
    · rw [hv]
      exact Json.between_ofWord_iff.2 ⟨hpos, hmax⟩
  · rintro ⟨ha, hx⟩
    have hoffset : x.1.engine.offset.toNat < 2 ^ 24 := by
      refine hx.offset.elim (Q := fun w => w.toNat < 2 ^ 24) ha.offset (by decide) ?_
      rintro v w hv rfl
      exact Nat.lt_succ_of_le (Json.between_ofWord_iff.1 hv).2
    have hwindow : 1 ≤ x.2.toNat ∧ x.2.toNat ≤ 2 ^ 24 := by
      refine hx.window.elim (Q := fun w => 1 ≤ w.toNat ∧ w.toNat ≤ 2 ^ 24) ha.window (by decide) ?_
      rintro v w hv rfl
      exact Json.between_ofWord_iff.1 hv
    exact ⟨hx.offset, hx.divider, hx.wakeOnBoot, hx.wakeDelay, hx.window,
      ⟨hx.maxWaitCycles, ha.maxWaitCycles⟩, hx.deviceRequiresWake, hx.deviceBytes, hoffset,
      hwindow⟩

/-- What makes sense can be read. -/
theorem LinkAccepted.exists_described (h : LinkAccepted fields) :
    ∃ x : Flash.Link.Config × UInt32, LinkDescribed fields x.1 x.2 := by
  obtain ⟨offset, ho⟩ := h.offset.exists_word (by decide) 0x100000
  obtain ⟨divider, hd⟩ := h.divider.exists_word (by decide) 0
  obtain ⟨wakeOnBoot, hb⟩ := h.wakeOnBoot.exists_takes true
  obtain ⟨wakeDelay, hw⟩ := h.wakeDelay.exists_word (by decide) 16
  obtain ⟨window, hs⟩ := h.window.exists_word (by decide) 0x100000
  obtain ⟨maxWaitCycles, hm⟩ := h.maxWaitCycles.exists_natural 0
  obtain ⟨deviceRequiresWake, hr⟩ := h.deviceRequiresWake.exists_takes true
  exact ⟨(⟨⟨offset, divider, wakeOnBoot, wakeDelay⟩, 0x200000, deviceRequiresWake, maxWaitCycles⟩,
    window), ⟨ho, hd, hb, hw, hs, hm, hr, rfl⟩⟩

/-- A value is an object with the settings of the link. -/
def IsLink (v : Json) (x : Flash.Link.Config × UInt32) : Prop :=
  ∃ link, v = .object link ∧ LinkDescribed link x.1 x.2

/-- A value is an object with settings of the link that make sense. -/
def IsGoodLink (v : Json) : Prop := ∃ link, v = .object link ∧ LinkAccepted link

theorem linkOf_eq_ok_iff {x : Flash.Link.Config × UInt32} : linkOf fields = .ok x ↔
    Holds IsGoodLink fields "flash" ∧ Takes IsLink fields "flash" defaultLink x := by
  unfold linkOf
  cases hv : Json.get? "flash" fields with
  | none =>
    rw [Json.takes_of_eq_none hv, Except.ok.injEq, eq_comm]
    exact (and_iff_right fun v h => nomatch hv.symm.trans h).symm
  | some v =>
    rw [Json.takes_of_eq_some hv, Json.holds_of_eq_some hv]
    cases v with
    | object link => simp [linkOfFields_eq_ok_iff, IsGoodLink, IsLink]
    | null | bool | number | string | array => simp [IsLink]

/-! ### Checks -/

/-- A value is an expected hash. -/
def IsHash (v : Json) (expected : Option UInt32) : Prop :=
  ∃ h, expected = some h ∧ v.StandsFor h

/-- The fields of a check make sense. -/
structure CheckAccepted (fields : List (String × Json)) : Prop where
  tensors : ∃ counts, Json.get? "tensors" fields = some (.array counts) ∧
    ∀ v ∈ counts, Between 0 (2 ^ 32 - 1) v
  expected : Holds (fun v => ∃ h, v.StandsFor h) fields "expected_hash"

/-- The fields of the check with a given number say this. -/
structure CheckDescribed (number : Nat) (fields : List (String × Json)) (check : Check) : Prop where
  name : Takes IsText fields "name" ("check" ++ toString number) check.name
  tensors : Json.get? "tensors" fields = some (.array (check.tensors.map .ofWord))
  expected : Takes IsHash fields "expected_hash" none check.expected

theorem mapM_hashOf_eq_ok_iff {expected : Option UInt32} :
    (Json.get? key fields).mapM hashOf = .ok expected ↔ Takes IsHash fields key none expected := by
  cases hv : Json.get? key fields with
  | none =>
    rw [Json.takes_of_eq_none hv]
    change Except.ok none = Except.ok expected ↔ expected = none
    rw [Except.ok.injEq, eq_comm]
  | some v =>
    rw [Json.takes_of_eq_some hv]
    change (hashOf v).map some = .ok expected ↔ IsHash v expected
    constructor
    · intro h
      cases hh : hashOf v with
      | error e =>
        rw [hh] at h
        exact nomatch h
      | ok w =>
        rw [hh] at h
        exact ⟨w, (Except.ok.inj h).symm, hashOf_eq_ok_iff.1 hh⟩
    · rintro ⟨w, rfl, hw⟩
      rw [hashOf_eq_ok_iff.2 hw]
      rfl

theorem checkOf_eq_ok_iff {number : Nat} {v : Json} {check : Check} :
    checkOf number v = .ok check ↔
      ∃ fields, v = .object fields ∧ CheckDescribed number fields check := by
  constructor
  · intro h
    unfold checkOf at h
    split at h
    · next fields =>
      obtain ⟨name, hn, h⟩ := eq_ok_of_bind h
      split at h
      · next counts ht =>
        obtain ⟨tensors, hc, h⟩ := eq_ok_of_bind h
        obtain ⟨expected, he, h⟩ := eq_ok_of_bind h
        obtain rfl := Except.ok.inj h
        rw [countsOf_eq_ok_iff.1 hc] at ht
        exact ⟨fields, rfl, textOr_eq_ok_iff.1 hn, ht, mapM_hashOf_eq_ok_iff.1 he⟩
      · exact nomatch h
    · exact nomatch h
  · rintro ⟨fields, rfl, hn, ht, he⟩
    refine bind_eq_ok_iff.2 ⟨check.name, textOr_eq_ok_iff.2 hn, ?_⟩
    rw [ht]
    exact bind_eq_ok_iff.2 ⟨check.tensors, countsOf_eq_ok_iff.2 rfl, bind_eq_ok_iff.2
      ⟨check.expected, mapM_hashOf_eq_ok_iff.2 he, rfl⟩⟩

/-- The checks are in the order of their entries, and numbered in it. -/
theorem checksOf_zero_eq_ok_iff {entries : List Json} {checks : List Check} :
    checksOf 0 entries = .ok checks ↔ entries.length = checks.length ∧
      ∀ i v check, entries[i]? = some v → checks[i]? = some check →
        ∃ fields, v = .object fields ∧ CheckDescribed i fields check := by
  simp only [checksOf_eq_ok_iff, checkOf_eq_ok_iff, Nat.zero_add]

theorem CheckDescribed.accepted {number : Nat} {check : Check}
    (h : CheckDescribed number fields check) : CheckAccepted fields := by
  refine ⟨⟨_, h.tensors, fun v hv => ?_⟩, h.expected.holds fun v hv => ?_⟩
  · obtain ⟨w, -, rfl⟩ := List.mem_map.1 hv
    exact Json.IsWord.between rfl
  · obtain ⟨w, -, hw⟩ := hv
    exact ⟨w, hw⟩

theorem CheckAccepted.exists_described (h : CheckAccepted fields) (number : Nat)
    (hname : Holds (fun v => ∃ s, IsText v s) fields "name") :
    ∃ check, CheckDescribed number fields check := by
  obtain ⟨counts, ht, hcounts⟩ := h.tensors
  have hwords : counts ∈ Set.range (List.map Json.ofWord) := by
    rw [Set.range_list_map]
    intro v hv
    obtain ⟨w, rfl⟩ := (hcounts v hv).exists_word (by decide)
    exact ⟨w, rfl⟩
  obtain ⟨tensors, rfl⟩ := hwords
  have hexpected : Holds (fun v => ∃ x, IsHash v x) fields "expected_hash" := by
    refine h.expected.imp fun v hv => ?_
    obtain ⟨w, hw⟩ := hv
    exact ⟨some w, w, rfl, hw⟩
  obtain ⟨name, hn⟩ := hname.exists_takes ("check" ++ toString number)
  obtain ⟨expected, he⟩ := hexpected.exists_takes none
  exact ⟨⟨name, tensors, expected⟩, hn, ht, he⟩

/-! ### The whole -/

theorem eq_name_of_backing {s : String} {b : Backing} (h : Backing.ofName s = .ok b) :
    s = b.name := by
  unfold Backing.ofName at h
  split at h
  · next hb =>
    obtain rfl := Except.ok.inj h
    exact (of_decide_eq_true (List.find?_some (p := fun b : Backing => b.name = s) hb)).symm
  · exact nomatch h

theorem eq_name_of_decoder {s : String} {d : Decoder} (h : Decoder.ofName s = .ok d) :
    s = d.name := by
  unfold Decoder.ofName at h
  split at h
  · next hd =>
    obtain rfl := Except.ok.inj h
    exact (of_decide_eq_true (List.find?_some (p := fun d : Decoder => d.name = s) hd)).symm
  · exact nomatch h

/-- Everything that a configuration says makes sense. -/
structure Accepted (fields : List (String × Json)) : Prop where
  backing : Holds (fun v => ∃ b : Backing, IsText v b.name) fields "backing"
  decoder : Holds (fun v => ∃ d : Decoder, IsText v d.name) fields "decoder"
  scratch : Holds (Between 1 (2 ^ 64 - 1)) fields "scratch_capacity"
  link : Holds IsGoodLink fields "flash"
  checks : ∃ entries, Json.get? "checks" fields = some (.array entries) ∧
    ∀ check, .object check ∈ entries → CheckAccepted check

/-- A configuration says this: every setting is what is stored under its key, or its default. -/
structure Described (fields : List (String × Json)) (cfg : Config) : Prop where
  backing : Takes (fun v b => IsText v (Backing.name b)) fields "backing" .memory cfg.backing
  decoder : Takes (fun v d => IsText v (Decoder.name d)) fields "decoder" .host cfg.decoder
  scratch : Takes IsNatural fields "scratch_capacity" 512 cfg.scratch
  link : Takes IsLink fields "flash" (⟨⟨0x100000, 0, true, 16⟩, 0x200000, true, 0⟩, 0x100000)
    (cfg.link, cfg.window)
  /-- The checks are in the order of their entries, and numbered in it. -/
  checks : ∃ entries, Json.get? "checks" fields = some (.array entries) ∧
    entries.length = cfg.checks.length ∧
    ∀ i v check, entries[i]? = some v → cfg.checks[i]? = some check →
      ∃ fields, v = .object fields ∧ CheckDescribed i fields check
  table : Takes IsText fields "stats_csv" "" cfg.table

theorem ofFields_parts {cfg : Config} : ofFields fields = .ok cfg ↔
    (textOr fields "backing" "memory").bind Backing.ofName = .ok cfg.backing ∧
    (textOr fields "decoder" "host").bind Decoder.ofName = .ok cfg.decoder ∧
    unsignedOr fields "" "scratch_capacity" Blob.defaultScratch maxWord64 = .ok cfg.scratch ∧
    cfg.scratch ≠ 0 ∧ linkOf fields = .ok (cfg.link, cfg.window) ∧
    (∃ entries, Json.get? "checks" fields = some (.array entries) ∧
      checksOf 0 entries = .ok cfg.checks) ∧
    textOr fields "stats_csv" "" = .ok cfg.table := by
  constructor
  · intro h
    obtain ⟨backing, hb, h⟩ := eq_ok_of_bind h
    obtain ⟨decoder, hd, h⟩ := eq_ok_of_bind h
    obtain ⟨scratch, hs, h⟩ := eq_ok_of_bind h
    obtain ⟨h0, h⟩ := guarded_eq_ok_iff.1 h
    obtain ⟨⟨link, window⟩, hl, h⟩ := eq_ok_of_bind h
    dsimp only at h
    split at h
    · next entries he =>
      obtain ⟨checks, hc, h⟩ := eq_ok_of_bind h
      obtain ⟨table, ht, h⟩ := eq_ok_of_bind h
      obtain rfl := Except.ok.inj h
      exact ⟨hb, hd, hs, h0, hl, ⟨entries, he, hc⟩, ht⟩
    · exact nomatch h
  · rintro ⟨hb, hd, hs, h0, hl, ⟨entries, he, hc⟩, ht⟩
    unfold ofFields
    rw [hb, hd, hs, hl, he, ht]
    simp only [hc, bind, Except.bind, pure, Except.pure, if_neg h0]

theorem ofFields_eq_ok_iff {cfg : Config} :
    ofFields fields = .ok cfg ↔ Accepted fields ∧ Described fields cfg := by
  rw [ofFields_parts]
  have hbacking : (textOr fields "backing" (Backing.name .memory)).bind Backing.ofName =
      .ok cfg.backing ↔ _ :=
    bind_ofName_eq_ok_iff Backing.ofName_name fun s b => eq_name_of_backing
  have hdecoder : (textOr fields "decoder" (Decoder.name .host)).bind Decoder.ofName =
      .ok cfg.decoder ↔ _ :=
    bind_ofName_eq_ok_iff Decoder.ofName_name fun s d => eq_name_of_decoder
  constructor
  · rintro ⟨hb, hd, hs, h0, hl, ⟨entries, he, hc⟩, ht⟩
    have hb := hbacking.1 hb
    have hd := hdecoder.1 hd
    obtain ⟨hs, hpositive⟩ := (positiveOr_eq_ok_iff (by decide)).1 ⟨hs, h0⟩
    obtain ⟨hgood, hl⟩ := linkOf_eq_ok_iff.1 hl
    obtain ⟨hlength, hdescribed⟩ := checksOf_zero_eq_ok_iff.1 hc
    refine ⟨⟨hb.holds fun v hv => ⟨_, hv⟩, hd.holds fun v hv => ⟨_, hv⟩, hpositive, hgood,
      entries, he, fun check hcheck => ?_⟩, hb, hd, hs, hl, ⟨entries, he, hlength, hdescribed⟩,
      textOr_eq_ok_iff.1 ht⟩
    obtain ⟨i, hi, hv⟩ := List.getElem_of_mem hcheck
    obtain ⟨fields', hfields, hdescribed⟩ := hdescribed i (.object check) cfg.checks[i]
      (List.getElem?_eq_some_iff.2 ⟨hi, hv⟩) (List.getElem?_eq_getElem (hlength ▸ hi))
    obtain rfl := Json.object.inj hfields
    exact hdescribed.accepted
  · rintro ⟨ha, hx⟩
    have hscratch : unsignedOr fields "" "scratch_capacity" Blob.defaultScratch maxWord64 =
        .ok cfg.scratch ∧ cfg.scratch ≠ 0 :=
      (positiveOr_eq_ok_iff (by decide)).2 ⟨hx.scratch, ha.scratch⟩
    obtain ⟨entries, he, hchecks⟩ := hx.checks
    exact ⟨hbacking.2 hx.backing, hdecoder.2 hx.decoder, hscratch.1, hscratch.2,
      linkOf_eq_ok_iff.2 ⟨ha.link, hx.link⟩, ⟨entries, he, checksOf_zero_eq_ok_iff.2 hchecks⟩,
      textOr_eq_ok_iff.2 hx.table⟩

/-- What makes sense can be read. -/
theorem Accepted.exists_described (h : Accepted fields) (hshape : Shaped fields) :
    ∃ cfg, Described fields cfg := by
  obtain ⟨entries, he, hentries⟩ := h.checks
  have hall : ∀ i v, entries[i]? = some v → ∃ check, checkOf (0 + i) v = .ok check := by
    intro i v hv
    have hmem := List.mem_of_getElem? hv
    obtain ⟨check, rfl, hname⟩ := hshape.checks entries he v hmem
    obtain ⟨x, hx⟩ := (hentries check hmem).exists_described (0 + i) hname
    exact ⟨x, checkOf_eq_ok_iff.2 ⟨check, rfl, hx⟩⟩
  obtain ⟨checks, hchecks⟩ := exists_checksOf hall
  have hlink : Holds (fun v => ∃ x, IsLink v x) fields "flash" := by
    refine h.link.imp ?_
    rintro v ⟨link, rfl, hgood⟩
    obtain ⟨x, hx⟩ := hgood.exists_described
    exact ⟨x, link, rfl, hx⟩
  obtain ⟨backing, hb⟩ := h.backing.exists_takes .memory
  obtain ⟨decoder, hd⟩ := h.decoder.exists_takes .host
  obtain ⟨scratch, hs⟩ := h.scratch.exists_natural 512
  obtain ⟨⟨link, window⟩, hl⟩ := hlink.exists_takes defaultLink
  obtain ⟨table, ht⟩ := hshape.table.exists_takes ""
  exact ⟨⟨backing, decoder, scratch, link, window, checks, table⟩, hb, hd, hs, hl,
    ⟨entries, he, checksOf_zero_eq_ok_iff.1 hchecks⟩, ht⟩

/-- **What a configuration says is read exactly.**  It is accepted if and only if all of it makes
sense, and otherwise refused as an argument.  What is read is what it says, and any configuration
that says the same under the keys that matter is read alike. -/
theorem parsing_exact (h : Shaped fields) :
    ((∃ cfg, ofJson (.object fields) = .ok cfg) ↔ Accepted fields) ∧
    (¬Accepted fields → ∃ e, ofJson (.object fields) = .error e ∧ e.kind = .argument) ∧
    (∀ cfg, ofJson (.object fields) = .ok cfg ↔ Accepted fields ∧ Described fields cfg) ∧
    ∀ fields', essential fields' = essential fields →
      ofJson (.object fields') = ofJson (.object fields) := by
  have hok : ∀ cfg, ofJson (.object fields) = .ok cfg ↔ Accepted fields ∧ Described fields cfg :=
    fun cfg => ofFields_eq_ok_iff
  refine ⟨⟨?_, fun ha => ?_⟩, fun hna => ?_, hok, fun fields' heq => ?_⟩
  · rintro ⟨cfg, hcfg⟩
    exact ((hok cfg).1 hcfg).1
  · obtain ⟨cfg, hcfg⟩ := ha.exists_described h
    exact ⟨cfg, (hok cfg).2 ⟨ha, hcfg⟩⟩
  · exact (refuses_ofJson h).exists_error fun cfg hcfg => hna ((hok cfg).1 hcfg).1
  · change ofFields fields' = ofFields fields
    rw [← ofFields_essential, heq, ofFields_essential]

/-- The largest settings of all widths, a check without a name, and keys that do not matter. -/
def widest : List (String × Json) :=
  [("checks", .array
      [.object [("name", .string "w"), ("note", .null), ("tensors", .array [])],
        .object [("expected_hash", .string "0xFFFFFFFF"),
          ("tensors", .array [.number (.unsigned 0xFFFFFFFF), .number (.unsigned 0)])]]),
    ("flash", .object
      [("clk_div", .number (.unsigned 0xFFFFFFFF)), ("device_bytes", .number (.unsigned 1)),
        ("max_wait_cycles", .number (.unsigned 0xFFFFFFFFFFFFFFFF)),
        ("offset", .number (.unsigned 0xFFFFFF)), ("window_bytes", .number (.unsigned 0x1000000))]),
    ("note", .string "nobody reads this"),
    ("scratch_capacity", .number (.unsigned 0xFFFFFFFFFFFFFFFF))]

/-- What it says. -/
def widestConfig : Config :=
  ⟨.memory, .host, 0xFFFFFFFFFFFFFFFF,
    ⟨⟨0xFFFFFF, 0xFFFFFFFF, true, 16⟩, 0x200000, true, 0xFFFFFFFFFFFFFFFF⟩, 0x1000000,
    [⟨"w", [], none⟩, ⟨"check1", [0xFFFFFFFF, 0], some 0xFFFFFFFF⟩], ""⟩

theorem shaped_widest : Shaped widest := by
  refine ⟨nofun, nofun, nofun, fun entries he v hv => ?_⟩
  obtain rfl := Json.array.inj (Option.some.inj he)
  simp only [List.mem_cons, List.not_mem_nil, or_false] at hv
  rcases hv with rfl | rfl
  · exact ⟨_, rfl, fun v hv => ⟨"w", (Option.some.inj hv).symm⟩⟩
  · exact ⟨_, rfl, nofun⟩

theorem parsing_exact_widest : Shaped widest ∧ ofJson (.object widest) = .ok widestConfig ∧
    Accepted widest ∧ Described widest widestConfig ∧
    ofJson (.object (essential widest)) = .ok widestConfig := by
  have hok : ofJson (.object widest) = .ok widestConfig := eq_ok_of_toOption (by decide +kernel)
  obtain ⟨-, -, hread, hkeys⟩ := parsing_exact shaped_widest
  obtain ⟨haccepted, hdescribed⟩ := (hread widestConfig).1 hok
  exact ⟨shaped_widest, hok, haccepted, hdescribed, (hkeys (essential widest) rfl).trans hok⟩

end Verify.Config
end WeightLink
