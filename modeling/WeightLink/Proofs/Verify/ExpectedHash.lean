/-
# The expected hash of a check

An expected hash is accepted if and only if the value stands for it (`Json.StandsFor`), so if it is
not a negative integer in a text, it is the integer that the value denotes.  Every other value is
refused as an argument, and the whole configuration with it (`Config.expectedHash_read`).  A hash
can be written in four forms (`Json.hashForms`), one of which is that of a report.

A configuration is read from its front, so what is refused may be something before the hash.  This
is an argument too, unless it is a value of the wrong type where a text belongs (`Config.Shaped`).

A text of a negative integer between `-2 ^ 64` and `2 ^ 32 - 2 ^ 64` is accepted too, for the hash
that is `2 ^ 64` above the integer (`Config.expectedHash_wrapped`).
-/

import WeightLink.Proofs.Verify.Settings

namespace WeightLink

namespace Json

/-- The forms of a hash: a number of either type, decimal digits, and the form in a report. -/
def hashForms (h : UInt32) : List Json :=
  [.ofWord h, .number (.signed h.toUInt64.toInt64), .string (toString h.toNat),
    .string (Word.hex h)]

theorem denotes_ofWord (h : UInt32) : (ofWord h).Denotes h.toNat := by
  rw [← UInt32.toNat_toUInt64]
  exact .unsigned h.toUInt64

theorem denotes_signed (h : UInt32) : (number (.signed h.toUInt64.toInt64)).Denotes h.toNat := by
  have hlt : h.toUInt64.toNat < 2 ^ 63 := by
    rw [UInt32.toNat_toUInt64]
    exact Nat.lt_trans h.toNat_lt (by decide)
  have hint : h.toUInt64.toInt64.toInt = h.toNat := by
    rw [toInt_toInt64, if_pos hlt, UInt32.toNat_toUInt64]
  rw [← hint]
  exact .signed _

theorem standsFor_of_mem_hashForms {v : Json} {h : UInt32} (hv : v ∈ hashForms h) :
    v.StandsFor h := by
  refine ⟨h.toNat, ?_, .inl rfl⟩
  simp only [hashForms, List.mem_cons, List.not_mem_nil, or_false] at hv
  rcases hv with rfl | rfl | rfl | rfl
  · exact denotes_ofWord h
  · exact denotes_signed h
  · exact .text (Numeral.denotes_toString _)
  · exact .text (Numeral.denotes_hex h)

/-- A text denotes the numeral that it is read as, if nothing is left over. -/
theorem denotes_of_read {s : String} {n : Numeral} (h : Numeral.read s.toList = some n)
    (hrest : n.rest = []) : (Json.string s).Denotes n.toInt :=
  .text (Numeral.denotes_iff.2 ⟨n, h, hrest, rfl⟩)

/-- There is a hash that a value stands for exactly if it denotes an integer in one of two
ranges. -/
theorem exists_standsFor_iff {v : Json} : (∃ h, v.StandsFor h) ↔ ∃ m, v.Denotes m ∧
    (0 ≤ m ∧ m < 2 ^ 32 ∨ (∃ s, v = .string s) ∧ -2 ^ 64 < m ∧ m < 2 ^ 32 - 2 ^ 64) := by
  constructor
  · rintro ⟨h, m, hv, hm⟩
    have := h.toNat_lt
    refine ⟨m, hv, hm.imp (fun hm => ?_) fun hm => ⟨hm.1, hm.2.1, ?_⟩⟩
    · omega
    · omega
  · rintro ⟨m, hv, ⟨hpos, hlt⟩ | ⟨htext, hgt, hlt⟩⟩
    · refine ⟨UInt32.ofNat m.toNat, m, hv, .inl ?_⟩
      rw [UInt32.toNat_ofNat']
      omega
    · refine ⟨UInt32.ofNat (m + 2 ^ 64).toNat, m, hv, .inr ⟨htext, hgt, ?_⟩⟩
      rw [UInt32.toNat_ofNat']
      omega

end Json

namespace Verify.Config

variable {fields entry : List (String × Json)} {entries : List Json} {i : Nat} {v : Json}

/-- The hash of a check is the one that its entry stands for. -/
theorem exists_standsFor_of_ok {cfg : Config}
    (hchecks : Json.get? "checks" fields = some (.array entries))
    (hentry : entries[i]? = some (.object entry))
    (hv : Json.get? "expected_hash" entry = some v) (h : ofJson (.object fields) = .ok cfg) :
    ∃ check hash, cfg.checks[i]? = some check ∧ check.expected = some hash ∧
      v.StandsFor hash := by
  obtain ⟨-, hdescribed⟩ := ofFields_eq_ok_iff.1 h
  obtain ⟨entries', hchecks', hlength, hall⟩ := hdescribed.checks
  obtain rfl := Json.array.inj (Option.some.inj (hchecks.symm.trans hchecks'))
  obtain ⟨hi, -⟩ := List.getElem?_eq_some_iff.1 hentry
  rw [hlength] at hi
  have hcheck : cfg.checks[i]? = some cfg.checks[i] := List.getElem?_eq_getElem hi
  obtain ⟨entry', heq, hx⟩ := hall i _ _ hentry hcheck
  obtain rfl := Json.object.inj heq
  obtain ⟨hash, hhash, hstands⟩ := hx.expected.2 v hv
  exact ⟨_, hash, hcheck, hhash, hstands⟩

/-- **An expected hash is the integer that its value denotes**, or `2 ^ 64` above it if the value
is a text of a negative integer.  A value that denotes nothing of the kind is refused as an
argument; the configuration is not accepted then, and if it has texts where texts belong, it is
refused as an argument itself.  A form of a hash is read back as the hash. -/
theorem expectedHash_read (hchecks : Json.get? "checks" fields = some (.array entries))
    (hentry : entries[i]? = some (.object entry))
    (hv : Json.get? "expected_hash" entry = some v) :
    (∀ cfg, ofJson (.object fields) = .ok cfg → ∃ check hash, cfg.checks[i]? = some check ∧
      check.expected = some hash ∧ (∃ m, v.Denotes m) ∧ ∀ m, v.Denotes m →
        m = hash.toNat ∨ (∃ s, v = .string s) ∧ -2 ^ 64 < m ∧ m + 2 ^ 64 = hash.toNat) ∧
    ((∀ m, v.Denotes m → ¬(0 ≤ m ∧ m < 2 ^ 32) ∧
        ¬((∃ s, v = .string s) ∧ -2 ^ 64 < m ∧ m < 2 ^ 32 - 2 ^ 64)) →
      (∃ e, hashOf v = .error e ∧ e.kind = .argument) ∧
      (∀ cfg, ofJson (.object fields) ≠ .ok cfg) ∧
      (Shaped fields → ∃ e, ofJson (.object fields) = .error e ∧ e.kind = .argument)) ∧
    ∀ hash, v ∈ Json.hashForms hash → hashOf v = .ok hash ∧
      ∀ cfg, ofJson (.object fields) = .ok cfg → ∃ check, cfg.checks[i]? = some check ∧
        check.expected = some hash := by
  refine ⟨fun cfg hcfg => ?_, fun hbad => ?_, fun hash hform => ?_⟩
  · obtain ⟨check, hash, hcheck, hhash, hstands⟩ :=
      exists_standsFor_of_ok hchecks hentry hv hcfg
    obtain ⟨m, hm, -⟩ := id hstands
    exact ⟨check, hash, hcheck, hhash, ⟨m, hm⟩,
      fun m hm => (Json.standsFor_iff_of_denotes hm).1 hstands⟩
  · have hnone : ∀ hash, ¬v.StandsFor hash := by
      intro hash hstands
      obtain ⟨m, hm, hrange⟩ := Json.exists_standsFor_iff.1 ⟨hash, hstands⟩
      exact hrange.elim (hbad m hm).1 (hbad m hm).2
    have hrefused : ∀ cfg, ofJson (.object fields) ≠ .ok cfg := by
      intro cfg hcfg
      obtain ⟨check, hash, -, -, hstands⟩ := exists_standsFor_of_ok hchecks hentry hv hcfg
      exact hnone hash hstands
    refine ⟨(refuses_hashOf v).exists_error fun hash hok => hnone hash (hashOf_eq_ok_iff.1 hok),
      hrefused, fun hshape => (refuses_ofJson hshape).exists_error hrefused⟩
  · have hform := Json.standsFor_of_mem_hashForms hform
    refine ⟨hashOf_eq_ok_iff.2 hform, fun cfg hcfg => ?_⟩
    obtain ⟨check, hash', hcheck, hhash, hstands⟩ := exists_standsFor_of_ok hchecks hentry hv hcfg
    have heq := (hashOf_eq_ok_iff.2 hform).symm.trans (hashOf_eq_ok_iff.2 hstands)
    exact ⟨check, hcheck, hhash.trans (congrArg some (Except.ok.inj heq).symm)⟩

/-- A configuration of one check with an expected hash. -/
def expecting (v : Json) : List (String × Json) :=
  [("checks", .array [.object
    [("expected_hash", v), ("tensors", .array [.number (.unsigned 1)])]])]

theorem shaped_expecting (v : Json) : Shaped (expecting v) := by
  refine ⟨nofun, nofun, nofun, fun entries he v hv => ?_⟩
  obtain rfl := Json.array.inj (Option.some.inj he)
  obtain rfl := List.mem_singleton.1 hv
  exact ⟨_, rfl, nofun⟩

/-- The form of a hash in a report is accepted, and a text of a larger number is refused. -/
theorem expectedHash_read_form :
    (∃ cfg, ofJson (.object (expecting (.string "0xFEDCBA98"))) = .ok cfg ∧
      ∃ check, cfg.checks[0]? = some check ∧ check.expected = some 0xFEDCBA98) ∧
    ∃ e, ofJson (.object (expecting (.string "0x100000000"))) = .error e ∧ e.kind = .argument := by
  have hok : (ofJson (.object (expecting (.string "0xFEDCBA98")))).toOption.isSome := by
    decide +kernel
  obtain ⟨cfg, hcfg⟩ := Option.isSome_iff_exists.1 hok
  have hcfg := eq_ok_of_toOption hcfg
  have hhex : Word.hex 0xFEDCBA98 = "0xFEDCBA98" := by decide +kernel
  have hform : Json.string "0xFEDCBA98" ∈ Json.hashForms 0xFEDCBA98 := by
    simp [Json.hashForms, hhex]
  have hlarge : (Json.string "0x100000000").Denotes (2 ^ 32) :=
    Json.denotes_of_read (n := ⟨false, 2 ^ 32, []⟩) (by decide +kernel) rfl
  have hchecks : ∀ v, Json.get? "checks" (expecting v) = some (.array [.object
      [("expected_hash", v), ("tensors", .array [.number (.unsigned 1)])]]) := fun v => rfl
  obtain ⟨-, -, haccept⟩ := expectedHash_read (hchecks (.string "0xFEDCBA98")) (i := 0) rfl rfl
  obtain ⟨-, hrefuse, -⟩ := expectedHash_read (hchecks (.string "0x100000000")) (i := 0) rfl rfl
  obtain ⟨-, -, hargument⟩ := hrefuse fun m hm => by
    obtain rfl := hm.unique hlarge
    exact ⟨by decide, fun h => absurd h.2.2 (by decide)⟩
  exact ⟨⟨cfg, hcfg, (haccept _ hform).2 cfg hcfg⟩, hargument (shaped_expecting _)⟩

/-- A text of a negative integer is accepted as the hash `2 ^ 64` above it. -/
theorem expectedHash_wrapped :
    (∀ m, (Json.string "-18446744073709551615").Denotes m ↔ m = -18446744073709551615) ∧
    ofJson (.object (expecting (.string "-18446744073709551615"))) =
      .ok ⟨.memory, .host, 512, .default, 0x100000, [⟨"check0", [1], some 1⟩], ""⟩ := by
  have hdenotes : (Json.string "-18446744073709551615").Denotes (-18446744073709551615) :=
    Json.denotes_of_read (n := ⟨true, 18446744073709551615, []⟩) (by decide +kernel) rfl
  refine ⟨fun m => ⟨fun hm => hm.unique hdenotes, ?_⟩, eq_ok_of_toOption (by decide +kernel)⟩
  rintro rfl
  exact hdenotes

end Verify.Config
end WeightLink
