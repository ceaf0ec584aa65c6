/-
# A window that shows what was programmed

A window whose link owes nothing to anybody gives the bytes of the link at all of its positions
(`FlashSource.shows`).  A read fails only if the link hangs, and it never hangs under the derived
budget.  Right after a blob was programmed behind the flash offset these are the bytes of the
blob and erased bytes behind it, or erased bytes only if nobody wakes the device
(`Link.wordByte_programmed`).
-/

import WeightLink.Proofs.Action.Triple
import WeightLink.Proofs.Blob.Following
import WeightLink.Proofs.Flash.Budget
import WeightLink.Proofs.Source.AbandonedRead

namespace WeightLink
namespace Flash

open WeightLink.Action (Triple)

/-- What a blocking call fails with: it hangs, and only under a configured budget. -/
def Link.Config.Hangs (cfg : Link.Config) (e : Fault) : Prop :=
  e.kind = .hang ∧ cfg.maxWaitCycles ≠ 0

namespace Link

variable {cfg : Config} {l : Link}

/-- A blocking read that gives no word hangs. -/
theorem Regular.readWord_hangs (h : Regular cfg l) (address : UInt32) :
    match ((Link.readWord address).run l).result with
    | .ok _ => True
    | .error e => cfg.Hangs e := by
  cases he : ((Link.readWord address).run l).result with
  | ok word => trivial
  | error e =>
    refine ⟨?_, fun hmax => ?_⟩
    · rw [run_readWord] at he
      split at he
      · exact nomatch he
      · obtain rfl := Except.error.inj he
        rfl
    · obtain ⟨word, hword, -⟩ := h.readWord_returns hmax address
      exact nomatch hword.symm.trans he

/-- A blocking read of a free link gives a word and leaves the link free, or hangs. -/
theorem Reachable.readWord_free (h : Reachable cfg l) (hr : l.engine.reading = false)
    (address : UInt32) :
    match ((Link.readWord address).run l).result with
    | .ok _ => ((Link.readWord address).run l).state.engine.reading = false
    | .error e => cfg.Hangs e := by
  have hown : l.Owes address address := .inr ⟨hr, rfl⟩
  have hpaid := h.coupled.readWord_owes hown
  cases he : ((Link.readWord address).run l).result with
  | ok word =>
    rw [he] at hpaid
    exact hpaid.2
  | error e =>
    have hhang := h.coupled.regular.readWord_hangs address
    rwa [he] at hhang

theorem create_of_le (cfg : Config) (hpos : 0 < cfg.deviceBytes)
    (hmax : cfg.deviceBytes ≤ Device.maxCapacity) : ∃ l, create cfg = .ok l := by
  unfold create Device.create
  rw [if_neg (by omega)]
  exact ⟨_, rfl⟩

end Link

theorem Device.load_of_le {d : Device} {offset : Nat} {blob : Bytes}
    (h : offset + blob.size ≤ d.image.capacity) :
    ∃ device, d.load offset (.held blob) = .ok device := by
  simp only [load]
  split
  · exact ⟨_, rfl⟩
  · rw [if_neg (by omega)]
    exact ⟨_, rfl⟩

/-- Programming replaces the bytes behind an offset. -/
theorem Device.byte_load {d device : Device} {offset : Nat} {blob : Bytes}
    (h : d.load offset (.held blob) = .ok device) {position : Nat}
    (hp : offset + position < d.image.capacity) : device.image.byte (offset + position) =
      blob[position]?.getD (d.image.byte (offset + position)) := by
  simp only [load] at h
  split at h
  · rename_i hempty
    obtain rfl := Except.ok.inj h
    rw [Array.getElem?_eq_none (by omega)]
    rfl
  · split at h
    · exact nomatch h
    · obtain rfl := Except.ok.inj h
      rw [Image.byte_program _ _ _ hp]
      by_cases hin : position < blob.size <;> simp [hin]

/-- The bytes of a link in whose erased device a blob was just programmed at the flash offset.  A
device that nobody wakes shows erased bytes. -/
theorem Link.wordByte_programmed {cfg : Link.Config} {l : Link} {device : Device} {blob : Bytes}
    (hl : Link.create cfg = .ok l)
    (hd : l.device.load cfg.engine.offset.toNat (.held blob) = .ok device) {position : Nat}
    (hp : cfg.engine.offset.toNat + position < cfg.deviceBytes) :
    Link.wordByte { l with device } (Window.wordAddress position) (position % 4) =
      if cfg.engine.wakeOnBoot || !cfg.deviceRequiresWake then
        blob[position]?.getD Image.erasedByte
      else Image.erasedByte := by
  obtain ⟨hmax, hconfig, -, -, himage⟩ := create_eq_ok hl
  have hcap : l.device.image.capacity = cfg.deviceBytes := by rw [himage, Image.erased]
  have haddress : (cfg.flashAddress (Window.wordAddress position) + position % 4) % 2 ^ 24 =
      cfg.engine.offset.toNat + position := by
    unfold Device.maxCapacity at hmax
    rw [Config.flashAddress, Window.toNat_wordAddress (by omega)]
    omega
  have hkept : device.image.byte (cfg.engine.offset.toNat + position) =
      blob[position]?.getD Image.erasedByte := by
    have herased : l.device.image.byte (cfg.engine.offset.toNat + position) =
        Image.erasedByte := by rw [himage]; rfl
    rw [Device.byte_load hd (hcap ▸ hp), herased]
  rw [wordByte]
  simp only [hconfig, haddress, hkept]

namespace FlashSource

/-- A source whose link is free and shows some bytes at each bus address. -/
structure Ready (cfg : Link.Config) (size : Nat) (wordByte : UInt32 → Nat → UInt8)
    (s : FlashSource) : Prop where
  reachable : Link.Reachable cfg s.link
  free : s.link.engine.reading = false
  size_eq : s.window.size = size
  wordByte_eq : s.link.wordByte = wordByte

variable {cfg : Link.Config} {size : Nat} {wordByte : UInt32 → Nat → UInt8} {s : FlashSource}

theorem readByte_ready (position : Nat) :
    Triple (Ready cfg size wordByte) (readByte position) (fun _ => Ready cfg size wordByte)
      fun e _ => cfg.Hangs e := by
  intro s h
  by_cases hh : s.window.Holds (Window.wordAddress position)
  · obtain ⟨held, hheld, ha⟩ := hh
    rw [run_readByte_held hheld ha]
    exact h
  · have hword := h.reachable.readWord_free h.free (Window.wordAddress position)
    have hr := h.reachable.readWord (Window.wordAddress position)
    have hk := (Link.readWord_kept (Window.wordAddress position) s.link).1
    rw [run_readByte_fetch hh]
    revert hword hr hk
    rcases (Link.readWord (Window.wordAddress position)).run s.link with ⟨e | word, after, es⟩
    · exact fun hword _ _ => hword
    · exact fun hfree hr hk => ⟨hr, hfree, h.size_eq, hk.trans h.wordByte_eq⟩

theorem readBytes_ready (position count : Nat) :
    Triple (Ready cfg size wordByte) (readBytes position count)
      (fun _ => Ready cfg size wordByte) fun e _ => cfg.Hangs e :=
  readBytes_induction (I := fun _ => Ready cfg size wordByte) fun k _ =>
    readByte_ready (position + k)

/-- A read inside the window leaves the source ready, or hangs. -/
theorem read_ready {position count : Nat} (hin : position + count ≤ size) :
    Triple (Ready cfg size wordByte) (read position count) (fun _ => Ready cfg size wordByte)
      fun e _ => cfg.Hangs e := by
  intro s h
  rw [run_read (Window.inside_eq_ok_iff.2 (h.size_eq.symm ▸ hin))]
  by_cases hc : count = 0
  · rw [if_pos hc]
    exact readBytes_ready position count s h
  · rw [if_neg hc]
    exact readBytes_ready position count s.refreshed
      ⟨h.reachable, h.free, h.size_eq, h.wordByte_eq⟩

/-- **A ready window shows the bytes of its link**, unless the link hangs. -/
theorem shows {bytes : Bytes} (hsize : bytes.size ≤ Window.maxSize)
    (hbytes : ∀ i (hi : i < bytes.size), bytes[i] = wordByte (Window.wordAddress i) (i % 4)) :
    Source.Shows (fun s => Ready cfg bytes.size wordByte s ∧ s.Honest) bytes cfg.Hangs where
  size_eq := fun s hs => hs.1.size_eq
  read := by
    intro position n hn
    refine .intro ?_ ?_
    · rintro s v ⟨h, hh⟩ hv
      have hfree : ∀ left, ¬s.link.InFlight left := fun left hf => absurd hf.1 (by simp [h.free])
      obtain ⟨hright, hhonest⟩ := (read_right_iff hh h.reachable
        (h.size_eq.symm ▸ hsize) hv).2 fun left hf => absurd hf (hfree left)
      refine ⟨Vector.ext fun i hi => ?_, (read_ready hn).result_ok h hv, hhonest⟩
      have hlt : position + i < bytes.size := by omega
      rw [hright i hi, h.wordByte_eq, ← hbytes _ hlt]
      simp [Blob.slice, Blob.byteAt, hlt]
    · exact fun s e hs he => (read_ready hn).result_error hs.1 he

end FlashSource
end Flash
end WeightLink
