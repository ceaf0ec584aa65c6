/-
# What the device makes of its wires

With the select line low the device does something only at an edge of the clock: a
rising one takes a bit of the command, a falling one puts out the next data bit.  After
a read frame the transaction is a position in the data from the read address on
(`Device.Transaction.after`), and the bit there is `Device.dataBit`.

Programming apart, nothing changes the contents of the device, and nothing but the end
of a transaction or an executed frame is seen in its power state.
-/

import WeightLink.Flash.Device

namespace WeightLink
namespace Flash

/-- A command of the handshake, and when it is the last one. -/
theorem Opcode.of_wake_eq_some {n : Nat} {opcode : BitVec 8} (h : Opcode.wake[n]? = some opcode) :
    n < 3 ∧ opcode ∈ Opcode.wake ∧ (opcode = Opcode.release ↔ n = 2) := by
  obtain ⟨hlt, he⟩ := List.getElem?_eq_some_iff.1 h
  have hn : n = 0 ∨ n = 1 ∨ n = 2 := by
    simp only [wake, List.length_cons, List.length_nil] at hlt
    omega
  refine ⟨hlt, he ▸ List.getElem_mem hlt, ?_⟩
  rcases hn with rfl | rfl | rfl <;> simp [← he, wake, resetEnable, reset, release]

namespace Device

/-- The transaction of a read that has put out `n` data bits. -/
def Transaction.after (address : BitVec 24) (n : Nat) : Transaction :=
  .reading (address + BitVec.ofNat 24 (n / 8)) (n % 8)

/-- Data bit `n` of a read, the most significant bit of the first byte being bit `0`. -/
def dataBit (d : Device) (address : BitVec 24) (n : Nat) : Bool :=
  (d.dataByte (address + BitVec.ofNat 24 (n / 8))).toBitVec.getMsbD (n % 8)

variable {d : Device} {pins : Pins}

/-! ### One cycle, by its wires -/

theorem eval_of_csN (h : pins.csN = true) :
    d.eval pins = { d with sclk := pins.sclk, transaction := fresh, miso := true } := by
  simp [eval, h]

theorem eval_level (hc : pins.csN = false) (hs : pins.sclk = d.sclk) : d.eval pins = d := by
  cases h : d.sclk <;> simp [eval, hc, hs, h] <;> rw [← h]

/-- A rising edge takes a bit of a command. -/
theorem eval_rise_command (hc : pins.csN = false) (hp : pins.sclk = true) (hs : d.sclk = false)
    {shift : BitVec 32} {bits : Nat} (ht : d.transaction = .command shift bits) (hb : bits ≠ 31) :
    d.eval pins =
      { d with
        sclk := true
        transaction := .command (shift.shiftConcat pins.mosi) (bits + 1) } := by
  simp [eval, hc, hp, hs, rise, ht, frameBits, hb]

/-- The rising edge with the last bit executes the frame. -/
theorem eval_rise_frame (hc : pins.csN = false) (hp : pins.sclk = true) (hs : d.sclk = false)
    {shift : BitVec 32} (ht : d.transaction = .command shift 31) :
    d.eval pins =
      ({ d with sclk := true } : Device).execute (Frame.ofBits (shift.shiftConcat pins.mosi)) := by
  simp [eval, hc, hp, hs, rise, ht, frameBits]

theorem eval_rise_after (hc : pins.csN = false) (hp : pins.sclk = true) (hs : d.sclk = false)
    {address : BitVec 24} {n : Nat} (ht : d.transaction = .after address n) :
    d.eval pins = { d with sclk := true } := by
  simp [eval, hc, hp, hs, rise, ht, Transaction.after]

theorem eval_fall_command (hc : pins.csN = false) (hp : pins.sclk = false) (hs : d.sclk = true)
    {shift : BitVec 32} {bits : Nat} (ht : d.transaction = .command shift bits) :
    d.eval pins = { d with sclk := false } := by
  simp [eval, hc, hp, hs, fall, ht]

/-- A falling edge puts out the data bit at the position of the read. -/
theorem eval_fall_after (hc : pins.csN = false) (hp : pins.sclk = false) (hs : d.sclk = true)
    {address : BitVec 24} {n : Nat} (ht : d.transaction = .after address n) :
    d.eval pins =
      { d with
        sclk := false
        miso := d.dataBit address n
        transaction := .after address (n + 1)
        streamed := d.streamed + (if n % 8 = 7 then 1 else 0) } := by
  rw [Transaction.after] at ht
  simp only [eval, hc, hp, hs, fall, ht, dataBit]
  by_cases hn : n % 8 = 7
  · have hq : (n + 1) / 8 = n / 8 + 1 := by omega
    have hr : (n + 1) % 8 = 0 := by omega
    simp [hn, Transaction.after, hq, hr, BitVec.ofNat_add, BitVec.add_assoc, dataByte]
  · have hq : (n + 1) / 8 = n / 8 := by omega
    have hr : (n + 1) % 8 = n % 8 + 1 := by omega
    simp [hn, Transaction.after, hq, hr, show ¬n % 8 + 1 = 8 by omega, dataByte]

/-! ### Frames -/

theorem transaction_execute (d : Device) (f : Frame) : (d.execute f).transaction =
    if f.opcode = Opcode.read then .after f.payload 0 else .ignoring := by
  by_cases hread : f.opcode = Opcode.read
  · simp [execute, hread, Transaction.after]
  · grind [execute]

theorem awake_execute (d : Device) (f : Frame) :
    (d.execute f).awake = (d.awake || f.opcode = Opcode.release) := by
  grind [execute, Opcode.read, Opcode.release]

theorem resetArmed_execute (d : Device) (f : Frame) :
    (d.execute f).resetArmed = decide (f.opcode = Opcode.resetEnable) := by
  grind [execute, Opcode.read, Opcode.release, Opcode.resetEnable]

theorem resets_execute (d : Device) (f : Frame) : (d.execute f).resets =
    d.resets + if d.resetArmed && f.opcode = Opcode.reset then 1 else 0 := by
  grind [execute, Opcode.read, Opcode.release, Opcode.resetEnable, Opcode.reset]

theorem execute_read (d : Device) (address : BitVec 24) :
    (d.execute (Frame.read address)).transaction = .after address 0 ∧
      (d.execute (Frame.read address)).awake = d.awake := by
  rw [transaction_execute, awake_execute]
  exact ⟨rfl, Bool.or_false _⟩

theorem execute_wake (d : Device) {opcode : BitVec 8} (h : opcode ∈ Opcode.wake) :
    (d.execute (Frame.wake opcode)).transaction = .ignoring ∧
      (d.execute (Frame.wake opcode)).awake = (d.awake || opcode = Opcode.release) := by
  have hother : ∀ opcode ∈ Opcode.wake, opcode ≠ Opcode.read := by decide
  rw [transaction_execute, awake_execute]
  exact ⟨if_neg (hother opcode h), rfl⟩

/-! ### What stays -/

theorem image_eval (d : Device) (pins : Pins) : (d.eval pins).image = d.image := by
  grind [eval, rise, fall, execute]

theorem requiresWake_eval (d : Device) (pins : Pins) :
    (d.eval pins).requiresWake = d.requiresWake := by
  grind [eval, rise, fall, execute]

theorem generation_eval (d : Device) (pins : Pins) :
    (d.eval pins).generation = d.generation := by
  grind [eval, rise, fall, execute]

theorem miso_execute (d : Device) (f : Frame) : (d.execute f).miso = d.miso := by
  grind [execute]

theorem sclk_execute (d : Device) (f : Frame) : (d.execute f).sclk = d.sclk := by
  grind [execute]

theorem requiresWake_execute (d : Device) (f : Frame) :
    (d.execute f).requiresWake = d.requiresWake := by
  grind [execute]

/-- Programming either did nothing or replaced bytes that are all inside. -/
theorem load_cases {d' : Device} {offset : Nat} {data : Buffer UInt8}
    (h : d.load offset data = .ok d') :
    d' = d ∨ ∃ bytes : Bytes, offset + bytes.size ≤ d.image.capacity ∧ d' =
      { d with image := d.image.program offset bytes, generation := d.generation + 1 } := by
  unfold load at h
  split at h
  · split at h
    · cases h
      exact .inl rfl
    · cases h
  · split at h
    · cases h
      exact .inl rfl
    · split at h
      · cases h
      · rename_i bytes _ hfits
        cases h
        exact .inr ⟨bytes, Nat.le_of_not_lt hfits, rfl⟩

/-- Programming leaves everything alone but the contents, and these are of a new generation if
they change. -/
theorem load_eq {d' : Device} {offset : Nat} {data : Buffer UInt8}
    (h : d.load offset data = .ok d') : ∃ image generation, d' = { d with image, generation } ∧
      (image = d.image ∧ generation = d.generation ∨ generation = d.generation + 1) := by
  obtain rfl | ⟨bytes, -, rfl⟩ := load_cases h
  · exact ⟨_, _, rfl, .inl ⟨rfl, rfl⟩⟩
  · exact ⟨_, _, rfl, .inr rfl⟩

end Device
end Flash
end WeightLink
