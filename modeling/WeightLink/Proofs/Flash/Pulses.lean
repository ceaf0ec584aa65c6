/-
# Pulses of the serial clock

How long the clock keeps each of its levels in a trace of the wires (`Pins.clockPhases`), and
which data levels are on the wire at its rising edges (`Pins.sampled`).  Equal levels that meet
make one phase, so traces are put together pulse by pulse (`Pins.clockPhases_pulse`,
`Pins.sampled_pulse`).

The wires of a frame are such pulses.  A bit of a command holds the clock low for two serial
steps and high for one, a data bit for one step each.  What is behind the high phase of a bit is
`Pins.afterBit` inside a command, and `Pins.afterData` inside the data of a read.
-/

import WeightLink.Flash.Bus

namespace WeightLink
namespace Flash
namespace Pins

/-- Puts some cycles at one level of the clock in front of the phases that follow. -/
def joinPhase (level : Bool) (n : Nat) : List (Bool × Nat) → List (Bool × Nat)
  | [] => [(level, n)]
  | (next, k) :: phases =>
    if next = level then (level, n + k) :: phases else (level, n) :: (next, k) :: phases

/-- How long the clock keeps each of its levels, one phase after the other. -/
def clockPhases : List Pins → List (Bool × Nat)
  | [] => []
  | p :: ps => joinPhase p.sclk 1 (clockPhases ps)

/-- The data levels at the rising edges of the clock, which had some level before. -/
def sampled (before : Bool) : List Pins → List Bool
  | [] => []
  | p :: ps => if p.sclk && !before then p.mosi :: sampled p.sclk ps else sampled p.sclk ps

/-- The device is selected in all cycles. -/
def Selected (ps : List Pins) : Prop := ∀ p ∈ ps, p.csN = false

instance (ps : List Pins) : Decidable (Selected ps) :=
  inferInstanceAs (Decidable (∀ p ∈ ps, p.csN = false))

/-- What clock mode 0 asks of a cycle and the one before it. -/
structure Legal (before now : Pins) : Prop where
  /-- The clock rests while the device is not selected. -/
  rests : now.csN = true → now.sclk = false
  /-- Data is on the wire before the clock rises, and stays there until it has fallen. -/
  settled : now.sclk = true → now.mosi = before.mosi

/-- Some cycles with the device selected and the other wires at one level. -/
def hold (sclk mosi : Bool) (n : Nat) : List Pins := List.replicate n ⟨false, sclk, mosi⟩

theorem hold_succ (sclk mosi : Bool) (n : Nat) :
    hold sclk mosi (n + 1) = ⟨false, sclk, mosi⟩ :: hold sclk mosi n := rfl

@[simp] theorem hold_zero (sclk mosi : Bool) : hold sclk mosi 0 = [] := rfl

@[simp] theorem selected_append {ps qs : List Pins} :
    Selected (ps ++ qs) ↔ Selected ps ∧ Selected qs := List.forall_mem_append

@[simp] theorem selected_hold (sclk mosi : Bool) (n : Nat) : Selected (hold sclk mosi n) := by
  intro p hp
  rw [List.eq_of_mem_replicate hp]

theorem joinPhase_joinPhase (level : Bool) (m n : Nat) (phases : List (Bool × Nat)) :
    joinPhase level m (joinPhase level n phases) = joinPhase level (m + n) phases := by
  cases phases with
  | nil => simp [joinPhase]
  | cons p phases =>
    obtain ⟨next, k⟩ := p
    by_cases h : next = level <;> simp [joinPhase, h, Nat.add_assoc]

@[simp] theorem joinPhase_same (level : Bool) (m n : Nat) (phases : List (Bool × Nat)) :
    joinPhase level m ((level, n) :: phases) = (level, m + n) :: phases := by
  simp [joinPhase]

@[simp] theorem joinPhase_other {level next : Bool} (h : next ≠ level) (m n : Nat)
    (phases : List (Bool × Nat)) :
    joinPhase level m ((next, n) :: phases) = (level, m) :: (next, n) :: phases := by
  simp [joinPhase, h]

theorem clockPhases_hold (sclk mosi : Bool) {n : Nat} (hn : 0 < n) (ps : List Pins) :
    clockPhases (hold sclk mosi n ++ ps) = joinPhase sclk n (clockPhases ps) := by
  induction n with
  | zero => exact absurd hn (Nat.lt_irrefl 0)
  | succ n ih =>
    rw [hold, List.replicate_succ, List.cons_append, clockPhases]
    rcases Nat.eq_zero_or_pos n with rfl | hpos
    · rfl
    · rw [← hold, ih hpos, joinPhase_joinPhase, Nat.add_comm]

theorem sampled_low (before mosi : Bool) {n : Nat} (hn : 0 < n) (ps : List Pins) :
    sampled before (hold false mosi n ++ ps) = sampled false ps := by
  induction n generalizing before with
  | zero => exact absurd hn (Nat.lt_irrefl 0)
  | succ n ih =>
    rw [hold, List.replicate_succ, List.cons_append, sampled]
    rcases Nat.eq_zero_or_pos n with rfl | hpos
    · simp
    · simpa [hold] using ih false hpos

theorem sampled_high (mosi : Bool) {n : Nat} (hn : 0 < n) (ps : List Pins) :
    sampled false (hold true mosi n ++ ps) = mosi :: sampled true ps := by
  have hstay : ∀ k, sampled true (hold true mosi k ++ ps) = sampled true ps := by
    intro k
    induction k with
    | zero => rfl
    | succ k ih => simpa [hold, List.replicate_succ, sampled] using ih
  obtain ⟨k, rfl⟩ := Nat.exists_eq_succ_of_ne_zero (Nat.pos_iff_ne_zero.1 hn)
  rw [hold, List.replicate_succ, List.cons_append, sampled]
  simpa [hold] using hstay k

/-- The clock is low in the first of some cycles, if there are any. -/
def StartsLow (ps : List Pins) : Prop := ∀ p ∈ ps.head?, p.sclk = false

/-- A pulse of the clock after some low cycles, with the clock low again behind it. -/
theorem clockPhases_pulse {a b : Bool} {m p : Nat} {ps : List Pins} (hm : 0 < m) (hp : 0 < p)
    (hps : StartsLow ps) : clockPhases (hold false a m ++ hold true b p ++ ps) =
      (false, m) :: (true, p) :: clockPhases ps := by
  have hlow : joinPhase true p (clockPhases ps) = (true, p) :: clockPhases ps := by
    cases ps with
    | nil => rfl
    | cons q qs =>
      have hq : q.sclk = false := hps q rfl
      rw [clockPhases, hq]
      cases hqs : clockPhases qs with
      | nil => rfl
      | cons x rest =>
        obtain ⟨next, k⟩ := x
        cases next <;> rfl
  rw [List.append_assoc, clockPhases_hold _ _ hm, clockPhases_hold _ _ hp, hlow,
    joinPhase_other (by decide)]

theorem sampled_pulse {before a b : Bool} {m p : Nat} (hm : 0 < m) (hp : 0 < p) (ps : List Pins) :
    sampled before (hold false a m ++ hold true b p ++ ps) = b :: sampled true ps := by
  rw [List.append_assoc, sampled_low _ _ hm, sampled_high _ hp]

/-! ### The wires of a frame -/

/-- The wires after the high phase of a data bit with `n` data bits behind it, in serial steps of
`p` cycles. -/
def afterData (p : Nat) (mosi : Bool) : Nat → List Pins
  | 0 => hold false mosi 1
  | n + 1 => hold false mosi p ++ hold true mosi p ++ afterData p mosi n

/-- The wires after the high phase of a bit of a frame with `n` bits behind it.  A read goes on
with its data. -/
def afterBit (p : Nat) (f : BitVec 32) (waking : Bool) : Nat → List Pins
  | 0 =>
    if waking then []
    else hold false (f.getMsbD 31) 1 ++ hold false false (2 * p - 1) ++ hold true false p ++
      afterData p false 31
  | n + 1 =>
    hold false (f.getMsbD (30 - n)) 1 ++ hold false (f.getMsbD (31 - n)) (2 * p - 1) ++
      hold true (f.getMsbD (31 - n)) p ++ afterBit p f waking n

theorem selected_afterData (p : Nat) (mosi : Bool) (n : Nat) : Selected (afterData p mosi n) := by
  induction n with
  | zero => exact selected_hold _ _ _
  | succ n ih => simpa [afterData] using ih

theorem selected_afterBit (p : Nat) (f : BitVec 32) (waking : Bool) (n : Nat) :
    Selected (afterBit p f waking n) := by
  induction n with
  | zero =>
    cases waking with
    | true => exact fun _ hq => nomatch hq
    | false => simp [afterBit, selected_afterData]
  | succ n ih => simpa [afterBit] using ih

section Waves

variable {p : Nat} (hp : 0 < p)
include hp

omit hp in
theorem afterBit_succ (f : BitVec 32) (waking : Bool) (n : Nat) :
    afterBit p f waking (n + 1) =
      hold false (f.getMsbD (30 - n)) 1 ++ (hold false (f.getMsbD (31 - n)) (2 * p - 1) ++
        hold true (f.getMsbD (31 - n)) p ++ afterBit p f waking n) := by
  simp [afterBit]

omit hp in
theorem afterBit_read (f : BitVec 32) :
    afterBit p f false 0 = hold false (f.getMsbD 31) 1 ++
      (hold false false (2 * p - 1) ++ hold true false p ++ afterData p false 31) := by
  simp [afterBit]

theorem startsLow_afterData (mosi : Bool) (n : Nat) : StartsLow (afterData p mosi n) := by
  obtain ⟨q, rfl⟩ := Nat.exists_eq_succ_of_ne_zero (Nat.pos_iff_ne_zero.1 hp)
  cases n <;> simp [StartsLow, afterData, hold, List.replicate_succ]

omit hp in
theorem startsLow_afterBit (f : BitVec 32) (waking : Bool) (n : Nat) :
    StartsLow (afterBit p f waking n) := by
  cases n <;> cases waking <;>
    simp [StartsLow, afterBit, hold, List.replicate_succ]

theorem clockPhases_afterData (mosi : Bool) (n : Nat) : clockPhases (afterData p mosi n) =
    (List.replicate n [(false, p), (true, p)]).flatten ++ [(false, 1)] := by
  induction n with
  | zero => rfl
  | succ n ih =>
    rw [afterData, clockPhases_pulse hp hp (startsLow_afterData hp mosi n), ih]
    rfl

theorem sampled_afterData (mosi : Bool) (n : Nat) :
    sampled true (afterData p mosi n) = List.replicate n mosi := by
  induction n with
  | zero => rfl
  | succ n ih => rw [afterData, sampled_pulse hp hp, ih, List.replicate_succ]

/-- A pulse whose first low cycle still shows the bit before. -/
theorem clockPhases_bit {a b c : Bool} {ps : List Pins} (hps : StartsLow ps) :
    clockPhases (hold false a 1 ++ (hold false b (2 * p - 1) ++ hold true c p ++ ps)) =
      (false, 2 * p) :: (true, p) :: clockPhases ps := by
  rw [clockPhases_hold _ _ Nat.one_pos, clockPhases_pulse (by omega) hp hps,
    joinPhase_same, show 1 + (2 * p - 1) = 2 * p by omega]

theorem sampled_bit (before a b c : Bool) (ps : List Pins) :
    sampled before (hold false a 1 ++ (hold false b (2 * p - 1) ++ hold true c p ++ ps)) =
      c :: sampled true ps := by
  rw [sampled_low _ _ Nat.one_pos, sampled_pulse (by omega) hp]

/-- The clock of the data bits of a read. -/
def dataPulses (p : Nat) : List (Bool × Nat) :=
  [(false, 2 * p), (true, p)] ++ (List.replicate 31 [(false, p), (true, p)]).flatten ++
    [(false, 1)]

theorem clockPhases_afterBit (f : BitVec 32) (waking : Bool) (n : Nat) :
    clockPhases (afterBit p f waking n) =
      (List.replicate n [(false, 2 * p), (true, p)]).flatten ++
        if waking then [] else dataPulses p := by
  induction n with
  | zero =>
    cases waking with
    | true => rfl
    | false =>
      rw [afterBit_read, clockPhases_bit hp (startsLow_afterData hp false 31),
        clockPhases_afterData hp]
      rfl
  | succ n ih =>
    rw [afterBit_succ, clockPhases_bit hp (startsLow_afterBit f waking n), ih]
    rfl

theorem sampled_afterBit (f : BitVec 32) (waking : Bool) {n : Nat} (hn : n ≤ 31) :
    sampled true (afterBit p f waking n) =
      (List.range' (32 - n) n).map f.getMsbD ++
        List.replicate (if waking then 0 else 32) false := by
  induction n with
  | zero =>
    cases waking with
    | true => rfl
    | false =>
      rw [afterBit_read, sampled_bit hp, sampled_afterData hp]
      rfl
  | succ n ih =>
    rw [afterBit_succ, sampled_bit hp, ih (by omega), show 32 - n = 31 - n + 1 by omega,
      show 32 - (n + 1) = 31 - n by omega, List.range'_succ]
    rfl

end Waves

end Pins
end Flash
end WeightLink
