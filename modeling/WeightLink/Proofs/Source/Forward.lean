/-
# A window that is read from front to back

A word stays held while the bytes in it are read, wherever one read ends and the next one starts.
So a window that is read from front to back fetches a word when it comes to the first byte of it,
and never again (`FlashSource.readByte_forward`).  Which words these are is a matter of positions
alone (`Window.wordsIn`): for a blob, the word of the magic, and the words from the first record to
the end of the last one (`FlashSource.passes`).
-/

import Mathlib.Data.List.Nodup
import WeightLink.Proofs.Blob.Pass
import WeightLink.Proofs.Flash.Ledger
import WeightLink.Proofs.Source.AbandonedRead

namespace WeightLink
namespace Flash

open WeightLink.Action (Triple)

/-! ### The words that begin between two positions -/

namespace Window

/-- The addresses of the words whose first byte is not in front of `p`, but in front of `q`. -/
def wordsIn (p q : Nat) : List UInt32 :=
  (List.range' ((p + 3) / 4) ((q + 3) / 4 - (p + 3) / 4)).map fun n => UInt32.ofNat (n * 4)

variable {p q r : Nat}

@[simp] theorem length_wordsIn (p q : Nat) :
    (wordsIn p q).length = (q + 3) / 4 - (p + 3) / 4 := by simp [wordsIn]

theorem wordsIn_append (hp : p ≤ q) (hq : q ≤ r) : wordsIn p q ++ wordsIn q r = wordsIn p r := by
  have hstart : (q + 3) / 4 = (p + 3) / 4 + ((q + 3) / 4 - (p + 3) / 4) := by omega
  have hlength : (q + 3) / 4 - (p + 3) / 4 + ((r + 3) / 4 - (q + 3) / 4) =
      (r + 3) / 4 - (p + 3) / 4 := by omega
  rw [wordsIn, wordsIn, wordsIn, ← List.map_append, ← hlength, ← List.range'_append_1, ← hstart]

theorem wordsIn_succ (p : Nat) :
    wordsIn p (p + 1) = if p % 4 = 0 then [wordAddress p] else [] := by
  split
  · have hone : (p + 1 + 3) / 4 - (p + 3) / 4 = 1 := by omega
    have hword : (p + 3) / 4 = p / 4 := by omega
    rw [wordsIn, hone, hword]
    rfl
  · have hnone : (p + 1 + 3) / 4 - (p + 3) / 4 = 0 := by omega
    rw [wordsIn, hnone]
    rfl

/-- Up to the end of a word no other word begins. -/
theorem wordsIn_alignUp (p q : Nat) : wordsIn p (Blob.alignUp q) = wordsIn p q := by
  have hsame : (Blob.alignUp q + 3) / 4 = (q + 3) / 4 := by
    unfold Blob.alignUp
    omega
  rw [wordsIn, hsame, wordsIn]

theorem mem_wordsIn {address : UInt32} : address ∈ wordsIn p q ↔ ∃ position,
    position % 4 = 0 ∧ p ≤ position ∧ position < q ∧ address = wordAddress position := by
  simp only [wordsIn, List.mem_map, List.mem_range'_1]
  constructor
  · rintro ⟨n, hn, rfl⟩
    refine ⟨n * 4, by omega, by omega, by omega, ?_⟩
    rw [wordAddress, Nat.mul_div_cancel n (by decide)]
  · rintro ⟨position, hzero, hp, hq, rfl⟩
    exact ⟨position / 4, by omega, rfl⟩

theorem nodup_wordsIn (hq : q ≤ 2 ^ 32) : (wordsIn p q).Nodup := by
  refine List.Nodup.map_on (fun m hm n hn he => ?_) List.nodup_range'
  rw [List.mem_range'_1] at hm hn
  have hnat := congrArg UInt32.toNat he
  rw [UInt32.toNat_ofNat', UInt32.toNat_ofNat'] at hnat
  omega

end Window

/-! ### Reading forward -/

namespace FlashSource

variable {first : Link} {fetched : List UInt32} {s : FlashSource} {p q : Nat}

/-- A window whose bytes in front of a position were read, for which some words were fetched one
after the other.  The word that is held is the one of the byte in front, for as long as it is
needed. -/
structure ReadTo (first : Link) (fetched : List UInt32) (p : Nat) (s : FlashSource) : Prop where
  served : Link.Served fetched first s.link
  wordReads_eq : s.window.wordReads = fetched.length
  size_le : s.window.size ≤ Window.maxSize
  held : ∀ h, s.window.held = some h →
    h.address.toNat < p ∧ h.generation = s.link.device.generation
  holds : p % 4 ≠ 0 → s.window.Holds (Window.wordAddress p)

/-- Bytes up to the start of a word may be left out. -/
theorem ReadTo.skip (h : ReadTo first fetched p s) (hq : q % 4 = 0) (hle : p ≤ q) :
    ReadTo first fetched q s := by
  refine ⟨h.served, h.wordReads_eq, h.size_le, fun held hh => ?_, fun hn => absurd hq hn⟩
  obtain ⟨hlt, hg⟩ := h.held held hh
  exact ⟨Nat.lt_of_lt_of_le hlt hle, hg⟩

/-- The held word is up to date. -/
theorem ReadTo.refreshed_eq (h : ReadTo first fetched p s) : s.refreshed = s := by
  have hkept : s.window.held.filter
      (fun held => decide (held.generation = s.link.device.generation)) = s.window.held := by
    cases hh : s.window.held with
    | none => rfl
    | some held => simp [(h.held held hh).2]
  rw [refreshed, Window.refresh, hkept]

/-- **A word is fetched with its first byte**, and held for the others. -/
theorem readByte_forward (hp : p < Window.maxSize) :
    Triple (ReadTo first fetched p) (readByte p)
      (fun _ => ReadTo first (fetched ++ Window.wordsIn p (p + 1)) (p + 1)) fun _ _ => True := by
  unfold Window.maxSize at hp
  have hsame : (p + 1) % 4 ≠ 0 → Window.wordAddress (p + 1) = Window.wordAddress p := fun hn =>
    (Window.wordAddress_eq_iff (by omega) (by omega)).2 (by omega)
  intro s h
  rw [Window.wordsIn_succ]
  by_cases hfirst : p % 4 = 0
  · have hnew : ¬s.window.Holds (Window.wordAddress p) := by
      rintro ⟨held, hh, ha⟩
      obtain ⟨hlt, -⟩ := h.held held hh
      rw [ha, Window.toNat_wordAddress (by omega)] at hlt
      omega
    rw [run_readByte_fetch hnew, if_pos hfirst]
    rcases hrun : (Link.readWord (Window.wordAddress p)).run s.link with ⟨_ | word, after, es⟩
    · trivial
    · refine ⟨h.served.snoc hrun, ?_, h.size_le, ?_, fun hn => ?_⟩
      · rw [List.length_append, ← h.wordReads_eq]
        rfl
      · rintro held ⟨⟩
        refine ⟨?_, rfl⟩
        rw [Window.toNat_wordAddress (by omega)]
        omega
      · exact ⟨_, rfl, (hsame hn).symm⟩
  · obtain ⟨held, hh, ha⟩ := h.holds hfirst
    rw [run_readByte_held hh ha, if_neg hfirst, List.append_nil]
    refine ⟨h.served, h.wordReads_eq, h.size_le, fun held hh => ?_, fun hn => ?_⟩
    · obtain ⟨hlt, hg⟩ := h.held held hh
      exact ⟨Nat.lt_succ_of_lt hlt, hg⟩
    · rw [hsame hn]
      exact h.holds hfirst

theorem readBytes_forward {n : Nat} (hn : p + n ≤ Window.maxSize) :
    Triple (ReadTo first fetched p) (readBytes p n)
      (fun _ => ReadTo first (fetched ++ Window.wordsIn p (p + n)) (p + n)) fun _ _ => True := by
  have hnone : Window.wordsIn p p = [] := by simp [Window.wordsIn]
  refine (readBytes_induction
    (I := fun k => ReadTo first (fetched ++ Window.wordsIn p (p + k)) (p + k)) fun k hk => ?_).imp
      (fun s h => by simpa [hnone] using h) (fun _ _ h => h) fun _ _ he => he
  refine (readByte_forward (by omega)).imp (fun _ h => h) (fun _ s h => ?_) fun _ _ he => he
  rwa [List.append_assoc, Window.wordsIn_append (by omega) (by omega)] at h

/-- **A read goes on where the one before it has ended.** -/
theorem read_forward (p n : Nat) :
    Triple (ReadTo first fetched p) (read p n)
      (fun _ => ReadTo first (fetched ++ Window.wordsIn p (p + n)) (p + n)) fun _ _ => True := by
  intro s h
  cases hin : s.window.inside p n with
  | error e =>
    have hrun : (read p n).run s = ⟨.error e, s, []⟩ := by
      simp [read, Action.run_bind, hin]
    rw [hrun]
    trivial
  | ok u =>
    rw [run_read hin, h.refreshed_eq, ite_self]
    exact readBytes_forward (Nat.le_trans (Window.inside_eq_ok_iff.1 hin) h.size_le) s h

/-- A window that nothing was read from. -/
theorem readTo_zero {size : Nat} (hsize : size ≤ Window.maxSize) (l : Link) :
    ReadTo l [] 0 ⟨⟨size, none, 0⟩, l⟩ :=
  ⟨.nil l, rfl, hsize, fun _ hh => (nomatch hh), fun hn => absurd rfl hn⟩

/-- **Of a blob that is read in one pass, the word of the magic is fetched, and the words from the
first record onwards.** -/
theorem passes (first : Link) : Source.Passes (ReadTo first [] 0)
    fun p => ReadTo first (0 :: Window.wordsIn Blob.headerBytes p) p where
  magic := (read_forward 0 4).imp (fun _ h => h) (fun _ _ h => h.skip rfl (by decide))
    fun _ _ he => he
  read p n hp := (read_forward p n).imp (fun _ h => h)
    (fun _ s h => by
      rwa [List.cons_append, Window.wordsIn_append hp (Nat.le_add_right _ _)] at h)
    fun _ _ he => he
  align p s _ h := by
    obtain ⟨hle, -, hz⟩ := Blob.alignUp_spec p
    rw [Window.wordsIn_alignUp]
    exact h.skip hz hle

end FlashSource
end Flash
end WeightLink
