/-
# Reads that were given up

A blocking read that runs out of cycles leaves its frame on the link, and the engine
answers that frame to whoever presents a read when it is done.  The next blocking read
takes the answer for its own, whatever its address.  So it returns the word at its address
exactly if nothing is left on the link, or what is left is at an address with the same word
(`Link.readWord_isWord_iff`).

A window passes this on: the first word that it fetches may be the word of another address,
and stays under the wrong address if it is the last one (`FlashSource.read_right_iff`).
-/

import WeightLink.Proofs.Source.Fetch

namespace WeightLink
namespace Flash
namespace Link

/-- Two bus addresses have the same word. -/
def SameWord (l : Link) (a b : UInt32) : Prop := ∀ k < 4, l.wordByte a k = l.wordByte b k

instance (l : Link) (address word : UInt32) : Decidable (l.IsWord address word) :=
  inferInstanceAs (Decidable (∀ k < 4, _))

instance (l : Link) (address : UInt32) : Decidable (l.InFlight address) :=
  inferInstanceAs (Decidable (_ ∧ _))

theorem IsWord.iff_sameWord {l : Link} {a b word : UInt32} (h : l.IsWord a word) :
    l.IsWord b word ↔ l.SameWord a b :=
  ⟨fun hb k hk => (h k hk).symm.trans (hb k hk), fun hs k hk => (h k hk).trans (hs k hk)⟩

/-- **A blocking read is right exactly if no other read is left on the link**, up to reads of
addresses with the same word. -/
theorem readWord_isWord_iff {cfg : Config} {l : Link} (h : Reachable cfg l) {address word : UInt32}
    (hw : ((readWord address).run l).result = .ok word) :
    l.IsWord address word ↔ ∀ left, l.InFlight left → l.SameWord left address := by
  have hgiven : ∀ given, l.Owes address given → l.IsWord given word := by
    intro given ho
    have hpaid := h.coupled.readWord_owes ho
    rw [hw] at hpaid
    exact hpaid.1
  constructor
  · exact fun hok left hf => (hgiven left (.inl hf)).iff_sameWord.1 hok
  · intro hsame
    by_cases hr : l.engine.reading = true
    · obtain ⟨left, hf⟩ := h.coupled.started hr
      exact (hgiven left (.inl hf)).iff_sameWord.2 (hsame left hf)
    · exact hgiven address (.inr ⟨by simpa using hr, rfl⟩)

/-- A blocking read that finds the link free and gives up leaves at most itself behind. -/
theorem readWord_abandoned {cfg : Config} {l : Link} (h : Reachable cfg l) {address : UInt32}
    (hr : l.engine.reading = false) {e : Fault}
    (he : ((readWord address).run l).result = .error e) :
    ((readWord address).run l).state.engine.reading = false ∨
      ((readWord address).run l).state.InFlight address := by
  have hown : l.Owes address address := .inr ⟨hr, rfl⟩
  have hleft := h.coupled.readWord_owes hown
  rw [he] at hleft
  exact hleft.symm.imp And.left id

end Link

namespace FlashSource

/-- A held word that is not out of date is the word at its address. -/
def Honest (s : FlashSource) : Prop :=
  ∀ h, s.window.held = some h → h.generation = s.link.device.generation →
    s.link.IsWord h.address h.word

/-- The bytes are those at a position. -/
def Right (s : FlashSource) (position : Nat) {count : Nat} (v : Vector UInt8 count) : Prop :=
  ∀ i (hi : i < count),
    v[i] = s.link.wordByte (Window.wordAddress (position + i)) ((position + i) % 4)

instance (s : FlashSource) (position : Nat) {count : Nat} (v : Vector UInt8 count) :
    Decidable (s.Right position v) :=
  inferInstanceAs (Decidable (∀ i (_ : i < count), _))

/-- The address of the first word that a read fetches, once outdated words are dropped. -/
def nextFetch (s : FlashSource) (position : Nat) : UInt32 :=
  (s.window.refresh s.link.device.generation).firstFetch position

/-- It makes no difference to a read that its first fetch is answered with the word of `left`:
the bytes that are read out of that word are the same, and so is all of it if it remains
held. -/
def Harmless (s : FlashSource) (position count : Nat) (left : UInt32) : Prop :=
  (∀ i < count, Window.wordAddress (position + i) = s.nextFetch position →
    s.link.wordByte left ((position + i) % 4) =
      s.link.wordByte (s.nextFetch position) ((position + i) % 4)) ∧
  (0 < count → Window.wordAddress (position + (count - 1)) = s.nextFetch position →
    s.link.SameWord left (s.nextFetch position))

variable {cfg : Link.Config} {s : FlashSource} {position count : Nat} {given : UInt32}

/-- The source after it has dropped an outdated word. -/
def refreshed (s : FlashSource) : FlashSource :=
  { s with window := s.window.refresh s.link.device.generation }

theorem run_read (hi : s.window.inside position count = .ok ()) :
    (read position count).run s =
      (readBytes position count).run (if count = 0 then s else s.refreshed) := by
  by_cases hc : count = 0
  · subst hc
    simp [read, Action.run_bind, hi]
  · simp [read, Action.run_bind, hi, hc, refresh, refreshed]

theorem inside_of_read {v : Vector UInt8 count}
    (hv : ((read position count).run s).result = .ok v) :
    s.window.inside position count = .ok () := by
  cases hi : s.window.inside position count with
  | ok u => rfl
  | error e => simp [read, Action.run_bind, hi] at hv

/-- A read takes the link through states that it gets into anyway. -/
theorem reachable_read (h : Link.Reachable cfg s.link) (position count : Nat) :
    Link.Reachable cfg ((read position count).run s).state.link := by
  cases hin : s.window.inside position count with
  | error e =>
    have hstate : ((read position count).run s).state = s := by simp [read, Action.run_bind, hin]
    rw [hstate]
    exact h
  | ok u =>
    rw [run_read hin]
    by_cases hc : count = 0
    · rw [if_pos hc]
      exact reachable_readBytes h position count
    · rw [if_neg hc]
      exact reachable_readBytes (s := s.refreshed) h position count

/-- An honest source starts a read without a wrong word. -/
theorem Honest.during (h : s.Honest) (hr : Link.Reachable cfg s.link) (given : UInt32) :
    During cfg s.refreshed (s.nextFetch position) given s.refreshed := by
  refine ⟨hr, rfl, rfl, fun held hh => ?_⟩
  have hfirst : held.address ≠ s.nextFetch position :=
    Window.Holds.ne_firstFetch ⟨held, hh, rfl⟩ position
  obtain ⟨hheld, hg⟩ := Option.filter_eq_some_iff.1 hh
  have hg : held.generation = s.link.device.generation := of_decide_eq_true hg
  rw [origin_of_ne given hfirst]
  exact ⟨h held hheld hg, hg⟩

/-- A read and what it leaves are right exactly if what it was owed first makes no difference. -/
theorem Honest.right_iff_of_owes (h : s.Honest) (hr : Link.Reachable cfg s.link)
    (hsize : s.window.size ≤ Window.maxSize) (ho : s.link.Owes (s.nextFetch position) given)
    {v : Vector UInt8 count} (hv : ((read position count).run s).result = .ok v) :
    s.Right position v ∧ ((read position count).run s).state.Honest ↔
      s.Harmless position count given := by
  have hin := inside_of_read hv
  rw [run_read hin] at hv ⊢
  by_cases hc : count = 0
  · subst hc
    exact iff_of_true ⟨fun i hi => absurd hi (Nat.not_lt_zero i), h⟩
      ⟨fun i hi => absurd hi (Nat.not_lt_zero i), fun hpos => absurd hpos (Nat.lt_irrefl 0)⟩
  rw [if_neg hc] at hv ⊢
  have hend : position + count ≤ Window.maxSize :=
    Nat.le_trans (Window.inside_eq_ok_iff.1 hin) hsize
  have hspec := readBytes_spec (h.during hr given) rfl ho
    (show position + count + 4 ≤ 2 ^ 32 by unfold Window.maxSize at hend; omega)
  rw [hv] at hspec
  obtain ⟨hbytes, hd, hp⟩ := hspec
  have hlast := hp.holds (by omega)
  constructor
  · rintro ⟨hright, hhonest⟩
    refine ⟨fun i hi hf => ?_, fun _ hf => ?_⟩
    · have hgot := hbytes i hi
      rw [hf, origin, if_pos rfl] at hgot
      have hwant := hright i hi
      rw [hf] at hwant
      exact hgot.symm.trans hwant
    · obtain ⟨held, hh, ha⟩ := hlast
      obtain ⟨hword, hg⟩ := hd.held held hh
      rw [ha, hf, origin, if_pos rfl] at hword
      have hclaim := hhonest held hh (hg.trans hd.generation_eq.symm)
      rw [ha, hf, Link.IsWord, hd.wordByte_eq] at hclaim
      exact hword.iff_sameWord.1 hclaim
  · rintro ⟨hsame, hword⟩
    refine ⟨fun i hi => ?_, fun held hh _ => ?_⟩
    · rw [hbytes i hi]
      by_cases hf : Window.wordAddress (position + i) = s.nextFetch position
      · rw [hf, origin, if_pos rfl]
        exact hsame i hi hf
      · rw [origin_of_ne given hf]
        rfl
    · have hheld := (hd.held held hh).1
      rw [Link.IsWord, hd.wordByte_eq]
      by_cases hf : held.address = s.nextFetch position
      · have ha : held.address = Window.wordAddress (position + (count - 1)) :=
          Window.Holds.unique ⟨held, hh, rfl⟩ hlast
        rw [hf, origin, if_pos rfl] at hheld
        rw [hf]
        exact hheld.iff_sameWord.2 (hword (by omega) (ha.symm.trans hf))
      · rw [origin_of_ne given hf] at hheld
        exact hheld

/-- **A read of a window is right exactly if no other read is left on the link**, up to reads
of words that make no difference to it. -/
theorem read_right_iff (h : s.Honest) (hr : Link.Reachable cfg s.link)
    (hsize : s.window.size ≤ Window.maxSize) {v : Vector UInt8 count}
    (hv : ((read position count).run s).result = .ok v) :
    s.Right position v ∧ ((read position count).run s).state.Honest ↔
      ∀ left, s.link.InFlight left → s.Harmless position count left := by
  constructor
  · exact fun hok left hf => (h.right_iff_of_owes hr hsize (.inl hf) hv).1 hok
  · intro hleft
    by_cases hb : s.link.engine.reading = true
    · obtain ⟨left, hf⟩ := hr.coupled.started hb
      exact (h.right_iff_of_owes hr hsize (.inl hf) hv).2 (hleft left hf)
    · refine (h.right_iff_of_owes hr hsize (.inr ⟨by simpa using hb, rfl⟩) hv).2 ⟨?_, ?_⟩
      · exact fun i hi hf => rfl
      · exact fun hpos hf k hk => rfl

/-- A read that finds the link free and gives up leaves no wrong word behind. -/
theorem read_abandoned (h : s.Honest) (hr : Link.Reachable cfg s.link)
    (hsize : s.window.size ≤ Window.maxSize) (hfree : s.link.engine.reading = false) {e : Fault}
    (he : ((read position count).run s).result = .error e) :
    ((read position count).run s).state.Honest := by
  cases hin : s.window.inside position count with
  | error e =>
    have hstate : ((read position count).run s).state = s := by simp [read, Action.run_bind, hin]
    rw [hstate]
    exact h
  | ok u =>
    rw [run_read hin] at he ⊢
    by_cases hc : count = 0
    · subst hc
      exact h
    rw [if_neg hc] at he ⊢
    have hend : position + count ≤ Window.maxSize :=
      Nat.le_trans (Window.inside_eq_ok_iff.1 hin) hsize
    have hspec := readBytes_spec (h.during hr (s.nextFetch position)) rfl (.inr ⟨hfree, rfl⟩)
      (show position + count + 4 ≤ 2 ^ 32 by unfold Window.maxSize at hend; omega)
    rw [he] at hspec
    obtain ⟨hd, -⟩ := hspec
    intro held hh _
    have hheld := (hd.held held hh).1
    rw [origin_self] at hheld
    rw [Link.IsWord, hd.wordByte_eq]
    exact hheld

end FlashSource

/-- **What abandoned reads do.**  From power-on onwards, a blocking read that returns gives the
word at its address exactly if every read that was left on the link is at an address with the
same word.  A read of an honest window that succeeds gives the bytes at its position and stays
honest exactly if a read that was left on the link makes no difference to it.  The window is
still honest after a read that found the link free and gave up. -/
theorem abandoned_reads (cfg : Link.Config) :
    (∀ l address word, Link.Reachable cfg l →
      ((Link.readWord address).run l).result = .ok word →
        (l.IsWord address word ↔ ∀ left, l.InFlight left → l.SameWord left address)) ∧
    (∀ (s : FlashSource) position count (v : Vector UInt8 count), Link.Reachable cfg s.link →
      s.window.size ≤ Window.maxSize → s.Honest →
      ((FlashSource.read position count).run s).result = .ok v →
        (s.Right position v ∧ ((FlashSource.read position count).run s).state.Honest ↔
          ∀ left, s.link.InFlight left → s.Harmless position count left)) ∧
    (∀ (s : FlashSource) position count e, Link.Reachable cfg s.link →
      s.window.size ≤ Window.maxSize → s.Honest → s.link.engine.reading = false →
      ((FlashSource.read position count).run s).result = .error e →
        ((FlashSource.read position count).run s).state.Honest) := by
  refine ⟨fun l address word hr hw => ?_, fun s position count v hr hsize h hv => ?_,
    fun s position count e hr hsize h hfree he => ?_⟩
  · exact Link.readWord_isWord_iff hr hw
  · exact FlashSource.read_right_iff h hr hsize hv
  · exact FlashSource.read_abandoned h hr hsize hfree he

/-! ### A link that hangs once -/

namespace FlashSource

/-- Two words, an awake device, and fewer cycles for a blocking read than it takes. -/
def hangingConfig : Link.Config := ⟨⟨0, 0, false, 0⟩, 8, false, 100⟩

def hangingErased : Link := (Link.create hangingConfig).toOption.get (by decide)

def hangingDevice : Device :=
  (hangingErased.device.load 0
    (.held #[0x11, 0x22, 0x33, 0x44, 0x55, 0x66, 0x77, 0x88])).toOption.get (by decide)

/-- A window onto both words, before the first read. -/
def hanging : FlashSource := ⟨⟨8, none, 0⟩, { hangingErased with device := hangingDevice }⟩

/-- The window after a read of the first word, which hung. -/
def hung : FlashSource := ((read 0 4).run hanging).state

end FlashSource

open FlashSource

theorem reachable_hanging : Link.Reachable hangingConfig hanging.link :=
  .load 0 (.held #[0x11, 0x22, 0x33, 0x44, 0x55, 0x66, 0x77, 0x88]) (.create rfl) rfl rfl

theorem honest_hanging : hanging.Honest := fun _ hh => nomatch hh

theorem hanging_hangs : ((read 0 4).run hanging).result.toOption = none := by decide +kernel

/-- The next read, of the second word, succeeds with the bytes of the first one, and the
window then holds them under the address of the second one. -/
theorem abandoned_read_answers_another :
    Link.Reachable hangingConfig hanging.link ∧ hanging.link.device.awake = true ∧
    ((read 0 4).run hanging).result.toOption = none ∧ hung.link.InFlight 0 ∧
    (((Link.readWord 4).run hung.link).result.toOption = some 0x44332211 ∧
      ¬hung.link.IsWord 4 0x44332211) ∧
    (((read 4 4).run hung).result.toOption = some #v[0x11, 0x22, 0x33, 0x44] ∧
      ¬hung.Right 4 #v[0x11, 0x22, 0x33, 0x44]) ∧
    ((read 4 4).run hung).state.window.held = some ⟨4, 0x44332211, 2⟩ := by
  refine ⟨reachable_hanging, rfl, hanging_hangs, ?_, ⟨?_, ?_⟩, ⟨?_, ?_⟩, ?_⟩ <;> decide +kernel

theorem abandoned_reads_hung :
    ((Link.readWord 4).run hung.link).result = .ok 0x44332211 ∧
    (hung.link.IsWord 4 0x44332211 ↔
      ∀ left, hung.link.InFlight left → hung.link.SameWord left 4) ∧
    ((read 4 4).run hung).result = .ok #v[0x11, 0x22, 0x33, 0x44] ∧
    (hung.Right 4 #v[0x11, 0x22, 0x33, 0x44] ∧ ((read 4 4).run hung).state.Honest ↔
      ∀ left, hung.link.InFlight left → hung.Harmless 4 4 left) ∧
    hung.Honest := by
  have hr : Link.Reachable hangingConfig hung.link := reachable_read reachable_hanging 0 4
  have hw : ((Link.readWord 4).run hung.link).result = .ok 0x44332211 :=
    eq_ok_of_toOption (by decide +kernel)
  have hv : ((read 4 4).run hung).result = .ok #v[0x11, 0x22, 0x33, 0x44] :=
    eq_ok_of_toOption (by decide +kernel)
  obtain ⟨e, he⟩ := eq_error_of_toOption hanging_hangs
  have hh : hung.Honest :=
    (abandoned_reads hangingConfig).2.2 _ _ _ _ reachable_hanging (by decide) honest_hanging rfl he
  have hsize : hung.window.size ≤ Window.maxSize := by decide +kernel
  exact ⟨hw, (abandoned_reads hangingConfig).1 _ _ _ hr hw, hv,
    (abandoned_reads hangingConfig).2.1 _ _ _ _ hr hsize hh hv, hh⟩

end Flash
end WeightLink
