/-
# Reading through a window

The bytes of a read come out of the words that the window fetches on the way, one after the
other.  The first word that it fetches is what the link owes (`Link.Owes`), which may be the
word of another address; all later ones are the words of their own addresses.  `origin` says
which word is held under which address, and `readBytes_spec` carries this through a read.
-/

import WeightLink.Proofs.Action.Triple
import WeightLink.Proofs.Flash.Answers
import WeightLink.Source.Window

namespace WeightLink
namespace Flash

/-! ### Addresses of words -/

namespace Window

theorem toNat_wordAddress {position : Nat} (h : position < 2 ^ 32) :
    (wordAddress position).toNat = position / 4 * 4 := by
  rw [wordAddress, UInt32.toNat_ofNat']
  omega

theorem wordAddress_eq_iff {p q : Nat} (hp : p < 2 ^ 32) (hq : q < 2 ^ 32) :
    wordAddress p = wordAddress q ↔ p / 4 = q / 4 := by
  rw [← UInt32.toNat_inj, toNat_wordAddress hp, toNat_wordAddress hq]
  omega

/-- The window holds the word of an address. -/
def Holds (w : Window) (address : UInt32) : Prop := ∃ h, w.held = some h ∧ h.address = address

instance (w : Window) (address : UInt32) : Decidable (w.Holds address) :=
  match hw : w.held with
  | none => isFalse fun ⟨_, hh, _⟩ => nomatch hw.symm.trans hh
  | some h => decidable_of_iff (h.address = address)
      ⟨fun ha => ⟨h, hw, ha⟩, fun ⟨_, hh, ha⟩ => Option.some.inj (hw.symm.trans hh) ▸ ha⟩

/-- The address of the first word that a read from a position onwards fetches, if it goes far
enough to fetch one. -/
def firstFetch (w : Window) (position : Nat) : UInt32 :=
  if w.Holds (wordAddress position) then wordAddress position + 4 else wordAddress position

theorem Holds.unique {w : Window} {a b : UInt32} (ha : w.Holds a) (hb : w.Holds b) : a = b := by
  obtain ⟨g, hg, rfl⟩ := ha
  obtain ⟨h, hh, rfl⟩ := hb
  rw [Option.some.inj (hg.symm.trans hh)]

/-- The first position whose word is not held is in the word of the first fetch. -/
theorem wordAddress_eq_firstFetch {w : Window} {position n : Nat}
    (hw : ∀ i < n, w.Holds (wordAddress (position + i)))
    (hn : ¬w.Holds (wordAddress (position + n))) (hb : position + n + 4 ≤ 2 ^ 32) :
    wordAddress (position + n) = w.firstFetch position := by
  cases n with
  | zero => exact (if_neg hn).symm
  | succ m =>
    have hfst : w.Holds (wordAddress position) := hw 0 (by omega)
    have hsame := (hw m (by omega)).unique hfst
    have hnext : wordAddress (position + (m + 1)) ≠ wordAddress position :=
      fun he => hn (he ▸ hfst)
    rw [wordAddress_eq_iff (by omega) (by omega)] at hsame
    rw [Ne, wordAddress_eq_iff (by omega) (by omega)] at hnext
    rw [firstFetch, if_pos hfst, ← UInt32.toNat_inj, UInt32.toNat_add,
      toNat_wordAddress (by omega), toNat_wordAddress (by omega)]
    change _ = (position / 4 * 4 + 4) % 2 ^ 32
    omega

/-- The first fetch is not for a word that is held. -/
theorem Holds.ne_firstFetch {w : Window} {address : UInt32} (h : w.Holds address)
    (position : Nat) : address ≠ w.firstFetch position := by
  rintro rfl
  by_cases hp : w.Holds (wordAddress position)
  · have he := h.unique hp
    rw [firstFetch, if_pos hp, ← UInt32.toNat_inj, UInt32.toNat_add] at he
    have hlt := (wordAddress position).toNat_lt
    change (_ + 4) % 2 ^ 32 = _ at he
    omega
  · rw [firstFetch, if_neg hp] at h
    exact hp h

theorem wordAddress_le {p q : Nat} (h : p ≤ q) (hq : q < 2 ^ 32) :
    (wordAddress p).toNat ≤ (wordAddress q).toNat := by
  rw [toNat_wordAddress (by omega), toNat_wordAddress hq]
  omega

end Window

/-- The address whose word is served for `address`, when the first fetch was for `first` and
was answered with the word of `given`. -/
def origin (first given address : UInt32) : UInt32 := if address = first then given else address

theorem origin_self (first address : UInt32) : origin first first address = address := by
  unfold origin
  split <;> simp [*]

theorem origin_of_ne {first address : UInt32} (given : UInt32) (h : address ≠ first) :
    origin first given address = address := if_neg h

namespace FlashSource

/-! ### One byte -/

section Byte

variable {s : FlashSource} {position : Nat}

/-- A byte of the held word costs nothing. -/
theorem run_readByte_held {h : Window.Held} (hh : s.window.held = some h)
    (ha : h.address = Window.wordAddress position) :
    (readByte position).run s = ⟨.ok (Word.byte h.word (position % 4)), s, []⟩ := by
  simp [readByte, Action.run_bind, hh, ha]

/-- Any other byte costs a blocking read of the link. -/
theorem run_readByte_fetch (hn : ¬s.window.Holds (Window.wordAddress position)) :
    (readByte position).run s =
      let o := (Link.readWord (Window.wordAddress position)).run s.link
      match o.result with
      | .ok word =>
        ⟨.ok (Word.byte word (position % 4)),
          { window :=
              { s.window with
                held := some ⟨Window.wordAddress position, word, o.state.device.generation⟩
                wordReads := s.window.wordReads + 1 }
            link := o.state }, o.events⟩
      | .error e => ⟨.error e, { s with link := o.state }, o.events⟩ := by
  have hfetch : (readByte position).run s =
      (fetch (Window.wordAddress position) >>= fun word =>
        pure (Word.byte word (position % 4))).run s := by
    cases hh : s.window.held with
    | none => simp [readByte, Action.run_bind, hh]
    | some h =>
      have ha : h.address ≠ Window.wordAddress position := fun ha => hn ⟨h, hh, ha⟩
      simp [readByte, Action.run_bind, hh, ha]
  rw [hfetch]
  simp only [fetch, Action.run_bind, onLink, Action.run_within]
  cases ((Link.readWord (Window.wordAddress position)).run s.link).result <;> simp

end Byte

/-! ### Many bytes -/

/-- What holds of a read byte by byte holds of it as a whole. -/
theorem readBytes_induction {I : Nat → FlashSource → Prop} {E : Fault → FlashSource → Prop}
    {position n : Nat}
    (hbyte : ∀ k < n, Action.Triple (I k) (readByte (position + k)) (fun _ => I (k + 1)) E) :
    Action.Triple (I 0) (readBytes position n) (fun _ => I n) E := by
  induction n with
  | zero => exact .pure fun _ h => h
  | succ n ih =>
    exact .bind (ih fun k hk => hbyte k (Nat.lt_succ_of_lt hk)) fun _ =>
      .bind (hbyte n (Nat.lt_succ_self n)) fun _ => .pure fun _ h => h

section Reachable

variable {cfg : Link.Config} {s : FlashSource}

theorem reachable_readByte (h : Link.Reachable cfg s.link) (position : Nat) :
    Link.Reachable cfg ((readByte position).run s).state.link := by
  by_cases hh : s.window.Holds (Window.wordAddress position)
  · obtain ⟨held, hheld, ha⟩ := hh
    rw [run_readByte_held hheld ha]
    exact h
  · have hr := h.readWord (Window.wordAddress position)
    rw [run_readByte_fetch hh]
    revert hr
    rcases (Link.readWord (Window.wordAddress position)).run s.link with ⟨_ | word, after, es⟩
    · exact id
    · exact id

theorem reachable_readBytes (h : Link.Reachable cfg s.link) (position count : Nat) :
    Link.Reachable cfg ((readBytes position count).run s).state.link :=
  Action.Triple.keeps_iff.1 (readBytes_induction (I := fun _ s => Link.Reachable cfg s.link)
    fun k _ => Action.Triple.keeps_iff.2 fun _ hs => reachable_readByte hs (position + k)) s h

end Reachable

/-- What stays true while a read that began in `s` goes on. -/
structure During (cfg : Link.Config) (s : FlashSource) (first given : UInt32) (t : FlashSource) :
    Prop where
  reachable : Link.Reachable cfg t.link
  wordByte_eq : t.link.wordByte = s.link.wordByte
  generation_eq : t.link.device.generation = s.link.device.generation
  held : ∀ h, t.window.held = some h →
    s.link.IsWord (origin first given h.address) h.word ∧
      h.generation = s.link.device.generation

/-- How far a read is from `position` onwards, after `n` bytes. -/
inductive Progress (s : FlashSource) (first : UInt32) (position : Nat) : Nat → FlashSource → Prop
  /-- All bytes came out of the word that was held at the start. -/
  | untouched {n : Nat} (hold : ∀ i < n, s.window.Holds (Window.wordAddress (position + i))) :
      Progress s first position n s
  /-- The debt is paid, and the word of the last byte is held. -/
  | fetched {n : Nat} {t : FlashSource}
      (hold : t.window.Holds (Window.wordAddress (position + n)))
      (past : first.toNat ≤ (Window.wordAddress (position + n)).toNat)
      (free : t.link.engine.reading = false) : Progress s first position (n + 1) t

/-- A read holds the word of its last byte. -/
theorem Progress.holds {s t : FlashSource} {first : UInt32} {position n : Nat}
    (h : Progress s first position n t) (hn : 0 < n) :
    t.window.Holds (Window.wordAddress (position + (n - 1))) := by
  cases h with
  | untouched hold => exact hold _ (by omega)
  | fetched hold past free => exact hold

section Bytes

variable {cfg : Link.Config} {s t : FlashSource} {first given : UInt32} {position : Nat}

/-- A fetch gets what it is owed. -/
theorem During.fetch (hd : During cfg s first given t)
    (hn : ¬t.window.Holds (Window.wordAddress position))
    (ho : t.link.Owes (Window.wordAddress position)
      (origin first given (Window.wordAddress position))) :
    match ((readByte position).run t).result with
    | .ok b =>
      b = s.link.wordByte (origin first given (Window.wordAddress position)) (position % 4) ∧
        During cfg s first given ((readByte position).run t).state ∧
        ((readByte position).run t).state.window.Holds (Window.wordAddress position) ∧
        ((readByte position).run t).state.link.engine.reading = false
    | .error _ =>
      During cfg s first given ((readByte position).run t).state ∧
        ∃ asked, ((readByte position).run t).state.link.Owes asked (origin first given asked) := by
  have hpaid := hd.reachable.coupled.readWord_owes ho
  have hr := hd.reachable.readWord (Window.wordAddress position)
  obtain ⟨hk, hg⟩ := Link.readWord_kept (Window.wordAddress position) t.link
  have hk := hk.trans hd.wordByte_eq
  have hg := hg.trans hd.generation_eq
  rw [run_readByte_fetch hn]
  revert hpaid hr hk hg
  rcases (Link.readWord (Window.wordAddress position)).run t.link with ⟨_ | word, after, es⟩
  · exact fun hpaid hr hk hg => ⟨⟨hr, hk, hg, hd.held⟩, _, hpaid⟩
  · rintro ⟨hword, hfree⟩ hr hk hg
    have hword : s.link.IsWord (origin first given (Window.wordAddress position)) word := by
      simpa only [Link.IsWord, hd.wordByte_eq] using hword
    refine ⟨hword _ (Nat.mod_lt _ (by decide)), ⟨hr, hk, hg, ?_⟩, ⟨_, rfl, rfl⟩, hfree⟩
    rintro h ⟨⟩
    exact ⟨hword, hg⟩

/-- One more byte. -/
theorem During.readByte {n : Nat} (hd : During cfg s first given t)
    (hp : Progress s first position n t) (hf : first = s.window.firstFetch position)
    (ho : s.link.Owes first given) (hb : position + n + 4 ≤ 2 ^ 32) :
    match ((readByte (position + n)).run t).result with
    | .ok b =>
      b = s.link.wordByte (origin first given (Window.wordAddress (position + n)))
          ((position + n) % 4) ∧
        During cfg s first given ((readByte (position + n)).run t).state ∧
        Progress s first position (n + 1) ((readByte (position + n)).run t).state
    | .error _ =>
      During cfg s first given ((readByte (position + n)).run t).state ∧
        ∃ asked, ((readByte (position + n)).run t).state.link.Owes asked
          (origin first given asked) := by
  by_cases hh : t.window.Holds (Window.wordAddress (position + n))
  · obtain ⟨h, hheld, ha⟩ := hh
    have hword := (hd.held h hheld).1
    rw [ha] at hword
    rw [run_readByte_held hheld ha]
    refine ⟨hword _ (Nat.mod_lt _ (by decide)), hd, ?_⟩
    cases hp with
    | untouched hold =>
      refine .untouched fun i hi => ?_
      rcases Nat.lt_succ_iff_lt_or_eq.1 hi with hi | rfl
      · exact hold i hi
      · exact ⟨h, hheld, ha⟩
    | fetched hold past free =>
      exact .fetched ⟨h, hheld, ha⟩
        (Nat.le_trans past (Window.wordAddress_le (by omega) (by omega))) free
  · -- The window owes the first fetch what the link owes; after that nothing is owed.
    have hpast : first.toNat ≤ (Window.wordAddress (position + n)).toNat ∧
        t.link.Owes (Window.wordAddress (position + n))
          (origin first given (Window.wordAddress (position + n))) := by
      cases hp with
      | untouched hold =>
        rw [Window.wordAddress_eq_firstFetch hold hh hb, ← hf, origin, if_pos rfl]
        exact ⟨Nat.le_refl _, ho⟩
      | @fetched n _ hold past free =>
        have hle := Window.wordAddress_le (p := position + n) (q := position + (n + 1))
          (by omega) (by omega)
        have hne : Window.wordAddress (position + (n + 1)) ≠ first := by
          rintro rfl
          exact hh (UInt32.toNat_inj.1 (Nat.le_antisymm hle past) ▸ hold)
        rw [origin_of_ne given hne]
        exact ⟨Nat.le_trans past hle, .inr ⟨free, rfl⟩⟩
    have hstep := hd.fetch hh hpast.2
    revert hstep
    rcases (FlashSource.readByte (position + n)).run t with ⟨_ | b, after, es⟩
    · exact id
    · rintro ⟨hb, hd, hold, free⟩
      exact ⟨hb, hd, .fetched hold hpast.1 free⟩

/-- **The bytes of a read are the bytes of the words that it was owed.** -/
theorem readBytes_spec {n : Nat} (hd : During cfg s first given s)
    (hf : first = s.window.firstFetch position) (ho : s.link.Owes first given)
    (hb : position + n + 4 ≤ 2 ^ 32) :
    match ((readBytes position n).run s).result with
    | .ok v =>
      (∀ i (hi : i < n), v[i] =
        s.link.wordByte (origin first given (Window.wordAddress (position + i)))
          ((position + i) % 4)) ∧
        During cfg s first given ((readBytes position n).run s).state ∧
        Progress s first position n ((readBytes position n).run s).state
    | .error _ =>
      During cfg s first given ((readBytes position n).run s).state ∧
        ∃ asked, ((readBytes position n).run s).state.link.Owes asked
          (origin first given asked) := by
  induction n with
  | zero =>
    exact ⟨fun i hi => absurd hi (Nat.not_lt_zero i), hd,
      .untouched fun i hi => absurd hi (Nat.not_lt_zero i)⟩
  | succ n ih =>
    have hfront := ih (by omega)
    simp only [readBytes, Action.run_bind]
    revert hfront
    rcases (readBytes position n).run s with ⟨_ | v, t, es⟩
    · exact id
    · rintro ⟨hv, ht, hp⟩
      have hlast := ht.readByte hp hf ho (by omega)
      revert hlast
      simp only
      rcases (readByte (position + n)).run t with ⟨_ | b, t', es'⟩
      · exact id
      · rintro ⟨hb, ht', hp'⟩
        refine ⟨fun i hi => ?_, ht', hp'⟩
        rcases Nat.lt_succ_iff_lt_or_eq.1 hi with hi | rfl
        · rw [← hv i hi]
          exact Vector.getElem_push_lt hi
        · rw [← hb]
          exact Vector.getElem_push_last

end Bytes

end FlashSource
end Flash
end WeightLink
