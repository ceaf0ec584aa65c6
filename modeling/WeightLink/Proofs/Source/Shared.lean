/-
# Windows that share a link

Several windows fetch over one link, and between their reads the contents of the device are
replaced, its power is lost, the link is reset, and others read and write over it
(`Flash.Bench`, `Bench.Used`).  A word that a window holds is still good if nothing of this happened
since: then the engine has taken the device to be awake and it shows what it showed
(`Window.Current`).

So a read gives the bytes that the device shows when it is done, the same as a reader who holds no
word and asks the link for every byte (`Link.readBytes`).  It pays for the bytes that are
not in the word it holds when it comes to them (`Window.misses`).
-/

import WeightLink.Proofs.Flash.Steady

namespace WeightLink
namespace Flash

/-! ### Reading without holding words -/

namespace Link

/-- The bytes from a position onwards, each out of a word that is read for it. -/
def readBytes (position : Nat) : (count : Nat) → Action Link (Vector UInt8 count)
  | 0 => pure #v[]
  | count + 1 => do
    let front ← readBytes position count
    let word ← readWord (Window.wordAddress (position + count))
    return front.push (Word.byte word ((position + count) % 4))

theorem readBytes_succ (position n : Nat) : readBytes position (n + 1) = (do
    let front ← readBytes position n
    let word ← readWord (Window.wordAddress (position + n))
    return front.push (Word.byte word ((position + n) % 4))) := rfl

/-- The byte that the device shows at a position of a window. -/
def shownByte (l : Link) (position : Nat) : UInt8 :=
  l.device.dataByte (l.config.engine.translate (Window.wordAddress position) +
    BitVec.ofNat 24 (position % 4))

/-- The link when its engine takes the device to be awake, for which the read of a word waits. -/
def woken (l : Link) (position : Nat) : Link :=
  if l.engine.awake then l else ((readWord (Window.wordAddress position)).run l).state

variable {cfg : Config} {l l' : Link} {position n : Nat}

theorem woken_of_awake (h : l.engine.awake = true) : l.woken position = l := if_pos h

theorem woken_of_asleep (h : l.engine.awake = false) :
    l.woken position = ((readWord (Window.wordAddress position)).run l).state := by
  simp [woken, h]

theorem Kept.shownByte_eq (h : Kept l l') (ha : l.engine.awake = true) :
    l'.shownByte = l.shownByte := by
  funext position
  rw [shownByte, h.config_eq, h.dataByte_eq ha, shownByte]

/-- Where a link is when a read that began in `l` comes to its byte `n`. -/
structure Along (cfg : Config) (l : Link) (position n : Nat) (l' : Link) : Prop where
  rest : AtRest cfg l'
  kept : Kept l l'
  untouched : n = 0 → l' = l
  since : 0 < n → (l.woken position).engine.awake = true ∧ Kept (l.woken position) l'

namespace Along

theorem start (h : AtRest cfg l) : Along cfg l position 0 l :=
  ⟨h, .refl l, fun _ => rfl, fun h => absurd h (Nat.lt_irrefl 0)⟩

/-- What is shown now was shown when the device was taken to be awake. -/
theorem shownByte_eq (h : Along cfg l position (n + 1) l') :
    l'.shownByte = (l.woken position).shownByte :=
  let ⟨ha, hk⟩ := h.since (Nat.succ_pos n)
  hk.shownByte_eq ha

/-- A byte that costs nothing is taken while the device is taken to be awake. -/
theorem held (h : Along cfg l position n l') (ha : l'.engine.awake = true) :
    Along cfg l position (n + 1) l' := by
  refine ⟨h.rest, h.kept, fun hz => absurd hz (Nat.succ_ne_zero n), fun _ => ?_⟩
  cases n with
  | zero =>
    obtain rfl := h.untouched rfl
    rw [woken_of_awake ha]
    exact ⟨ha, .refl _⟩
  | succ n => exact h.since (Nat.succ_pos n)

/-- A byte that is fetched. -/
theorem fetched (h : Along cfg l position n l') :
    match (readWord (Window.wordAddress (position + n))).run l' with
    | ⟨.ok word, after, _⟩ => Along cfg l position (n + 1) after ∧ after.engine.awake = true ∧
        ∀ p, Window.wordAddress p = Window.wordAddress (position + n) →
          Word.byte word (p % 4) = after.shownByte p
    | ⟨.error e, _, _⟩ => cfg.Hangs e := by
  have hread := h.rest.readWord (Window.wordAddress (position + n))
  have hfirst : n = 0 → l.engine.awake = false →
      (readWord (Window.wordAddress (position + n))).run l' =
        ⟨((readWord (Window.wordAddress (position + n))).run l').result, l.woken position,
          ((readWord (Window.wordAddress (position + n))).run l').events⟩ := by
    rintro rfl ha
    rw [woken_of_asleep ha, h.untouched rfl]
    rfl
  revert hread hfirst
  rcases (readWord (Window.wordAddress (position + n))).run l' with ⟨_ | word, after, es⟩
  · exact fun hread _ => hread
  · rintro ⟨hrest, hk, ha, hword⟩ hfirst
    refine ⟨⟨hrest, h.kept.trans hk, fun hz => absurd hz (Nat.succ_ne_zero n), fun _ => ?_⟩, ha,
      fun p hp => ?_⟩
    · rcases Nat.eq_zero_or_pos n with rfl | hn
      · obtain rfl := h.untouched rfl
        cases hl : l'.engine.awake with
        | true =>
          rw [woken_of_awake hl]
          exact ⟨hl, hk⟩
        | false =>
          obtain rfl : after = l'.woken position := congrArg Outcome.state (hfirst rfl hl)
          exact ⟨ha, .refl _⟩
      · exact ⟨(h.since hn).1, (h.since hn).2.trans hk⟩
    · rw [hword _ (Nat.mod_lt _ (by decide)), shownByte, hp, hrest.steady.config_eq]

end Along

/-- **A reader who holds no word** gets the bytes that are shown, or hangs. -/
theorem AtRest.readBytes (h : AtRest cfg l) (position n : Nat) :
    match (Link.readBytes position n).run l with
    | ⟨.ok v, after, _⟩ => Along cfg l position n after ∧
        ∀ k (hk : k < n), v[k] = (l.woken position).shownByte (position + k)
    | ⟨.error e, _, _⟩ => cfg.Hangs e := by
  induction n with
  | zero => exact ⟨.start h, fun k hk => absurd hk (Nat.not_lt_zero k)⟩
  | succ n ih =>
    simp only [Link.readBytes_succ, Action.run_bind]
    revert ih
    rcases (Link.readBytes position n).run l with ⟨_ | v, t, es⟩
    · exact id
    · rintro ⟨ht, hv⟩
      have hlast := ht.fetched
      revert hlast
      simp only
      rcases (Link.readWord (Window.wordAddress (position + n))).run t with ⟨_ | word, after, es'⟩
      · exact id
      · rintro ⟨hafter, -, hword⟩
        refine ⟨hafter, fun k hk => ?_⟩
        rcases Nat.lt_succ_iff_lt_or_eq.1 hk with hk | rfl
        · rw [← hv k hk]
          exact Vector.getElem_push_lt hk
        · rw [← hafter.shownByte_eq, ← hword _ rfl]
          exact Vector.getElem_push_last

end Link

/-! ### Reading through a window -/

namespace Window

/-- The address of the word that a window holds when a read comes to its byte `k`. -/
def heldAt (w : Window) (position : Nat) : (k : Nat) → Option UInt32
  | 0 => w.held.map Held.address
  | k + 1 => some (wordAddress (position + k))

/-- How many bytes of a read are not in the word that is held when it comes to them. -/
def misses (w : Window) (position count : Nat) : Nat :=
  (List.range count).countP fun k => w.heldAt position k ≠ some (wordAddress (position + k))

theorem misses_succ (w : Window) (position n : Nat) : w.misses position (n + 1) =
    w.misses position n +
      if w.heldAt position n = some (wordAddress (position + n)) then 0 else 1 := by
  rw [misses, List.range_succ, List.countP_append, List.countP_singleton]
  simp [misses]

/-- A word under an address is what the device shows there. -/
def Shown (l : Link) (h : Held) : Prop :=
  ∀ p, wordAddress p = h.address → Word.byte h.word (p % 4) = l.shownByte p

/-- The words that a window may still use are what the device shows, which is taken to be awake
then. -/
structure Current (l : Link) (w : Window) : Prop where
  size_le : w.size ≤ maxSize
  held : ∀ h, w.held = some h → h.generation ≤ l.device.generation ∧
    (h.generation = l.device.generation → l.engine.awake = true ∧ Shown l h)

variable {l l' : Link} {w : Window}

theorem Current.kept (h : Current l w) (hk : Link.Kept l l') : Current l' w := by
  refine ⟨h.size_le, fun held hh => ?_⟩
  obtain ⟨hle, hnow⟩ := h.held held hh
  rw [hk.generation_eq]
  refine ⟨hle, fun hg => ?_⟩
  obtain ⟨ha, hs⟩ := hnow hg
  refine ⟨hk.awake ha, fun p hp => ?_⟩
  rw [hk.shownByte_eq ha]
  exact hs p hp

/-- New contents put all held words out of date. -/
theorem Current.newer (h : Current l w) (hg : l.device.generation < l'.device.generation) :
    Current l' w := by
  refine ⟨h.size_le, fun held hh => ?_⟩
  obtain ⟨hle, -⟩ := h.held held hh
  exact ⟨by omega, fun he => absurd he (by omega)⟩

end Window

namespace FlashSource

variable {cfg : Link.Config} {s t : FlashSource} {position n : Nat}

/-- Where a window is when a read that began in `s` comes to its byte `n`. -/
structure Along (cfg : Link.Config) (s : FlashSource) (position n : Nat) (t : FlashSource) :
    Prop where
  link : Link.Along cfg s.link position n t.link
  size_eq : t.window.size = s.window.size
  held : ∀ h, t.window.held = some h → h.generation = t.link.device.generation ∧
    t.link.engine.awake = true ∧ Window.Shown (s.link.woken position) h
  heldAt_eq : t.window.held.map Window.Held.address = s.window.heldAt position n
  wordReads_eq : t.window.wordReads = s.window.wordReads + s.window.misses position n

/-- One more byte. -/
theorem Along.readByte (h : Along cfg s position n t) :
    match (readByte (position + n)).run t with
    | ⟨.ok b, after, _⟩ => Along cfg s position (n + 1) after ∧
        b = (s.link.woken position).shownByte (position + n)
    | ⟨.error e, _, _⟩ => cfg.Hangs e := by
  by_cases hh : t.window.Holds (Window.wordAddress (position + n))
  · obtain ⟨held, hheld, ha⟩ := hh
    obtain ⟨hg, hawake, hs⟩ := h.held held hheld
    have hat : s.window.heldAt position n = some (Window.wordAddress (position + n)) := by
      rw [← h.heldAt_eq, hheld, Option.map_some, ha]
    rw [run_readByte_held hheld ha]
    refine ⟨⟨h.link.held hawake, h.size_eq, h.held, ?_, ?_⟩, hs _ ha.symm⟩
    · rw [h.heldAt_eq, hat]
      rfl
    · rw [h.wordReads_eq, Window.misses_succ, if_pos hat, Nat.add_zero]
  · have hat : s.window.heldAt position n ≠ some (Window.wordAddress (position + n)) := by
      rw [← h.heldAt_eq]
      intro he
      obtain ⟨held, hheld, ha⟩ := Option.map_eq_some_iff.1 he
      exact hh ⟨held, hheld, ha⟩
    have hfetch := h.link.fetched
    rw [run_readByte_fetch hh]
    revert hfetch
    rcases (Link.readWord (Window.wordAddress (position + n))).run t.link with ⟨_ | word, after, es⟩
    · exact id
    · rintro ⟨hafter, hawake, hword⟩
      have hshown := hafter.shownByte_eq
      rw [hshown] at hword
      refine ⟨⟨hafter, h.size_eq, ?_, rfl, ?_⟩, hword _ rfl⟩
      · rintro held ⟨⟩
        exact ⟨rfl, hawake, fun p hp => hword p hp⟩
      · rw [Window.misses_succ, if_neg hat, ← Nat.add_assoc, ← h.wordReads_eq]

/-- The bytes of a read. -/
theorem Along.readBytes (h : Along cfg s position 0 s) (n : Nat) :
    match (readBytes position n).run s with
    | ⟨.ok v, after, _⟩ => Along cfg s position n after ∧
        ∀ k (hk : k < n), v[k] = (s.link.woken position).shownByte (position + k)
    | ⟨.error e, _, _⟩ => cfg.Hangs e := by
  induction n with
  | zero => exact ⟨h, fun k hk => absurd hk (Nat.not_lt_zero k)⟩
  | succ n ih =>
    simp only [FlashSource.readBytes, Action.run_bind]
    revert ih
    rcases (FlashSource.readBytes position n).run s with ⟨_ | v, t, es⟩
    · exact id
    · rintro ⟨ht, hv⟩
      have hlast := ht.readByte
      revert hlast
      simp only
      rcases (FlashSource.readByte (position + n)).run t with ⟨_ | b, after, es'⟩
      · exact id
      · rintro ⟨hafter, hb⟩
        refine ⟨hafter, fun k hk => ?_⟩
        rcases Nat.lt_succ_iff_lt_or_eq.1 hk with hk | rfl
        · rw [← hv k hk]
          exact Vector.getElem_push_lt hk
        · rw [← hb]
          exact Vector.getElem_push_last

/-- A read starts with the words that are still good. -/
theorem Along.start (hr : Link.AtRest cfg s.link) (hc : Window.Current s.link s.window)
    (position : Nat) : Along cfg s.refreshed position 0 s.refreshed := by
  refine ⟨.start hr, rfl, fun held hh => ?_, rfl, rfl⟩
  obtain ⟨hheld, hg⟩ := Option.filter_eq_some_iff.1 hh
  have hg : held.generation = s.link.device.generation := of_decide_eq_true hg
  obtain ⟨ha, hs⟩ := (hc.held held hheld).2 hg
  refine ⟨hg, ha, ?_⟩
  rw [Link.woken_of_awake (show s.refreshed.link.engine.awake = true from ha)]
  exact hs

/-- A read leaves a window whose words are what the device shows. -/
theorem Along.current (h : Along cfg s position n t) (hn : 0 < n)
    (hs : s.window.size ≤ Window.maxSize) : Window.Current t.link t.window := by
  refine ⟨h.size_eq ▸ hs, fun held hh => ?_⟩
  obtain ⟨hg, ha, hshown⟩ := h.held held hh
  obtain ⟨hwoken, hkept⟩ := h.link.since hn
  refine ⟨Nat.le_of_eq hg, fun _ => ⟨ha, fun p hp => ?_⟩⟩
  rw [hkept.shownByte_eq hwoken]
  exact hshown p hp

/-- **What a read of a window does.**  It gives the bytes that are shown when it is done, which are
those that are shown as soon as the device is taken to be awake; or it hangs. -/
theorem read_shown (hr : Link.AtRest cfg s.link) (hc : Window.Current s.link s.window)
    {count : Nat} (hin : position + count ≤ s.window.size) :
    match (read position count).run s with
    | ⟨.ok v, after, _⟩ => Link.AtRest cfg after.link ∧ Link.Kept s.link after.link ∧
        Window.Current after.link after.window ∧
        after.window.wordReads = s.window.wordReads +
          (s.window.refresh s.link.device.generation).misses position count ∧
        ∀ k (hk : k < count), v[k] = after.link.shownByte (position + k) ∧
          v[k] = (s.link.woken position).shownByte (position + k)
    | ⟨.error e, _, _⟩ => cfg.Hangs e := by
  rw [run_read (Window.inside_eq_ok_iff.2 hin)]
  rcases Nat.eq_zero_or_pos count with rfl | hcount
  · exact ⟨hr, .refl _, hc, rfl, fun k hk => absurd hk (Nat.not_lt_zero k)⟩
  · rw [if_neg (Nat.pos_iff_ne_zero.1 hcount)]
    have hbytes := (Along.start hr hc position).readBytes count
    revert hbytes
    rcases (readBytes position count).run s.refreshed with ⟨_ | v, after, es⟩
    · exact id
    · rintro ⟨ha, hv⟩
      obtain ⟨hwoken, hkept⟩ := ha.link.since hcount
      refine ⟨ha.link.rest, ha.link.kept, ha.current hcount hc.size_le, ha.wordReads_eq,
        fun k hk => ⟨?_, hv k hk⟩⟩
      rw [hkept.shownByte_eq hwoken, hv k hk]

end FlashSource

/-! ### Several windows -/

/-- The byte that is shown at a position, in terms of the contents. -/
theorem Link.Steady.shownByte_eq {cfg : Link.Config} {l : Link} (h : Steady cfg l) {p : Nat}
    (hp : p < 2 ^ 32) : l.shownByte p =
      if l.device.awake then
        l.device.image.byte (((cfg.engine.offset.toNat + p / 4 * 4) % 2 ^ 24 + p % 4) % 2 ^ 24)
      else Image.erasedByte := by
  have haddress : (cfg.engine.translate (Window.wordAddress p) + BitVec.ofNat 24 (p % 4)).toNat =
      ((cfg.engine.offset.toNat + p / 4 * 4) % 2 ^ 24 + p % 4) % 2 ^ 24 := by
    rw [BitVec.toNat_add, translate_toNat, Config.flashAddress, Window.toNat_wordAddress hp,
      BitVec.toNat_ofNat]
    omega
  rw [shownByte, h.config_eq, Device.dataByte, haddress]
  cases hr : l.device.requiresWake with
  | true => cases l.device.awake <;> rfl
  | false => simp [h.awake_eq hr]

/-- Some windows, and the link that they share. -/
structure Bench (ι : Type) where
  window : ι → Window
  link : Link

namespace Bench

variable {ι α : Type}

/-- Runs an action of the link. -/
def onLink (m : Action Link α) : Action (Bench ι) α :=
  Action.within Bench.link (fun link b => { b with link }) m

variable {cfg : Link.Config} {b : Bench ι}

/-- The link is free, and the words that the windows may still use are good. -/
structure Good (cfg : Link.Config) (b : Bench ι) : Prop where
  rest : Link.AtRest cfg b.link
  current : ∀ i, Window.Current b.link (b.window i)

theorem Good.kept (h : Good cfg b) {link : Link} (hr : Link.AtRest cfg link)
    (hk : Link.Kept b.link link) : Good cfg { b with link } :=
  ⟨hr, fun i => (h.current i).kept hk⟩

theorem Good.newer (h : Good cfg b) {link : Link} (hr : Link.AtRest cfg link)
    (hg : b.link.device.generation < link.device.generation) : Good cfg { b with link } :=
  ⟨hr, fun i => (h.current i).newer hg⟩

variable [DecidableEq ι]

/-- Runs an action of one window. -/
def onWindow (i : ι) (m : Action FlashSource α) : Action (Bench ι) α :=
  Action.within (fun b => ⟨b.window i, b.link⟩)
    (fun s b => ⟨fun j => if j = i then s.window else b.window j, s.link⟩) m

/-- What may be done with windows, with their link, and with its device. -/
inductive Call (ι : Type) where
  | read (i : ι) (position count : Nat)
  | load (offset : Nat) (data : Buffer UInt8)
  | powerCycle
  | reset
  | idle (cycles : Nat)
  | readWord (address : UInt32)
  | writeWord (address data : UInt32) (mask : UInt8)

/-- Does a call, whatever it gives. -/
def Call.action : Call ι → Action (Bench ι) Unit
  | .read i position count => do
    let _ ← onWindow i (FlashSource.read position count)
  | .load offset data => onLink (Link.onDevice fun d => d.load offset data)
  | .powerCycle => onLink (Action.modify fun l => { l with device := l.device.powerCycle })
  | .reset => onLink (Action.modify Link.reset)
  | .idle cycles => onLink (Link.observed fun l => ((), Link.idle cycles l))
  | .readWord address => do
    let _ ← onLink (Link.readWord address)
  | .writeWord address data mask => onLink (Link.writeWord address data mask)

/-- The states from power-on onwards, as long as no call hangs. -/
inductive Used (cfg : Link.Config) : Bench ι → Prop
  | create {window : ι → Window} {link : Link} :
      (∀ i, ∃ size, Window.create size = .ok (window i)) → Link.create cfg = .ok link →
        Used cfg ⟨window, link⟩
  | call {b : Bench ι} (c : Call ι) : Used cfg b →
      (∀ e, (c.action.run b).result = .error e → e.kind ≠ .hang) →
        Used cfg (c.action.run b).state

/-- A read outside of its window changes nothing and takes no time. -/
theorem run_read_outside {i : ι} {position count : Nat}
    (hout : (b.window i).size < position + count) :
    (onWindow i (FlashSource.read position count)).run b =
      ⟨.error (.flashBounds position count (b.window i).size), b, []⟩ := by
  have hsame : (⟨fun j => if j = i then b.window i else b.window j, b.link⟩ : Bench ι) = b := by
    have hw : (fun j => if j = i then b.window i else b.window j) = b.window := by
      funext j
      split
      · next hj => rw [hj]
      · rfl
    rw [hw]
  simp [onWindow, FlashSource.read, Action.run_bind, Window.inside, hout, hsame]

/-- What a read inside of its window leaves. -/
theorem Good.read (h : Good cfg b) {i : ι} {position count : Nat}
    (hin : position + count ≤ (b.window i).size) :
    match (onWindow i (FlashSource.read position count)).run b with
    | ⟨.ok _, after, _⟩ => Good cfg after
    | ⟨.error e, _, _⟩ => cfg.Hangs e := by
  have hread := FlashSource.read_shown (s := ⟨b.window i, b.link⟩) h.rest (h.current i) hin
  rw [onWindow, Action.run_within]
  revert hread
  rcases (FlashSource.read position count).run ⟨b.window i, b.link⟩ with ⟨_ | v, after, es⟩
  · exact id
  · rintro ⟨hr, hk, hc, -, -⟩
    refine ⟨hr, fun j => ?_⟩
    dsimp only
    split
    · exact hc
    · exact (h.current j).kept hk

/-- **Every call that does not hang leaves good windows.** -/
theorem Good.call (h : Good cfg b) (c : Call ι)
    (hc : ∀ e, (c.action.run b).result = .error e → e.kind ≠ .hang) :
    Good cfg (c.action.run b).state := by
  cases c with
  | read i position count =>
    simp only [Call.action, Action.run_bind] at hc ⊢
    rcases Nat.lt_or_ge (b.window i).size (position + count) with hout | hin
    · rw [run_read_outside hout]
      exact h
    · have hread := h.read hin
      revert hread hc
      rcases (onWindow i (FlashSource.read position count)).run b with ⟨e | v, after, es⟩
      · exact fun hc hhang => absurd hhang.1 (hc e rfl)
      · exact fun _ hgood => hgood
  | load offset data =>
    simp only [Call.action, onLink, Action.run_within, Link.onDevice, Action.run_bind,
      Action.run_get, Action.run_check, Action.run_modify]
    cases hd : b.link.device.load offset data with
    | error e => exact h
    | ok device =>
      have hr := h.rest.load hd
      obtain ⟨image, generation, rfl, ⟨rfl, rfl⟩ | rfl⟩ := Device.load_eq hd
      · exact h.kept hr ⟨rfl, rfl, rfl, id, fun _ => rfl⟩
      · exact h.newer hr (Nat.lt_succ_self _)
  | powerCycle => exact h.newer h.rest.powerCycle (Nat.lt_succ_self _)
  | reset => exact h.newer h.rest.reset (Nat.lt_succ_self _)
  | idle cycles =>
    obtain ⟨hr, hk⟩ := h.rest.idle cycles
    exact h.kept hr hk
  | readWord address =>
    have hread := h.rest.readWord address
    simp only [Call.action, onLink, Action.run_bind, Action.run_within] at hc ⊢
    revert hread hc
    rcases (Link.readWord address).run b.link with ⟨e | word, after, es⟩
    · exact fun hc hhang => absurd hhang.1 (hc e rfl)
    · rintro - ⟨hr, hk, -, -⟩
      exact h.kept hr hk
  | writeWord address data mask =>
    obtain ⟨hr, hk⟩ := h.rest.writeWord address data mask
    exact h.kept hr hk

theorem Used.good (h : Used cfg b) : Good cfg b := by
  induction h with
  | @create window link hw hl =>
    refine ⟨.create hl, fun i => ?_⟩
    change Window.Current link (window i)
    obtain ⟨size, hsize⟩ := hw i
    unfold Window.create at hsize
    split at hsize
    · exact nomatch hsize
    · rename_i hfits
      rw [← Except.ok.inj hsize]
      exact ⟨Nat.le_of_not_lt fun hlt => hfits (.inr hlt), fun _ hh => nomatch hh⟩
  | call c _ hc ih => exact ih.call c hc

/-- **Held words cannot be told from the contents of the device.**  Whatever was done to a link and
its windows since power-on without a call that hung, a read inside its window gives the bytes of
the contents at the time, translated word by word, if the device is awake when it is done, and
erased bytes if not; or it hangs.  A reader who holds no word gets the same.  The read fetches a
word for every byte that is not in the word that is held when it comes to it, a word from before
the last change being none.  A read outside its window changes nothing, and takes no time. -/
theorem reads_transparent (cfg : Link.Config) (b : Bench ι) (h : Used cfg b) (i : ι)
    (position count : Nat) :
    (position + count ≤ (b.window i).size →
      match (onWindow i (FlashSource.read position count)).run b with
      | ⟨.ok v, after, _⟩ =>
        (∀ k (hk : k < count), v[k] =
          if after.link.device.awake then
            b.link.device.image.byte (((cfg.engine.offset.toNat + (position + k) / 4 * 4) % 2 ^ 24 +
              (position + k) % 4) % 2 ^ 24)
          else Image.erasedByte) ∧
        (∀ v', ((Link.readBytes position count).run b.link).result = .ok v' → v' = v) ∧
        (after.window i).wordReads = (b.window i).wordReads +
          ((b.window i).refresh b.link.device.generation).misses position count ∧
        ∀ j, j ≠ i → after.window j = b.window j
      | ⟨.error e, _, _⟩ => cfg.Hangs e) ∧
    ((b.window i).size < position + count →
      (onWindow i (FlashSource.read position count)).run b =
        ⟨.error (.flashBounds position count (b.window i).size), b, []⟩) := by
  refine ⟨fun hin => ?_, run_read_outside⟩
  have hgood := h.good
  have hsize := (hgood.current i).size_le
  have huncached := hgood.rest.readBytes position count
  have hread := FlashSource.read_shown (s := ⟨b.window i, b.link⟩) hgood.rest (hgood.current i) hin
  rw [onWindow, Action.run_within]
  revert hread
  rcases (FlashSource.read position count).run ⟨b.window i, b.link⟩ with ⟨_ | v, after, es⟩
  · exact id
  · rintro ⟨hr, hk, -, hreads, hv⟩
    refine ⟨fun k hlt => ?_, fun v' hv' => ?_, ?_, fun j hj => if_neg hj⟩
    · rw [(hv k hlt).1, hr.steady.shownByte_eq (by unfold Window.maxSize at hsize; omega),
        hk.image_eq]
    · revert huncached hv'
      rcases (Link.readBytes position count).run b.link with ⟨_ | u, last, es'⟩
      · exact fun _ hv' => nomatch hv'
      · rintro ⟨-, hu⟩ hv'
        obtain rfl := Except.ok.inj hv'
        exact Vector.ext fun k hlt => (hu k hlt).trans (hv k hlt).2.symm
    · dsimp only
      rw [if_pos rfl]
      exact hreads

/-! ### A word that was held when the contents changed -/

theorem Used.call_of_ok (h : Used cfg b) (c : Call ι)
    (hc : (c.action.run b).result.toOption = some ()) : Used cfg (c.action.run b).state :=
  h.call c fun _ he => nomatch (eq_ok_of_toOption hc).symm.trans he

/-- Eight bytes, of which a window shows the second half, without a handshake. -/
def sharedConfig : Link.Config := ⟨⟨4, 0, false, 0⟩, 8, false, 0⟩

/-- Two windows after power-on. -/
def erased : Bench Bool :=
  ⟨fun _ => ⟨4, none, 0⟩, (Link.create sharedConfig).toOption.get (by decide)⟩

/-- What happens before the read: a window holds the word that is then replaced. -/
def reload : List (Call Bool) :=
  [.load 4 (.held #[0x11, 0x22, 0x33, 0x44]), .read true 0 4,
    .load 5 (.held #[0xAA, 0xBB]), .read false 3 1]

/-- The windows after some calls. -/
def afterCalls (calls : List (Call Bool)) (b : Bench Bool) : Bench Bool :=
  calls.foldl (fun b c => (c.action.run b).state) b

theorem reads_transparent_reloaded :
    Used sharedConfig (afterCalls reload erased) ∧
    ((afterCalls reload erased).window true).held = some ⟨0, 0x44332211, 2⟩ ∧
    ((afterCalls reload erased).window true).size = 4 ∧
    (∃ v after es, (onWindow true (FlashSource.read 1 3)).run (afterCalls reload erased) =
        ⟨.ok v, after, es⟩ ∧
      (after.link.device.awake = true → v = #v[0xAA, 0xBB, 0x44]) ∧
      (after.window true).wordReads = 2) ∧
    (onWindow true (FlashSource.read 1 4)).run (afterCalls reload erased) =
      ⟨.error (.flashBounds 1 4 4), afterCalls reload erased, []⟩ := by
  have hcreated : Used sharedConfig erased := .create (fun _ => ⟨4, rfl⟩) rfl
  have hused : Used sharedConfig (afterCalls reload erased) :=
    (((hcreated.call_of_ok _ (by decide +kernel)).call_of_ok _ (by decide +kernel)).call_of_ok _
      (by decide +kernel)).call_of_ok _ (by decide +kernel)
  have hsize : ((afterCalls reload erased).window true).size = 4 := by decide +kernel
  have hheld : ((afterCalls reload erased).window true).held = some ⟨0, 0x44332211, 2⟩ := by
    decide +kernel
  obtain ⟨hin, -⟩ := reads_transparent sharedConfig _ hused true 1 3
  obtain ⟨-, hout⟩ := reads_transparent sharedConfig _ hused true 1 4
  have hpast := hout (by rw [hsize]; decide)
  rw [hsize] at hpast
  refine ⟨hused, hheld, hsize, ?_, hpast⟩
  revert hin
  cases (onWindow true (FlashSource.read 1 3)).run (afterCalls reload erased) with
  | mk result after es =>
    intro hin
    have hread := hin (Nat.le_of_eq hsize.symm)
    cases result with
    | error e => exact absurd rfl hread.2
    | ok v =>
      obtain ⟨hv, -, hreads, -⟩ := hread
      refine ⟨v, after, es, rfl, fun ha => Vector.ext fun k hk => ?_, ?_⟩
      · rw [hv k hk, if_pos ha]
        have hbytes : ∀ k (hk : k < 3), (afterCalls reload erased).link.device.image.byte
            (((4 + (1 + k) / 4 * 4) % 2 ^ 24 + (1 + k) % 4) % 2 ^ 24) =
              (#v[0xAA, 0xBB, 0x44] : Vector UInt8 3)[k] := by decide +kernel
        exact hbytes k hk
      · rw [hreads]
        decide +kernel

end Bench
end Flash
end WeightLink
